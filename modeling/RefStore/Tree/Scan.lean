import RefStore.Tree.Basic

/-!
# Scans of a shared tree

Scans follow the links between the leaves, forwards or backwards, and pass over empty leaves.
-/

namespace RefStore.Tree

structure KeyRange where
  low : Key
  includesLow : Bool
  high : Key
  includesHigh : Bool
  deriving DecidableEq, Repr

namespace KeyRange

/-- All keys from `low` to `high`, both included. -/
def closed (low high : Key) : KeyRange := ⟨low, true, high, true⟩

def isBelow (r : KeyRange) (key : Key) : Bool := if r.includesLow then key.lt r.low else key.le r.low

def isAbove (r : KeyRange) (key : Key) : Bool :=
  if r.includesHigh then r.high.lt key else r.high.le key

end KeyRange

/-- The entries of a leaf and of those after it, up to the first one above the range. A limit on
their number ends the scan as soon as it is reached. -/
def collect (file : FileId) (r : KeyRange) :
    Nat → Option Nat → List Entry → PageIndex → Task Transaction TreeError (List Entry)
  | 0, _, _, _ => halt .endless
  | fuel + 1, limit, entries, next => do
    let taken := (entries.take (limit.getD entries.length)).takeWhile fun e => !r.isAbove e.key
    let left := limit.map (· - taken.length)
    if taken.length < entries.length ∨ left = some 0 ∨ next = 0 then return taken
    let leaf ← readLeaf file next
    return taken ++ (← collect file r fuel left leaf.entries leaf.links.next)

/-- The entries of a range in key order, the first `limit` of them if there is a limit. -/
def scan (tree : Tree) (r : KeyRange) (limit : Option Nat) :
    Task Transaction TreeError (List Entry) := do
  let file ← tree.file
  let m ← readMeta file
  let leaf ← readLeaf file (← findLeaf file m.root r.low)
  let start := Bisection.leading leaf.entries fun e => r.isBelow e.key
  let fuel := (← steps file) * (limit.getD 0 + 1)
  collect file r fuel limit (leaf.entries.drop start) leaf.links.next

def firstKeyBetween (tree : Tree) (low high : Key) : Task Transaction TreeError (Option Key) := do
  return (← tree.scan (.closed low high) (some 1)).head?.map Entry.key

def hasEntriesBetween (tree : Tree) (low high : Key) : Task Transaction TreeError Bool := do
  return (← tree.firstKeyBetween low high).isSome

/-- Go from leaf to leaf until one has something to show. -/
def walk {α : Type} (file : FileId) (follow : NodeLinks → PageIndex) (pick : Leaf → Option α) :
    Nat → PageIndex → Task Transaction TreeError (Option α)
  | 0, _ => halt .endless
  | fuel + 1, index => do
    let leaf ← readLeaf file index
    match pick leaf with
    | some a => return some a
    | none => if follow leaf.links = 0 then return none else walk file follow pick fuel (follow leaf.links)

def firstKey (tree : Tree) : Task Transaction TreeError (Option Key) := do
  let file ← tree.file
  let m ← readMeta file
  let fuel ← steps file
  let edge ← descend file (·.children.head?) fuel m.root
  walk file NodeLinks.next (·.entries.head?.map Entry.key) fuel edge

def lastKey (tree : Tree) : Task Transaction TreeError (Option Key) := do
  let file ← tree.file
  let m ← readMeta file
  let fuel ← steps file
  let edge ← descend file (·.children.getLast?) fuel m.root
  walk file NodeLinks.previous (·.entries.getLast?.map Entry.key) fuel edge

/-- The greatest key up to `high`, if it is not below `low`. The search starts at the leaf for
`high` and goes backwards. -/
def lastKeyBetween (tree : Tree) (low high : Key) : Task Transaction TreeError (Option Key) := do
  let file ← tree.file
  let m ← readMeta file
  let edge ← findLeaf file m.root high
  let last (leaf : Leaf) := (leaf.entries.reverse.find? fun e => e.key.le high).map Entry.key
  let key ← walk file NodeLinks.previous last (← steps file) edge
  return key.filter low.le

end RefStore.Tree
