import RefStore.Tree.Basic

/-!
# Updates of a shared tree

Putting an entry into a full leaf splits the leaf. The key between the halves goes to the parent,
which may be full in turn, and a split root gets a new root above it. Removing an entry never joins
nodes: a leaf that runs empty stays where it is.
-/

namespace RefStore.Tree

/-- Give a node a parent. -/
def adopt (file : FileId) (parent child : PageIndex) : Task Transaction TreeError Unit :=
  relink file child fun links => { links with parent }

/-- The page of a new root above the two halves of a split. -/
def growRoot (file : FileId) (left : PageIndex) (key : Key) (right : PageIndex) :
    Task Transaction TreeError PageIndex := do
  let root ← appendNode file (.branch (.pair 0 left key right))
  adopt file root left
  adopt file root right
  return root

/-- Insert the key between two halves of a split and the right half at the parent of the left one,
and go on upwards. The outcome is the page of the root. -/
def insertAbove (file : FileId) (root : PageIndex) :
    Nat → (left : PageIndex) → Key → (right parent : PageIndex) →
    Task Transaction TreeError PageIndex
  | 0, _, _, _, _ => halt .endless
  | fuel + 1, left, key, right, parent => do
    if parent = 0 then growRoot file left key right
    else
      let branch := (← readBranch file parent).insert key right
      if branch.isOverfull (← Transaction.pageSize) then
        let (lower, median, upper) ← Task.ofChecked branch.split
        let added ← appendNode file (.branch upper)
        writeNode file parent (.branch lower)
        upper.children.forM (adopt file added)
        insertAbove file root fuel parent median added lower.links.parent
      else
        writeNode file parent (.branch branch)
        return root

/-- Split an overfull leaf. The new right half comes between the leaf and its next one. -/
def splitLeaf (file : FileId) (root index : PageIndex) (leaf : Leaf) :
    Task Transaction TreeError PageIndex := do
  let (left, key, right) ← Task.ofChecked leaf.split
  let added ← appendNode file (.leaf { right with links := { right.links with previous := index } })
  writeNode file index (.leaf { left with links := { left.links with next := added } })
  if leaf.links.next ≠ 0 then
    relink file leaf.links.next fun links => { links with previous := added }
  insertAbove file root (2 * (← steps file)) index key added leaf.links.parent

/-- The meta page is written if the number of entries or the root changed. -/
def putEntry (file : FileId) (key : Key) (value : Int32) :
    Task Transaction TreeError (Option Int32) := do
  let m ← readMeta file
  let index ← findLeaf file m.root key
  let (leaf, old) := (← readLeaf file index).insert key value
  let root ←
    if leaf.isOverfull (← Transaction.pageSize) then splitLeaf file m.root index leaf
    else
      writeNode file index (.leaf leaf)
      pure m.root
  let count := if old.isNone then m.count + 1 else m.count
  if old.isNone ∨ root ≠ m.root then writeMeta file ⟨root, count⟩
  return old

def removeEntry (file : FileId) (key : Key) : Task Transaction TreeError (Option Int32) := do
  let m ← readMeta file
  let index ← findLeaf file m.root key
  let (leaf, old) := (← readLeaf file index).remove key
  if old.isSome then
    writeNode file index (.leaf leaf)
    writeMeta file { m with count := if m.count = 0 then 0 else m.count - 1 }
  return old

/-- Insert an entry, or replace its value. The outcome is the value before. -/
def put (tree : Tree) (key : Key) (value : Int32) : Task Transaction TreeError (Option Int32) := do
  let file ← tree.file
  tree.during "put" (putEntry file key value)

/-- Remove an entry. The outcome is the value removed. -/
def remove (tree : Tree) (key : Key) : Task Transaction TreeError (Option Int32) := do
  let file ← tree.file
  tree.during "remove" (removeEntry file key)

end RefStore.Tree
