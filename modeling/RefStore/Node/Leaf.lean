import RefStore.Bisection
import RefStore.Key

/-!
# Leaves

A leaf holds entries in key order and links to its neighbours; link 0 means none.
-/

namespace RefStore

/-- What a page stores about a node besides its contents. -/
structure NodeLinks where
  count : UInt16
  parent : PageIndex
  previous : PageIndex
  next : PageIndex
  deriving DecidableEq, Repr

def NodeLinks.fresh (parent : PageIndex) : NodeLinks := ⟨0, parent, 0, 0⟩

structure Entry where
  key : Key
  value : Int32
  deriving DecidableEq, Repr

structure Leaf where
  links : NodeLinks
  entries : List Entry
  deriving DecidableEq, Repr

namespace Leaf

variable {ε : Type}

def empty (parent : PageIndex) : Leaf := ⟨.fresh parent, []⟩

/-- Entries of 24 bytes, after headers of 35. -/
def capacity (pageSize : Nat) : Nat := (pageSize - 35) / 24

def isOverfull (leaf : Leaf) (pageSize : Nat) : Bool := capacity pageSize < leaf.entries.length

def find (leaf : Leaf) (key : Key) : Place :=
  Bisection.search leaf.entries fun e => compare e.key key

def get? (leaf : Leaf) (key : Key) : Option Int32 :=
  match leaf.find key with
  | .found i => leaf.entries[i]?.map Entry.value
  | .absent _ => none

/-- The leaf with the entry, and the value it replaced. -/
def insert (leaf : Leaf) (key : Key) (value : Int32) : Leaf × Option Int32 :=
  match leaf.find key with
  | .found i =>
    ({ leaf with entries := leaf.entries.modify i fun e => { e with value } },
      leaf.entries[i]?.map Entry.value)
  | .absent i => ({ leaf with entries := leaf.entries.insertIdx i ⟨key, value⟩ }, none)

/-- The leaf without the entry, and the value removed. -/
def remove (leaf : Leaf) (key : Key) : Leaf × Option Int32 :=
  match leaf.find key with
  | .found i => ({ leaf with entries := leaf.entries.eraseIdx i }, leaf.entries[i]?.map Entry.value)
  | .absent _ => (leaf, none)

/-- The two halves and the first key of the right one. The left half keeps the links. -/
def split (leaf : Leaf) : Checked ε (Leaf × Key × Leaf) :=
  let middle := leaf.entries.length / 2
  match leaf.entries.drop middle with
  | [] => halt .emptySplit
  | first :: rest =>
    .ok ({ leaf with entries := leaf.entries.take middle }, first.key,
      ⟨⟨UInt16.ofNat (rest.length + 1), leaf.links.parent, 0, leaf.links.next⟩, first :: rest⟩)

end Leaf

end RefStore
