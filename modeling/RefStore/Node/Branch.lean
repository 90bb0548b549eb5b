import RefStore.Node.Leaf

/-!
# Branches

An inner node holds keys and one more child than keys. Child `i` leads to the keys below key `i`,
child `i + 1` to those from key `i` on.
-/

namespace RefStore

structure Branch where
  links : NodeLinks
  keys : List Key
  children : List PageIndex
  deriving DecidableEq, Repr

namespace Branch

variable {ε : Type}

def pair (parent left : PageIndex) (key : Key) (right : PageIndex) : Branch :=
  ⟨.fresh parent, [key], [left, right]⟩

/-- Keys of 20 bytes with a child of 8 each, after headers of 35 bytes and the first child. -/
def capacity (pageSize : Nat) : Nat := (pageSize - 43) / 28

def isOverfull (branch : Branch) (pageSize : Nat) : Bool := capacity pageSize < branch.keys.length

/-- A key that is present routes to the child after it. -/
def childIndex (branch : Branch) (key : Key) : Nat :=
  match Bisection.search branch.keys fun k => compare k key with
  | .found i => i + 1
  | .absent i => i

def child? (branch : Branch) (key : Key) : Option PageIndex :=
  branch.children[branch.childIndex key]?

def insert (branch : Branch) (key : Key) (child : PageIndex) : Branch :=
  let i := branch.childIndex key
  { branch with
    keys := branch.keys.insertIdx i key
    children := branch.children.insertIdx (i + 1) child }

/-- The two halves and the key between them. The left half keeps the links. -/
def split (branch : Branch) : Checked ε (Branch × Key × Branch) :=
  let middle := branch.keys.length / 2
  match branch.keys.drop middle with
  | [] => halt .emptySplit
  | median :: rest =>
    .ok ({ branch with
            keys := branch.keys.take middle
            children := branch.children.take (middle + 1) },
      median,
      ⟨⟨UInt16.ofNat rest.length, branch.links.parent, 0, 0⟩, rest,
        branch.children.drop (middle + 1)⟩)

end Branch

end RefStore
