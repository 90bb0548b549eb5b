/-!
# Bisection

Binary search that halves a range until one index is left. On a list that is not in order, or holds
equal elements, the outcome is that of exactly these probes.
-/

namespace RefStore

/-- Where an element stands, or where it belongs. -/
inductive Place where
  | found (index : Nat)
  | absent (index : Nat)
  deriving DecidableEq, Repr

namespace Bisection

/-- The last index of `[base, base + size)` that the halving reaches. -/
def narrow (probe : Nat → Ordering) (base size : Nat) : Nat :=
  if _h : 1 < size then
    let middle := base + size / 2
    narrow probe (if probe middle = .gt then base else middle) (size - size / 2)
  else base
termination_by size

def place (probe : Nat → Ordering) (size : Nat) : Place :=
  if size = 0 then .absent 0
  else
    let index := narrow probe 0 size
    match probe index with
    | .eq => .found index
    | .lt => .absent (index + 1)
    | .gt => .absent index

/-- Search with `order x`, the order of an element relative to the one sought. -/
def search {α : Type} (xs : List α) (order : α → Ordering) : Place :=
  let table := xs.toArray
  place (fun i => (table[i]?.map order).getD .gt) table.size

/-- The number of leading elements that satisfy a condition, on a list where those come first. -/
def leading {α : Type} (xs : List α) (condition : α → Bool) : Nat :=
  match search xs fun x => if condition x then .lt else .gt with
  | .found i => i
  | .absent i => i

end Bisection

end RefStore
