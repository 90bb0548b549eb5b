import RefStore.Hex

/-!
# Unique ids

Ids of 128 bits, written as 32 hexadecimal digits in groups of 8, 4, 4, 4 and 12. An id is also read
without its groups, or with the groups in braces or behind `urn:uuid:`, all in any case.
-/

namespace RefStore

structure Uuid where
  bits : Nat
  deriving DecidableEq, Repr, Ord

namespace Uuid

def text (u : Uuid) : String :=
  let digits := (Hex.lower 32 u.bits).toList
  let group (start length : Nat) := String.ofList ((digits.drop start).take length)
  "-".intercalate [group 0 8, group 8 4, group 12 4, group 16 4, group 20 12]

def digit? (c : Char) : Option Nat :=
  if c.isDigit then some (c.toNat - 48)
  else if 'a' ≤ c ∧ c ≤ 'f' then some (c.toNat - 87)
  else if 'A' ≤ c ∧ c ≤ 'F' then some (c.toNat - 55)
  else none

/-- Without the braces or the scheme that may stand around the groups. -/
def unwrap (text : List Char) : List Char :=
  if text.head? = some '\x7b' ∧ text.getLast? = some '\x7d' then text.tail.dropLast
  else if (text.take 9).map Char.toLower = "urn:uuid:".toList then text.drop 9
  else text

/-- The digits of an id, which stand in groups or on their own. -/
def digits? (text : List Char) : Option (List Char) :=
  if text.length = 32 then some text
  else
    let groups := (String.ofList (unwrap text)).splitOn "-"
    if groups.map String.length = [8, 4, 4, 4, 12] then some (groups.flatMap String.toList) else none

def ofText? (s : String) : Option Uuid := do
  let digits ← (← digits? s.toList).mapM digit?
  return ⟨digits.foldl (fun n d => 16 * n + d) 0⟩

end Uuid

end RefStore
