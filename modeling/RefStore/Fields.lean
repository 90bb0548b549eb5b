import RefStore.Words

/-!
# Fields of a record

Reading fields from the front of a list of bytes. A field that the list is too short for is none.
-/

namespace RefStore.Fields

def take? (n : Nat) (bs : List UInt8) : Option (List UInt8 × List UInt8) :=
  if n ≤ bs.length then some (bs.take n, bs.drop n) else none

def word? (α : Type) [Word α] (bs : List UInt8) : Option (α × List UInt8) :=
  (take? (Word.width α) bs).map fun (field, rest) => (Word.ofBytes field, rest)

def text? (n : Nat) (bs : List UInt8) : Option (String × List UInt8) := do
  let (field, rest) ← take? n bs
  let text ← String.fromUTF8? field.toByteArray
  return (text, rest)

def ofText (s : String) : List UInt8 := s.toUTF8.data.toList

theorem take?_append (field rest : List UInt8) :
    take? field.length (field ++ rest) = some (field, rest) := by
  simp [take?]

theorem word?_append {α : Type} [Word α] (a : α) (rest : List UInt8) :
    word? α (Word.bytes a ++ rest) = some (a, rest) := by
  have h := take?_append (Word.bytes a) rest
  rw [Word.length_bytes] at h
  simp [word?, h]

end RefStore.Fields
