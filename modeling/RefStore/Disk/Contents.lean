import RefStore.Block

/-!
# File contents

The bytes of a file, kept as stretches that were written and stretches that are zero because the
file was made longer. Main statements: what cutting, filling up, writing and reading do to the
bytes, as `toList` shows them.
-/

namespace RefStore

inductive Stretch where
  | zeros (length : Nat)
  | bytes (block : ByteArray)

namespace Stretch

def size : Stretch → Nat
  | zeros length => length
  | bytes block => block.size

def toList : Stretch → List UInt8
  | zeros length => List.replicate length 0
  | bytes block => Block.toList block

def block : Stretch → ByteArray
  | zeros length => Block.zeros length
  | bytes block => block

def take (length : Nat) : Stretch → Stretch
  | zeros n => zeros (min length n)
  | bytes block => bytes (block.extract 0 length)

def drop (length : Nat) : Stretch → Stretch
  | zeros n => zeros (n - length)
  | bytes block => bytes (block.extract length block.size)

@[simp] theorem length_toList (s : Stretch) : s.toList.length = s.size := by
  cases s <;> simp [toList, size]

@[simp] theorem toList_block (s : Stretch) : Block.toList s.block = s.toList := by
  cases s <;> simp [block, toList, Block.zeros, Block.toList]

@[simp] theorem toList_take (length : Nat) (s : Stretch) :
    (s.take length).toList = s.toList.take length := by
  cases s <;> simp [take, toList]

@[simp] theorem toList_drop (length : Nat) (s : Stretch) :
    (s.drop length).toList = s.toList.drop length := by
  cases s with
  | zeros n => simp [drop, toList]
  | bytes block =>
    simp only [drop, toList, Block.toList_extract]
    rw [← Block.length_toList block, List.take_length]

end Stretch

structure Contents where
  stretches : List Stretch

namespace Contents

def empty : Contents := ⟨[]⟩

def total : List Stretch → Nat
  | [] => 0
  | s :: rest => s.size + total rest

def size (c : Contents) : Nat := total c.stretches

def toList (c : Contents) : List UInt8 := c.stretches.flatMap Stretch.toList

def block (c : Contents) : ByteArray :=
  c.stretches.foldl (fun all s => all ++ s.block) ByteArray.empty

def takeFrom : Nat → List Stretch → List Stretch
  | _, [] => []
  | length, s :: rest =>
    if s.size ≤ length then s :: takeFrom (length - s.size) rest
    else if length = 0 then [] else [s.take length]

def dropFrom : Nat → List Stretch → List Stretch
  | _, [] => []
  | length, s :: rest =>
    if s.size ≤ length then dropFrom (length - s.size) rest
    else if length = 0 then s :: rest else s.drop length :: rest

def take (c : Contents) (length : Nat) : Contents := ⟨takeFrom length c.stretches⟩

def drop (c : Contents) (length : Nat) : Contents := ⟨dropFrom length c.stretches⟩

/-- Cut to a length, or filled up to it with zero bytes. -/
def resize (c : Contents) (length : Nat) : Contents :=
  if length ≤ c.size then c.take length else ⟨c.stretches ++ [.zeros (length - c.size)]⟩

/-- Writing past the end first fills up the gap, and writing nothing changes nothing. -/
def overwrite (c : Contents) (offset : Nat) (written : ByteArray) : Contents :=
  if written.size = 0 then c
  else
    ⟨(c.resize offset).stretches ++ .bytes written ::
      (c.drop (offset + written.size)).stretches⟩

def slice (c : Contents) (offset length : Nat) : ByteArray := ((c.drop offset).take length).block

theorem length_flatMap (stretches : List Stretch) :
    (stretches.flatMap Stretch.toList).length = total stretches := by
  induction stretches with
  | nil => rfl
  | cons s rest ih => simp [total, ih]

@[simp] theorem length_toList (c : Contents) : c.toList.length = c.size :=
  length_flatMap c.stretches

@[simp] theorem toList_empty : empty.toList = [] := rfl

theorem toList_foldl (stretches : List Stretch) (start : ByteArray) :
    Block.toList (stretches.foldl (fun all s => all ++ s.block) start) =
      Block.toList start ++ stretches.flatMap Stretch.toList := by
  induction stretches generalizing start with
  | nil => simp
  | cons s rest ih => simp [ih]

@[simp] theorem toList_block (c : Contents) : Block.toList c.block = c.toList := by
  rw [block, toList_foldl]
  rfl

theorem flatMap_takeFrom (length : Nat) (stretches : List Stretch) :
    (takeFrom length stretches).flatMap Stretch.toList =
      (stretches.flatMap Stretch.toList).take length := by
  fun_induction takeFrom length stretches with
  | case1 => simp
  | case2 length s rest h ih =>
    simp [ih, List.take_append, List.take_of_length_le (Nat.le_trans (Nat.le_of_eq s.length_toList) h)]
  | case3 s rest h => simp
  | case4 length s rest h =>
    have : length - s.size = 0 := by omega
    simp [List.take_append, this]

theorem flatMap_dropFrom (length : Nat) (stretches : List Stretch) :
    (dropFrom length stretches).flatMap Stretch.toList =
      (stretches.flatMap Stretch.toList).drop length := by
  fun_induction dropFrom length stretches with
  | case1 => simp
  | case2 length s rest h ih =>
    simp [ih, List.drop_append, List.drop_of_length_le (Nat.le_trans (Nat.le_of_eq s.length_toList) h)]
  | case3 s rest h => simp
  | case4 length s rest h =>
    have : length - s.size = 0 := by omega
    simp [List.drop_append, this]

@[simp] theorem toList_take (c : Contents) (length : Nat) :
    (c.take length).toList = c.toList.take length := flatMap_takeFrom length c.stretches

@[simp] theorem toList_drop (c : Contents) (length : Nat) :
    (c.drop length).toList = c.toList.drop length := flatMap_dropFrom length c.stretches

theorem toList_resize (c : Contents) (length : Nat) :
    (c.resize length).toList = c.toList.take length ++ List.replicate (length - c.size) 0 := by
  rw [resize]
  split
  · next h => simp [Nat.sub_eq_zero_of_le h]
  · next h =>
    rw [List.take_of_length_le (by simp; omega)]
    simp [toList, Stretch.toList]

theorem toList_overwrite (c : Contents) (offset : Nat) (written : ByteArray)
    (h : written.size ≠ 0) :
    (c.overwrite offset written).toList =
      (c.toList.take offset ++ List.replicate (offset - c.size) 0) ++ Block.toList written ++
        c.toList.drop (offset + written.size) := by
  rw [overwrite, if_neg h, ← toList_resize, ← toList_drop]
  simp [toList, Stretch.toList]

theorem overwrite_of_size_eq_zero (c : Contents) (offset : Nat) (written : ByteArray)
    (h : written.size = 0) : c.overwrite offset written = c := if_pos h

theorem toList_slice (c : Contents) (offset length : Nat) :
    Block.toList (c.slice offset length) = (c.toList.drop offset).take length := by
  simp [slice]

end Contents

end RefStore
