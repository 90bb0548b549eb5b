/-!
# Byte blocks

Blocks of bytes that are read and replaced in pieces. Main statement: `toList_splice`, the bytes of
a block after one stretch of it was replaced.
-/

namespace RefStore.Block

def zeros (size : Nat) : ByteArray := ⟨Array.replicate size 0⟩

def ofList (bytes : List UInt8) : ByteArray := bytes.toByteArray

def toList (block : ByteArray) : List UInt8 := block.data.toList

/-- The block with `bytes` in place of what stood from `offset` on. -/
def splice (block : ByteArray) (offset : Nat) (bytes : ByteArray) : ByteArray :=
  block.extract 0 offset ++ bytes ++ block.extract (offset + bytes.size) block.size

@[simp] theorem size_zeros (size : Nat) : (zeros size).size = size := by
  simp [zeros, ByteArray.size]

@[simp] theorem size_ofList (bytes : List UInt8) : (ofList bytes).size = bytes.length := by
  simp [ofList]

@[simp] theorem length_toList (block : ByteArray) : (toList block).length = block.size := rfl

@[simp] theorem toList_ofList (bytes : List UInt8) : toList (ofList bytes) = bytes := by
  simp [toList, ofList]

theorem toList_injective {a b : ByteArray} (h : toList a = toList b) : a = b :=
  ByteArray.ext (Array.toList_inj.mp h)

@[simp] theorem ofList_toList (block : ByteArray) : ofList (toList block) = block :=
  toList_injective (by simp)

@[simp] theorem toList_extract (block : ByteArray) (i j : Nat) :
    toList (block.extract i j) = ((toList block).take j).drop i := by
  simp [toList, List.drop_take, List.extract_eq_take_drop]

@[simp] theorem toList_append (a b : ByteArray) : toList (a ++ b) = toList a ++ toList b := by
  simp [toList]

theorem size_splice (block : ByteArray) (offset : Nat) (bytes : ByteArray)
    (h : offset + bytes.size ≤ block.size) : (splice block offset bytes).size = block.size := by
  simp only [splice, ByteArray.size_append, ByteArray.size_extract]
  omega

theorem toList_splice (block : ByteArray) (offset : Nat) (bytes : ByteArray) :
    toList (splice block offset bytes) =
      (toList block).take offset ++ toList bytes ++ (toList block).drop (offset + bytes.size) := by
  simp only [splice, toList_append, toList_extract, List.drop_zero]
  congr 1
  rw [← length_toList block, List.take_length]

end RefStore.Block
