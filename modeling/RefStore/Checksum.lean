/-!
# CRC-32

The reflected CRC-32 with polynomial `0xEDB88320`, one bit at a time.
-/

namespace RefStore.Checksum

def polynomial : UInt32 := 0xEDB88320

def shiftBit (crc : UInt32) : UInt32 :=
  if crc &&& 1 = 1 then (crc >>> 1) ^^^ polynomial else crc >>> 1

def shiftByte (crc : UInt32) : UInt32 :=
  shiftBit (shiftBit (shiftBit (shiftBit (shiftBit (shiftBit (shiftBit (shiftBit crc)))))))

def feed (crc : UInt32) (b : UInt8) : UInt32 := shiftByte (crc ^^^ b.toUInt32)

def crc32 (bytes : List UInt8) : UInt32 := bytes.foldl feed 0xFFFFFFFF ^^^ 0xFFFFFFFF

/-- The checksum of a block, read without listing it. -/
def ofBlock (block : ByteArray) : UInt32 := block.data.foldl feed 0xFFFFFFFF ^^^ 0xFFFFFFFF

theorem ofBlock_eq (block : ByteArray) : ofBlock block = crc32 block.data.toList := by
  simp [ofBlock, crc32]

end RefStore.Checksum
