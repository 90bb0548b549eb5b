import RefStore.Block
import RefStore.Failure
import RefStore.Words

/-!
# Pages

A page is a block of a fixed size that is read and written at offsets. Reading or writing past its
end is a fault.
-/

namespace RefStore

/-- Bytes to lay over a page from `offset` on. -/
structure Write where
  offset : Nat
  bytes : List UInt8
  deriving DecidableEq, Repr

structure Page where
  bytes : ByteArray

abbrev PageIndex := UInt64

namespace Page

variable {ε : Type}

def size (page : Page) : Nat := page.bytes.size

def zero (size : Nat) : Page := ⟨Block.zeros size⟩

def toList (page : Page) : List UInt8 := Block.toList page.bytes

@[simp] theorem size_zero (n : Nat) : (zero n).size = n := by simp [zero, size]

def slice (page : Page) (offset length : Nat) : Checked ε ByteArray :=
  if offset + length ≤ page.size then .ok (page.bytes.extract offset (offset + length))
  else halt .outsidePage

def word (α : Type) [Word α] (page : Page) (offset : Nat) : Checked ε α := do
  let block ← page.slice offset (Word.width α)
  return Word.ofBytes (Block.toList block)

def write (page : Page) (w : Write) : Checked ε Page :=
  if w.offset + w.bytes.length ≤ page.size then
    .ok ⟨Block.splice page.bytes w.offset (Block.ofList w.bytes)⟩
  else halt .outsidePage

def writeAll (page : Page) (ws : List Write) : Checked ε Page := ws.foldlM write page

end Page

/-- A word at an offset, as a write. -/
def Write.word {α : Type} [Word α] (offset : Nat) (value : α) : Write := ⟨offset, Word.bytes value⟩

/-- What holds bytes that are read at offsets: a buffer, a page, or changes over a page. -/
class Readable (π : Type) where
  size : π → Nat
  slice {ε : Type} : π → Nat → Nat → Checked ε ByteArray

class Writable (π : Type) extends Readable π where
  write {ε : Type} : π → Write → Checked ε π

instance : Writable Page where
  size := Page.size
  slice := Page.slice
  write := Page.write

instance : Writable ByteArray where
  size := ByteArray.size
  slice buffer := Page.slice ⟨buffer⟩
  write buffer w := Page.bytes <$> Page.write ⟨buffer⟩ w

/-- Make one write. -/
def Writable.put {π ε : Type} [Writable π] (w : Write) : Task π ε Unit := do
  let written ← Task.ofChecked (write (← Task.state) w)
  Task.change fun _ => written

end RefStore
