import RefStore.Page.Header
import RefStore.Storage.Error

/-!
# Pages of a size map

Counters stand in bucket pages, one slot each. The first page of a size map says how many buckets
there are. Each function here works on the page as it is, and says what it answers and what it
writes.
-/

namespace RefStore

abbrev SlotId := UInt32

/-- States of a slot that a caller did not expect. -/
inductive SlotFault where
  | deleted | empty | alreadyDeleted | unknown | overflow
  deriving DecidableEq, Repr

inductive SizesError where
  | storage (cause : StorageError)
  | page (cause : PageError)
  | slot (kind : SlotFault) (id : SlotId)
  | exhausted
  | notLoaded (file : String)
  | corrupt (reason : String)
  deriving DecidableEq, Repr

namespace SizesError

def message : SizesError → String
  | storage cause => "storage error: " ++ cause.message
  | page cause => "page error: " ++ cause.message
  | slot .deleted id => s!"slot {id} is deleted"
  | slot .empty id => s!"slot {id} has no items to decrement"
  | slot .alreadyDeleted id => s!"slot {id} is already deleted"
  | slot .unknown id => s!"slot {id} was never allocated"
  | slot .overflow id => s!"slot {id} counter overflow"
  | exhausted => "no slot ids left"
  | notLoaded file => s!"size map {file} is not loaded"
  | corrupt reason => s!"corrupt size map: {reason}"

def causes : SizesError → List String
  | storage cause => cause.message :: cause.causes
  | page cause => [cause.message]
  | _ => []

def inComponent (name operation : String) : SizesError → SizesError
  | .storage cause => .storage (cause.inComponent name operation)
  | cause => cause

/-- The error with the id of a slot that the caller knows. -/
def withSlot (id : SlotId) : SizesError → SizesError
  | .slot kind _ => .slot kind id
  | cause => cause

def isSlotError : SizesError → Bool
  | .slot .. => true
  | _ => false

end SizesError

instance : Within StorageError SizesError := ⟨.storage⟩

namespace EntryPoint

def format : List Write := [PageHeader.fresh .sizeEntryPoint, .word 8 (0 : Int32)]

/-- The number of buckets. -/
def count (page : Page) : Checked SizesError Nat := do
  (PageHeader.expect page .sizeEntryPoint).mapError .page
  let n : Int32 ← page.word Int32 8
  if n < 0 then refuse (.corrupt s!"negative bucket count {n}")
  return n.toInt.toNat

def setCount (n : Nat) (page : Page) : Checked SizesError (Unit × List Write) := do
  (PageHeader.expect page .sizeEntryPoint).mapError .page
  if Int32.maxValue.toInt < n then refuse .exhausted
  return ((), [.word 8 (Int32.ofNat n)])

end EntryPoint

/-- A deleted slot holds -1 and is not handed out again. -/
def deletedMark : Int32 := -1

namespace Bucket

def format : List Write := [PageHeader.fresh .sizeBucket, .word 8 (0 : Int32)]

/-- Slots of 4 bytes, after the header and the number of slots in use. -/
def capacity (pageSize : Nat) : Nat := (pageSize - 12) / 4 % 0x100000000

def slotOffset (slot : Nat) : Nat := 12 + 4 * slot

/-- The number of slots handed out. -/
def size (page : Page) : Checked SizesError Nat := do
  (PageHeader.expect page .sizeBucket).mapError .page
  let n : Int32 ← page.word Int32 8
  if n < 0 ∨ (capacity page.size : Int) < n.toInt then refuse (.corrupt s!"invalid bucket size {n}")
  return n.toInt.toNat

def value (page : Page) (slot : SlotId) : Checked SizesError Int32 := do
  if (← size page) ≤ slot.toNat then refuse (.slot .unknown slot)
  page.word Int32 (slotOffset slot.toNat)

/-- The count in a slot that is in use. -/
def count (slot : SlotId) (page : Page) : Checked SizesError Int32 := do
  let n ← value page slot
  if n < 0 then refuse (.slot .deleted slot)
  return n

def setValue (slot : SlotId) (n : Int32) : Write := .word (slotOffset slot.toNat) n

/-- The next slot, with count zero, or none if the bucket is full. -/
def add (page : Page) : Checked SizesError (Option SlotId × List Write) := do
  let n ← size page
  if capacity page.size ≤ n then return (none, [])
  let slot := UInt32.ofNat n
  return (some slot, [setValue slot 0, .word 8 (Int32.ofNat (n + 1))])

def increment (slot : SlotId) (page : Page) : Checked SizesError (Int32 × List Write) := do
  let n ← count slot page
  if n = Int32.maxValue then refuse (.slot .overflow slot)
  return (n + 1, [setValue slot (n + 1)])

def decrement (slot : SlotId) (page : Page) : Checked SizesError (Int32 × List Write) := do
  let n ← count slot page
  if n = 0 then refuse (.slot .empty slot)
  return (n - 1, [setValue slot (n - 1)])

def delete (slot : SlotId) (page : Page) : Checked SizesError (Unit × List Write) := do
  let n ← value page slot
  if n < 0 then refuse (.slot .alreadyDeleted slot)
  return ((), [setValue slot deletedMark])

end Bucket

end RefStore
