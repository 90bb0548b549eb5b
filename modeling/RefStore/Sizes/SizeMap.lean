import RefStore.Component
import RefStore.Sizes.Slots
import RefStore.Storage.Transaction

/-!
# Size maps

A size map is a file of counters with ids. Id `n` is slot `n % c` of bucket `n / c + 1`, where `c`
is the number of slots in a bucket. New slots go into the last bucket, or into a new one.
-/

namespace RefStore

structure SizeMap where
  component : Component
  deriving DecidableEq, Repr

namespace SizeMap

variable {α : Type}

def extension : String := ".grs"

def named (name : String) : SizeMap := ⟨.detached name extension⟩

def name (m : SizeMap) : String := m.component.name

def fileName (m : SizeMap) : String := m.component.fileName

def attached (m : SizeMap) (file : FileId) : SizeMap := ⟨{ m.component with file }⟩

def file (m : SizeMap) : Task Transaction SizesError FileId :=
  if m.component.isAttached then pure m.component.file else refuse (.notLoaded m.fileName)

/-- Run part of an operation on a size map, and name the two in storage errors. -/
def during (m : SizeMap) (operation : String) (t : Task Transaction SizesError α) :
    Task Transaction SizesError α :=
  t.mapError (SizesError.inComponent m.fileName operation)

def buckets (file : FileId) : Task Transaction SizesError Nat := do
  let page ← Transaction.loadPage file 0
  Task.ofChecked (EntryPoint.count page)

def slotsPerBucket : Task Transaction SizesError Nat := do
  return Bucket.capacity (← Transaction.pageSize)

/-- The page and the slot in it for an id. -/
def locate (file : FileId) (id : SlotId) : Task Transaction SizesError (PageIndex × SlotId) := do
  let capacity ← slotsPerBucket
  if capacity = 0 then halt .zeroPageSize
  let bucket := id.toNat / capacity + 1
  if (← buckets file) < bucket then refuse (.slot .unknown id)
  return (UInt64.ofNat bucket, UInt32.ofNat (id.toNat % capacity))

/-- The id of a slot, if it fits 32 bits. -/
def globalId (slot : SlotId) (bucket capacity : Nat) : Checked SizesError SlotId :=
  let id := (bucket - 1) * capacity + slot.toNat
  if id < UInt32.size then .ok (UInt32.ofNat id) else refuse .exhausted

/-- A new bucket after `count` others. -/
def appendBucket (file : FileId) (count : Nat) : Task Transaction SizesError Nat := do
  let bucket := count + 1
  let index ← Transaction.addPage file
  if index.toNat ≠ bucket then refuse (.corrupt s!"bucket {bucket} landed on page {index}")
  Transaction.writePage file index Bucket.format
  Transaction.edit file 0 (EntryPoint.setCount bucket)
  return bucket

def addTo (file : FileId) (bucket : Nat) : Task Transaction SizesError (Option SlotId) :=
  Transaction.edit file (UInt64.ofNat bucket) Bucket.add

def allocate (file : FileId) : Task Transaction SizesError SlotId := do
  let capacity ← slotsPerBucket
  let count ← buckets file
  let last ← if count = 0 then appendBucket file 0 else pure count
  match ← addTo file last with
  | some slot => Task.ofChecked (globalId slot last capacity)
  | none =>
    let added ← appendBucket file last
    match ← addTo file added with
    | some slot => Task.ofChecked (globalId slot added capacity)
    | none => halt .endless

def create (m : SizeMap) : Task Transaction SizesError SizeMap :=
  m.during "create" do
    let file ← Transaction.addFile m.fileName
    let first ← Transaction.addPage file
    Transaction.writePage file first EntryPoint.format
    return m.attached file

/-- The size map attached to its committed file, if there is one. -/
def load? (m : SizeMap) (volume : Volume) : Option SizeMap :=
  (volume.idOf? m.fileName).map m.attached

def delete (m : SizeMap) : Task Transaction SizesError Unit := do
  let file ← m.file
  m.during "delete" (Transaction.deleteFile file)

/-- A new slot with count zero. -/
def add (m : SizeMap) : Task Transaction SizesError SlotId := do
  let file ← m.file
  m.during "add_tree" (allocate file)

/-- Change the bucket of a slot. An error about the slot is given its id in the map. -/
def onSlot (file : FileId) (id : SlotId)
    (f : SlotId → Page → Checked SizesError (α × List Write)) : Task Transaction SizesError α := do
  let (index, slot) ← locate file id
  Transaction.edit file index fun page => (f slot page).mapError (SizesError.withSlot id)

def increment (m : SizeMap) (id : SlotId) : Task Transaction SizesError Int32 := do
  let file ← m.file
  m.during "increment_size" (onSlot file id Bucket.increment)

def decrement (m : SizeMap) (id : SlotId) : Task Transaction SizesError Int32 := do
  let file ← m.file
  m.during "decrement_size" (onSlot file id Bucket.decrement)

def remove (m : SizeMap) (id : SlotId) : Task Transaction SizesError Unit := do
  let file ← m.file
  m.during "remove" (onSlot file id Bucket.delete)

def count (m : SizeMap) (id : SlotId) : Task Transaction SizesError Int32 := do
  let file ← m.file
  let (index, slot) ← locate file id
  let page ← Transaction.loadPage file index
  Task.ofChecked ((Bucket.count slot page).mapError (SizesError.withSlot id))

def bucketCount (m : SizeMap) : Task Transaction SizesError Nat := do
  buckets (← m.file)

end SizeMap

end RefStore
