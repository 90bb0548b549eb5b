import RefStore.Log
import RefStore.Storage.Volume

/-!
# Recovery

What a log says about operations that were under way when the store stopped. Operations with a
commit record are carried out again, in the order of their commits; all others are dropped. Doing
over what was already done leaves the same files and pages.
-/

namespace RefStore

structure RecoveryReport where
  scanned : Nat
  replayed : Nat
  discarded : Nat
  restored : Nat
  torn : Bool
  deriving DecidableEq, Repr

namespace RecoveryReport

/-- Whether the log held anything. -/
def isNeeded (r : RecoveryReport) : Bool := r.scanned ≠ 0 || r.torn

def text (r : RecoveryReport) : String :=
  s!"WAL recovery complete records_scanned={r.scanned} operations_replayed={r.replayed} " ++
    s!"operations_discarded={r.discarded} pages_restored={r.restored} torn_tail={r.torn}"

end RecoveryReport

namespace Recovery

/-- The operations with a commit record, by their first one. -/
def committed (records : List LogRecord) : List OperationId :=
  ((records.filter fun r => r.payload = .commit).map LogRecord.operation).eraseDups

def discarded (records : List LogRecord) : List OperationId :=
  (records.map LogRecord.operation).eraseDups.filter fun id => !(committed records).contains id

/-- What an operation logged, before its commit record or after it. -/
def payloads (records : List LogRecord) (id : OperationId) : List LogPayload :=
  (records.filter fun r => r.operation = id ∧ r.payload ≠ .commit).map LogRecord.payload

def layRange (page : Page) (r : LogRange) : Checked StorageError Page :=
  let offset := r.offset.toNat
  let length := r.bytes.length
  if offset + length ≤ page.size then page.write ⟨offset, r.bytes⟩
  else
    let size := page.size
    refuse (.corruption s!"log range {offset}+{length} exceeds page size {size}")

/-- Carry out what a record says, and count the pages written. A page of a file that is gone was
deleted by a later operation. -/
def redo : LogPayload → Task Mounted StorageError Nat
  | .fileCreated file name => do
    match (← Task.state).volume.idOf? name with
    | none => Mounted.createWithId file name
    | some present =>
      if present ≠ file then
        refuse (.corruption s!"log creates {name} as file {file}, registry has file {present}")
    return 0
  | .pageUpdate file index ranges => do
    if !(← Task.state).volume.files.contains file then return 0
    let page ← Mounted.loadUnverified file index
    let page ← Task.ofChecked (ranges.foldlM layRange page)
    Mounted.installPage file index page
    return 1
  | .fileDeleted file => do
    if (← Task.state).volume.files.contains file then Mounted.delete file
    return 0
  | .commit => return 0

def redoAll (payloads : List LogPayload) : Task Mounted StorageError Nat :=
  payloads.foldlM (fun count payload => return count + (← redo payload)) 0

def run (log : Log) : Task Mounted StorageError RecoveryReport := do
  let scan ← (log.scan : Task Disk LogError LogScan)
  if scan.records = [] then
    if scan.torn then log.truncate
    return ⟨0, 0, 0, 0, scan.torn⟩
  let ids := committed scan.records
  let restored ← redoAll (ids.flatMap (payloads scan.records))
  Mounted.syncAll
  log.truncate
  return ⟨scan.records.length, ids.length, (discarded scan.records).length, restored, scan.torn⟩

end Recovery

end RefStore
