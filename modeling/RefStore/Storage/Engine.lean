import RefStore.Storage.Recovery
import RefStore.Storage.Transaction

/-!
# Committing operations

An operation is committed by writing its records to the log, carrying it out on the volume and
emptying the log. If the log cannot be written, it is cut back and nothing has happened. If the
operation is in the log and cannot be carried out, the engine is broken: it starts no operation any
more, and the next opening carries the operation out.
-/

namespace RefStore

structure Journal where
  log : Log
  nextOperation : OperationId
  broken : Bool

/-- A mounted volume with its journal. -/
structure Engine where
  mounted : Mounted
  journal : Journal

instance : Part Mounted Engine where
  get := Engine.mounted
  put mounted e := { e with mounted }

/-- Open the log of the volume and recover what it holds. -/
def Journal.open (syncs : Bool) : Task Mounted StorageError (Journal × RecoveryReport) := do
  let path := (← Task.state).volume.directory.join Log.fileName
  let log ← (Log.open path syncs : Task Disk LogError Log)
  let report ← Recovery.run log
  return (⟨log, 1, false⟩, report)

/-- The files that an operation changes, in the order of their ids. -/
def Operation.touched (op : Operation) : List FileId :=
  (Std.TreeSet.ofList (op.drafts.keys ++ op.created.map Prod.fst)).toList

namespace Engine

def markBroken : Task Engine StorageError Unit :=
  Task.change fun e => { e with journal := { e.journal with broken := true } }

def checkUsable : Task Engine StorageError Unit := do
  if (← Task.state).journal.broken then refuse .recoveryRequired

def start : Task Engine StorageError Operation := do
  checkUsable
  let id := (← Task.state).journal.nextOperation
  Task.change fun e => { e with journal := { e.journal with nextOperation := id + 1 } }
  return .fresh id

/-- Append the records of an operation, or leave the log as it was. -/
def record (op : Operation) : Task Engine StorageError Unit := do
  let log := (← Task.state).journal.log
  let stop ← (log.endOffset : Task Disk LogError Nat)
  let written : Task Engine StorageError Unit := do
    log.append op.records
    log.sync
  if let .error cause ← written.attempt then
    let cut : Task Engine StorageError Unit := log.truncateTo stop
    if let .error _ ← cut.attempt then markBroken
    refuse cause

/-- Carry out an operation on the volume: deletions, then new files, then pages. -/
def install (op : Operation) (syncs : Bool) : Task Mounted StorageError Unit := do
  op.deleted.toList.forM Mounted.delete
  op.created.forM fun (file, name) => Mounted.createWithId file name
  op.changes.forM fun (file, index, d) => Mounted.installPage file index d.overlay.page
  if syncs then op.touched.forM Mounted.sync

def commit (op : Operation) : Task Engine StorageError Unit := do
  if op.isEmpty then return
  record op
  let log := (← Task.state).journal.log
  let installed : Task Engine StorageError Unit := install op log.syncs
  if let .error cause ← installed.attempt then
    markBroken
    refuse cause
  let emptied : Task Engine StorageError Unit := log.truncate
  if let .error _ ← emptied.attempt then markBroken

end Engine

end RefStore
