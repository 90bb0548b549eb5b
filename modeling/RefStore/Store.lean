import RefStore.Collection.Basic
import RefStore.Settings

/-!
# Opening and closing a store
-/

namespace RefStore

inductive StoreError where
  | settings (cause : SettingsError)
  | storage (cause : StorageError)
  | collection (cause : CollectionError)
  deriving DecidableEq, Repr

namespace StoreError

def message : StoreError → String
  | settings cause => "configuration error: " ++ cause.message
  | storage cause => "storage error: " ++ cause.message
  | collection cause => "collection error: " ++ cause.message

def causes : StoreError → List String
  | settings cause => [cause.message]
  | storage cause => cause.message :: cause.causes
  | collection cause => cause.message :: cause.causes

end StoreError

namespace Store

/-- Mount a directory and recover what its log holds. No cluster is registered. -/
def mount (directory : Path) (pageSize poolPages : Nat) (syncs : Bool) (disk : Disk) :
    Checked StorageError (Store × RecoveryReport) × Disk :=
  match (Volume.mount directory pageSize poolPages).start disk with
  | (.error cause, disk) => (.error cause, disk)
  | (.ok volume, disk) =>
    match (Journal.open syncs).start ⟨disk, volume⟩ with
    | (.error cause, mounted) => (.error cause, mounted.disk)
    | (.ok (journal, report), mounted) => (.ok (⟨⟨mounted, journal⟩, .empty⟩, report), mounted.disk)

def disk (s : Store) : Disk := s.engine.mounted.disk

/-- A store with its clusters loaded, and what was recovered. -/
def «open» (settings : Settings) (directory : Path) (disk : Disk) :
    Checked StoreError (Store × RecoveryReport) × Disk :=
  match settings.validate with
  | .error cause => (refuse (.settings cause), disk)
  | .ok () =>
    match mount directory settings.pageSize settings.poolPages settings.syncOnCommit disk with
    | (.error cause, disk) => (.error (cause.map .storage), disk)
    | (.ok (s, report), _) =>
      match loadExisting.start s with
      | (.error cause, s) => (.error (cause.map .collection), s.disk)
      | (.ok _, s) => (.ok (s, report), s.disk)

/-- Force everything to the disk and forget what is in memory. -/
def close : Task Store StoreError Unit := do
  Task.change fun s => { s with registry := s.registry.close }
  let flushed : Task Store StorageError Unit := Mounted.close
  flushed.mapError .storage

end Store

end RefStore
