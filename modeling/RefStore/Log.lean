import RefStore.Log.Record

/-!
# The log file

Records are appended at the end of the log and forced to the disk if commits are synced.
-/

namespace RefStore

structure Log where
  node : Nat
  syncs : Bool

namespace Log

def fileName : String := "ridbag.wal"

def «open» (path : Path) (syncs : Bool) : Task Disk LogError Log := do
  return ⟨← Disk.openOrCreate path, syncs⟩

def endOffset (log : Log) : Task Disk LogError Nat := Disk.length log.node

def append (log : Log) (records : List LogRecord) : Task Disk LogError Unit := do
  Disk.writeAt log.node (← log.endOffset) (Block.ofList (records.flatMap LogRecord.encode))

def sync (log : Log) : Task Disk LogError Unit :=
  if log.syncs then Disk.sync log.node else pure ()

def scan (log : Log) : Task Disk LogError LogScan := do
  return LogScan.ofBytes (Block.toList (← Disk.readAll log.node))

/-- The log without what was appended after `offset`. -/
def truncateTo (log : Log) (offset : Nat) : Task Disk LogError Unit := do
  Disk.setLength log.node offset
  log.sync

def truncate (log : Log) : Task Disk LogError Unit := log.truncateTo 0

end Log

end RefStore
