import RefStore.Checksum
import RefStore.Fields
import RefStore.Storage.Error

/-!
# Log records

A record of an operation is its length, its kind, the operation's id, what it says, and the CRC-32
of all that. A list of records is read back as far as whole records with the right checksum go;
what follows is a torn tail. Main statement: `decode_bounds`, a decoded record takes at least 17
of the bytes given and at most all of them.
-/

namespace RefStore

structure LogRange where
  offset : UInt32
  bytes : List UInt8
  deriving DecidableEq, Repr

inductive LogPayload where
  | fileCreated (file : FileId) (name : String)
  | pageUpdate (file : FileId) (index : PageIndex) (ranges : List LogRange)
  | fileDeleted (file : FileId)
  | commit
  deriving DecidableEq, Repr

structure LogRecord where
  operation : OperationId
  payload : LogPayload
  deriving DecidableEq, Repr

inductive LogKind where
  | fileCreated | pageUpdate | fileDeleted | commit
  deriving DecidableEq, Repr

namespace LogKind

def code : LogKind → UInt8
  | fileCreated => 1
  | pageUpdate => 2
  | fileDeleted => 3
  | commit => 4

def ofCode? (b : UInt8) : Option LogKind :=
  if b = 1 then some fileCreated
  else if b = 2 then some pageUpdate
  else if b = 3 then some fileDeleted
  else if b = 4 then some commit
  else none

end LogKind

namespace LogPayload

def kind : LogPayload → LogKind
  | fileCreated .. => .fileCreated
  | pageUpdate .. => .pageUpdate
  | fileDeleted .. => .fileDeleted
  | commit => .commit

def rangeBytes (r : LogRange) : List UInt8 :=
  Word.bytes r.offset ++ Word.bytes (UInt32.ofNat r.bytes.length) ++ r.bytes

def bytes : LogPayload → List UInt8
  | fileCreated file name =>
    let text := Fields.ofText name
    Word.bytes file ++ Word.bytes (UInt16.ofNat text.length) ++ text
  | pageUpdate file index ranges =>
    Word.bytes file ++ Word.bytes index ++ Word.bytes (UInt32.ofNat ranges.length) ++
      ranges.flatMap rangeBytes
  | fileDeleted file => Word.bytes file
  | commit => []

def ranges? : Nat → List UInt8 → Option (List LogRange × List UInt8)
  | 0, bs => some ([], bs)
  | n + 1, bs => do
    let (offset, bs) ← Fields.word? UInt32 bs
    let (length, bs) ← Fields.word? UInt32 bs
    let (bytes, bs) ← Fields.take? length.toNat bs
    let (more, bs) ← ranges? n bs
    return (⟨offset, bytes⟩ :: more, bs)

def read? (kind : LogKind) (bs : List UInt8) : Option (LogPayload × List UInt8) :=
  match kind with
  | .fileCreated => do
    let (file, bs) ← Fields.word? FileId bs
    let (length, bs) ← Fields.word? UInt16 bs
    let (name, bs) ← Fields.text? length.toNat bs
    return (.fileCreated file name, bs)
  | .pageUpdate => do
    let (file, bs) ← Fields.word? FileId bs
    let (index, bs) ← Fields.word? PageIndex bs
    let (count, bs) ← Fields.word? UInt32 bs
    let (ranges, bs) ← ranges? count.toNat bs
    return (.pageUpdate file index ranges, bs)
  | .fileDeleted => do
    let (file, bs) ← Fields.word? FileId bs
    return (.fileDeleted file, bs)
  | .commit => some (.commit, bs)

/-- A payload takes all of its bytes. -/
def ofBytes? (kind : LogKind) (bs : List UInt8) : Option LogPayload :=
  match read? kind bs with
  | some (payload, []) => some payload
  | _ => none

end LogPayload

namespace LogRecord

/-- Length, kind and operation id. -/
def headerSize : Nat := 13

def checksumSize : Nat := 4

def body (r : LogRecord) : List UInt8 :=
  let payload := r.payload.bytes
  Word.bytes (UInt32.ofNat (headerSize + payload.length + checksumSize)) ++
    r.payload.kind.code :: Word.bytes r.operation ++ payload

def encode (r : LogRecord) : List UInt8 := r.body ++ Word.bytes (Checksum.crc32 r.body)

/-- The record at the front of a list of bytes, and the number of bytes it takes. -/
def decode (bs : List UInt8) : Except LogError (LogRecord × Nat) :=
  let length := (Word.ofBytes (bs.take 4) : UInt32).toNat
  if length < headerSize + checksumSize ∨ bs.length < length then .error .corruptRecord
  else
    let body := bs.take (length - checksumSize)
    let expected : UInt32 := Word.ofBytes ((bs.drop (length - checksumSize)).take checksumSize)
    let actual := Checksum.crc32 body
    if expected ≠ actual then .error (.checksumMismatch expected actual)
    else
      let code := (body.drop 4).headD 0
      match LogKind.ofCode? code with
      | none => .error (.invalidRecordKind code)
      | some kind =>
        match LogPayload.ofBytes? kind (body.drop headerSize) with
        | none => .error .corruptRecord
        | some payload => .ok (⟨Word.ofBytes ((body.drop 5).take 8), payload⟩, length)

theorem decode_bounds {bs : List UInt8} {r : LogRecord} {n : Nat} (h : decode bs = .ok (r, n)) :
    headerSize + checksumSize ≤ n ∧ n ≤ bs.length := by
  simp only [decode] at h
  split at h
  · simp at h
  · rename_i hb
    split at h
    · simp at h
    · split at h
      · simp at h
      · split at h
        · simp at h
        · simp only [Except.ok.injEq, Prod.mk.injEq] at h
          omega

end LogRecord

structure LogScan where
  records : List LogRecord
  torn : Bool
  deriving DecidableEq, Repr

def LogScan.ofBytes (bs : List UInt8) : LogScan :=
  if bs = [] then ⟨[], false⟩
  else
    match _h : LogRecord.decode bs with
    | .error _ => ⟨[], true⟩
    | .ok (r, n) =>
      let more := ofBytes (bs.drop n)
      ⟨r :: more.records, more.torn⟩
termination_by bs.length
decreasing_by
  have hb := LogRecord.decode_bounds _h
  simp only [LogRecord.headerSize, LogRecord.checksumSize] at hb
  simp only [List.length_drop]
  omega

end RefStore
