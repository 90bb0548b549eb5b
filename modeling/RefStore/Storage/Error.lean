import RefStore.Disk
import RefStore.Page.Header

/-!
# Storage errors

What can go wrong in the log, in a paged file and in the storage layer, with the wording of each.
-/

namespace RefStore

abbrev FileId := UInt32

abbrev OperationId := UInt64

/-- The id that names no file. -/
def FileId.none : FileId := 4294967295

inductive LogError where
  | io (cause : IoError)
  | corruptRecord
  | invalidRecordKind (code : UInt8)
  | checksumMismatch (expected actual : UInt32)
  deriving DecidableEq, Repr

def LogError.message : LogError → String
  | io cause => "WAL I/O error: " ++ cause.reason
  | corruptRecord => "corrupt WAL record"
  | invalidRecordKind code => "invalid WAL record type: 0x" ++ Hex.lower 2 code.toNat
  | checksumMismatch expected actual =>
    "WAL checksum mismatch: expected 0x" ++ Hex.lower 8 expected.toNat ++ ", got 0x" ++
      Hex.lower 8 actual.toNat

/-- The messages of the errors inside an error, the outer ones first. -/
def LogError.causes : LogError → List String
  | io cause => [cause.reason]
  | _ => []

inductive FileError where
  | io (cause : IoError)
  | alreadyExists (path : String)
  | pageOutOfBounds (index count : PageIndex)
  | sizeMismatch (expected actual : Nat)
  deriving DecidableEq, Repr

def FileError.message : FileError → String
  | io cause => "I/O error: " ++ cause.reason
  | alreadyExists path => s!"file already exists: {path}"
  | pageOutOfBounds index count => s!"page {index} out of bounds (total pages: {count})"
  | sizeMismatch expected actual => s!"page buffer is {actual} bytes, file uses {expected}"

inductive StorageError where
  | io (cause : IoError)
  | page (cause : PageError)
  | pageOutOfBounds (file : FileId) (index count : PageIndex)
  | unknownFile (file : FileId)
  | fileNotFound (name : String)
  | fileExists (name : String)
  | log (cause : LogError)
  | corruption (reason : String)
  | lockPoisoned
  | recoveryRequired
  /-- A failure inside a component, with the operation that was running. -/
  | component (name operation : String) (cause : StorageError)
  deriving DecidableEq, Repr

namespace StorageError

def message : StorageError → String
  | io cause => "I/O error: " ++ cause.reason
  | page cause => "page error: " ++ cause.message
  | pageOutOfBounds file index count =>
    s!"page {index} of file {file} out of bounds (total pages: {count})"
  | unknownFile file => s!"unknown file id: {file}"
  | fileNotFound name => s!"file not found: {name}"
  | fileExists name => s!"file already exists: {name}"
  | log cause => "WAL error: " ++ cause.message
  | corruption reason => s!"corruption: {reason}"
  | lockPoisoned => "lock poisoned"
  | recoveryRequired => "a committed operation was not applied; reopen to recover"
  | component name operation cause => s!"{name}: {operation} failed: " ++ cause.message

def causes : StorageError → List String
  | io cause => [cause.reason]
  | page cause => [cause.message]
  | log cause => cause.message :: cause.causes
  | component _ _ cause => cause.message :: cause.causes
  | _ => []

/-- An error names its component once. -/
def inComponent (name operation : String) : StorageError → StorageError
  | .component n o cause => .component n o cause
  | cause => .component name operation cause

/-- The error without its component. -/
def root : StorageError → StorageError
  | .component _ _ cause => cause.root
  | cause => cause

end StorageError

/-- In the storage layer a paged file fails as storage does, and its misuse is corruption. -/
def FileError.toStorage : FileError → StorageError
  | io cause => .io cause
  | alreadyExists path => .fileExists path
  | pageOutOfBounds index count => .corruption (pageOutOfBounds index count).message
  | sizeMismatch expected actual => .corruption (sizeMismatch expected actual).message

instance : Within IoError LogError := ⟨.io⟩
instance : Within IoError FileError := ⟨.io⟩
instance : Within IoError StorageError := ⟨.io⟩
instance : Within PageError StorageError := ⟨.page⟩
instance : Within LogError StorageError := ⟨.log⟩
instance : Within FileError StorageError := ⟨FileError.toStorage⟩

end RefStore
