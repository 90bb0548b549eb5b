import RefStore.Console

/-!
# Reports of errors

All errors are reported alike: what kind of error it is, from the outer layer to the inner one, its
message, and the messages of the errors inside it.
-/

namespace RefStore

namespace SlotFault

def kind : SlotFault → String
  | deleted => "DeletedSlot"
  | empty => "EmptyCounter"
  | alreadyDeleted => "AlreadyDeleted"
  | unknown => "UnknownSlot"
  | overflow => "CounterOverflow"

def ofKind? (name : String) : Option SlotFault :=
  [deleted, empty, alreadyDeleted, unknown, overflow].find? (·.kind = name)

end SlotFault

class Reportable (ε : Type) where
  kinds : ε → List String
  message : ε → String
  causes : ε → List String := fun _ => []

namespace Reportable

variable {ε : Type} [Reportable ε]

def kind (e : ε) : String := "/".intercalate (kinds e)

/-- The wording of a failed call of the operating system is its own and not reported. -/
def message? (e : ε) : Option String := if (kinds e).contains "Io" then none else some (message e)

instance : Reportable PageError where
  message := PageError.message
  kinds
    | .invalidKind _ => ["InvalidPageType"]
    | .wrongKind .. => ["WrongPageType"]
    | .checksumMismatch .. => ["ChecksumMismatch"]

instance : Reportable KeyError where
  message := KeyError.message
  kinds _ := ["BufferTooSmall"]

instance : Reportable NodeError where
  message := NodeError.message
  causes := NodeError.causes
  kinds
    | .invalidHeader => ["InvalidHeader"]
    | .wrongKind => ["WrongNodeType"]
    | .full => ["NodeFull"]
    | .page cause => "Page" :: kinds cause
    | .key cause => "Key" :: kinds cause

instance : Reportable LogError where
  message := LogError.message
  causes := LogError.causes
  kinds
    | .io _ => ["Io"]
    | .corruptRecord => ["CorruptRecord"]
    | .invalidRecordKind _ => ["InvalidRecordType"]
    | .checksumMismatch .. => ["ChecksumMismatch"]

instance : Reportable FileError where
  message := FileError.message
  kinds
    | .io _ => ["Io"]
    | .alreadyExists _ => ["AlreadyExists"]
    | .pageOutOfBounds .. => ["PageOutOfBounds"]
    | .sizeMismatch .. => ["SizeMismatch"]

def storageKinds : StorageError → List String
  | .io _ => ["Io"]
  | .page cause => "Page" :: kinds cause
  | .pageOutOfBounds .. => ["PageOutOfBounds"]
  | .unknownFile _ => ["UnknownFile"]
  | .fileNotFound _ => ["FileNotFound"]
  | .fileExists _ => ["FileExists"]
  | .log cause => "Wal" :: kinds cause
  | .corruption _ => ["Corruption"]
  | .lockPoisoned => ["LockPoisoned"]
  | .recoveryRequired => ["RecoveryRequired"]
  | .component _ _ cause => "Component" :: storageKinds cause

instance : Reportable StorageError := ⟨storageKinds, StorageError.message, StorageError.causes⟩

instance : Reportable TreeError where
  message := TreeError.message
  causes := TreeError.causes
  kinds
    | .storage cause => "Storage" :: kinds cause
    | .node cause => "Node" :: kinds cause
    | .notLoaded _ => ["NotLoaded"]
    | .corrupt _ => ["Corrupt"]

instance : Reportable SizesError where
  message := SizesError.message
  causes := SizesError.causes
  kinds
    | .storage cause => "Storage" :: kinds cause
    | .page cause => "Page" :: kinds cause
    | .slot fault _ => [fault.kind]
    | .exhausted => ["SlotSpaceExhausted"]
    | .notLoaded _ => ["NotLoaded"]
    | .corrupt _ => ["Corrupt"]

instance : Reportable CollectionError where
  message := CollectionError.message
  causes := CollectionError.causes
  kinds
    | .accessProhibited => ["AccessProhibited"]
    | .alreadyExists _ => ["AlreadyExists"]
    | .corruptState _ => ["CorruptState"]
    | .storage cause => "Storage" :: kinds cause
    | .tree cause => "Tree" :: kinds cause
    | .sizes cause => "SizeMap" :: kinds cause
    | .lockPoisoned => ["LockPoisoned"]

instance : Reportable SettingsError where
  message := SettingsError.message
  kinds _ := ["InvalidValue"]

instance : Reportable StoreError where
  message := StoreError.message
  causes := StoreError.causes
  kinds
    | .settings cause => "Config" :: kinds cause
    | .storage cause => "Storage" :: kinds cause
    | .collection cause => "Collection" :: kinds cause

instance {ε : Type} [Reportable ε] : Reportable (Failure ε) where
  kinds
    | .error cause => kinds cause
    | .fault _ => ["panic"]
  message
    | .error cause => message cause
    | .fault _ => "a use outside the contract"
  causes
    | .error cause => causes cause
    | .fault _ => []

end Reportable

end RefStore
