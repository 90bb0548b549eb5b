import RefStore.Sizes.SizeMap
import RefStore.Tree.Basic

/-!
# Collection errors
-/

namespace RefStore

inductive CollectionError where
  | accessProhibited
  | alreadyExists (what : String)
  | corruptState (reason : String)
  | storage (cause : StorageError)
  | tree (cause : TreeError)
  | sizes (cause : SizesError)
  | lockPoisoned
  deriving DecidableEq, Repr

namespace CollectionError

def message : CollectionError → String
  | accessProhibited =>
    "access to tree-based collections is prohibited; the database is probably running in a " ++
      "distributed configuration, where collections must stay embedded"
  | alreadyExists what => s!"already exists: {what}"
  | corruptState reason => s!"corrupt state: {reason}"
  | storage cause => "storage error: " ++ cause.message
  | tree cause => "tree error: " ++ cause.message
  | sizes cause => "size map error: " ++ cause.message
  | lockPoisoned => "collection manager lock poisoned"

def causes : CollectionError → List String
  | storage cause => cause.message :: cause.causes
  | tree cause => cause.message :: cause.causes
  | sizes cause => cause.message :: cause.causes
  | _ => []

/-- Errors that come from a mistake or from damaged files. -/
def isCorruptState : CollectionError → Bool
  | corruptState _ => true
  | sizes cause => cause.isSlotError
  | _ => false

end CollectionError

instance : Within StorageError CollectionError := ⟨.storage⟩

end RefStore
