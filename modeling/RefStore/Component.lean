import RefStore.Storage.Error

/-!
# Components

A component keeps its pages in one file, named after it. A component is attached to that file when
the file was created or found.
-/

namespace RefStore

structure Component where
  name : String
  extension : String
  file : FileId
  deriving DecidableEq, Repr

namespace Component

def detached (name extension : String) : Component := ⟨name, extension, .none⟩

def fileName (c : Component) : String := c.name ++ c.extension

def isAttached (c : Component) : Bool := c.file ≠ .none

end Component

end RefStore
