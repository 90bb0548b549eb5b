import RefStore.Key
import RefStore.Sizes.Slots
import RefStore.Uuid
import Std.Data.TreeMap

/-!
# Pointers to collections

A record holds a pointer to its collection. A collection whose owner is not stored yet goes by a
temporary id, and a session keeps the pointers given to such collections.
-/

namespace RefStore

structure CollectionPointer where
  file : FileId
  cluster : Int32
  collection : CollectionId
  slot : SlotId
  deriving DecidableEq, Repr

namespace CollectionPointer

def invalid : CollectionPointer := ⟨.none, -1, -1, 4294967295⟩

def isValid (p : CollectionPointer) : Bool := p.file ≠ .none

def text (p : CollectionPointer) : String :=
  "collection " ++ toString p.collection ++ " in cluster " ++ toString p.cluster ++
    " (file " ++ toString p.file ++ ", slot " ++ toString p.slot ++ ")"

end CollectionPointer

structure CollectionRef where
  temporaryId : Option Uuid
  pointer : Option CollectionPointer
  deriving DecidableEq, Repr

namespace CollectionRef

def durable (p : CollectionPointer) : CollectionRef := ⟨none, some p⟩

def transient (id : Uuid) (p : CollectionPointer) : CollectionRef := ⟨some id, some p⟩

end CollectionRef

/-- The pointers given to collections with temporary ids since the last commit. -/
structure Session where
  changes : Std.TreeMap Uuid CollectionPointer

namespace Session

def empty : Session := ⟨∅⟩

/-- A pointer that is not valid is not kept. -/
def record (s : Session) (owner : Option Uuid) (pointer : Option CollectionPointer) : Session :=
  match owner, pointer with
  | some id, some p => if p.isValid then { s with changes := s.changes.insert id p } else s
  | _, _ => s

def listen (s : Session) (r : CollectionRef) : Session := s.record r.temporaryId r.pointer

def clear (_ : Session) : Session := empty

def commit (s : Session) : Session := s.clear

end Session

end RefStore
