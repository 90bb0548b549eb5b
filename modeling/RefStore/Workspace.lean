import RefStore.Collection.Error
import RefStore.Collection.Registry
import RefStore.Storage.Engine

/-!
# Workspaces

A workspace is a store with an operation in flight. An atomic task runs in a workspace. If it
succeeds its operation is committed, and if either fails what it registered is taken back, the last
step first.
-/

namespace RefStore

structure Store where
  engine : Engine
  registry : Registry

structure Workspace where
  store : Store
  operation : Operation
  /-- The steps to take back, the last one first. -/
  undo : List Undo

instance : Part Engine Store where
  get := Store.engine
  put engine s := { s with engine }

instance : Part Store Workspace where
  get := Workspace.store
  put store w := { w with store }

instance : Part Transaction Workspace where
  get w := ⟨w.store.engine.mounted, w.operation⟩
  put t w :=
    { w with
      store := { w.store with engine := { w.store.engine with mounted := t.mounted } }
      operation := t.operation }

namespace Store

variable {α : Type}

def volume (s : Store) : Volume := s.engine.mounted.volume

def changeRegistry (f : Registry → Registry) : Task Store CollectionError Unit :=
  Task.change fun s => { s with registry := f s.registry }

end Store

namespace Workspace

variable {α : Type}

def onStorage (t : Task Transaction StorageError α) : Task Workspace CollectionError α :=
  Task.onPart (t.mapError .storage)

def onTree (t : Task Transaction TreeError α) : Task Workspace CollectionError α :=
  Task.onPart (t.mapError .tree)

def onSizes (t : Task Transaction SizesError α) : Task Workspace CollectionError α :=
  Task.onPart (t.mapError .sizes)

def onRollback (u : Undo) : Task Workspace CollectionError Unit :=
  Task.change fun w => { w with undo := u :: w.undo }

/-- The store without what the operation registered. -/
def rollback (w : Workspace) : Store :=
  { w.store with registry := w.undo.foldl Registry.undo w.store.registry }

/-- End an operation with the result of its task. -/
def finish (result : Checked CollectionError α) (w : Workspace) : Checked CollectionError α × Store :=
  match result with
  | .error cause => (.error cause, w.rollback)
  | .ok a =>
    match (Engine.commit w.operation).start w.store.engine with
    | (.ok (), engine) => (.ok a, { w.store with engine })
    | (.error cause, engine) =>
      (.error (cause.map .storage), { w with store := { w.store with engine } }.rollback)

end Workspace

namespace Store

variable {α : Type}

/-- Run a task in an operation of its own. -/
def atomically (t : Task Workspace CollectionError α) : Task Store CollectionError α := do
  let op ← (Engine.start : Task Engine StorageError Operation)
  Task.ofStep fun s =>
    let (result, w) := t.start ⟨s, op, []⟩
    w.finish result

/-- Run a task that reads what is committed. -/
def view (t : Task Workspace CollectionError α) : Task Store CollectionError α := do
  (Engine.checkUsable : Task Engine StorageError Unit)
  Task.ofStep fun s =>
    let (result, w) := t.start ⟨s, .none, []⟩
    (result, w.store)

end Store

end RefStore
