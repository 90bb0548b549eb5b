import RefStore.Store

/-!
# Consoles

A console works on one disk with at most one store open at a time. It gives names to trees, size
maps, collections, pointers, sessions and paged files, and it runs each step in the operation in
flight, in an operation of its own, or on a view of what is committed.
-/

namespace RefStore

/-- How much of a store is open. -/
inductive Level where
  | operations | collections | all
  deriving DecidableEq, Repr

inductive Opened where
  | nothing (disk : Disk)
  | volume (mounted : Mounted)
  | store (level : Level) (store : Store)

inductive ConsoleError where
  | collection (cause : CollectionError)
  | store (cause : StoreError)
  | file (cause : FileError)
  | disk (cause : IoError)
  /-- The step names something that is not there. -/
  | missing
  deriving DecidableEq, Repr

structure Console where
  opened : Opened
  inFlight : Option (Operation × List Undo)
  trees : Std.TreeMap String Tree
  maps : Std.TreeMap String SizeMap
  handles : Std.TreeMap String Collection
  pointers : Std.TreeMap String CollectionPointer
  sessions : Std.TreeMap String Session
  files : Std.TreeMap String PagedFile

namespace Opened

def disk : Opened → Disk
  | nothing d => d
  | volume m => m.disk
  | store _ s => s.disk

def mounted? : Opened → Option Mounted
  | nothing _ => none
  | volume m => some m
  | store _ s => some s.engine.mounted

def store? : Opened → Option Store
  | store _ s => some s
  | _ => none

def withMounted (m : Mounted) : Opened → Opened
  | nothing _ => nothing m.disk
  | volume _ => volume m
  | store level s => store level { s with engine := { s.engine with mounted := m } }

def withDisk (disk : Disk) : Opened → Opened
  | nothing _ => nothing disk
  | o => (o.mounted?.map fun m => o.withMounted { m with disk }).getD o

def withStore (s : Store) : Opened → Opened
  | store level _ => store level s
  | o => o

def hasCollections : Opened → Bool
  | store level _ => level ≠ .operations
  | _ => false

end Opened

instance : Part Disk Console where
  get c := c.opened.disk
  put disk c := { c with opened := c.opened.withDisk disk }

abbrev Step (α : Type) := Task Console ConsoleError α

/-- What a step works on: the operation in flight, or what is committed. -/
inductive Access where
  | write | read | committed
  deriving DecidableEq, Repr

/-- How a step names a tree or a size map. -/
inductive Owner where
  | named (name : String)
  | handle (name : String)
  | cluster (id : ClusterId)
  deriving DecidableEq, Repr

namespace Console

variable {α β : Type}

def empty : Console := ⟨.nothing .empty, none, ∅, ∅, ∅, ∅, ∅, ∅⟩

def found (x : Option α) : Step α := x.elim (refuse .missing) pure

def onDisk (t : Task Disk IoError α) : Step α := Task.onPart (t.mapError .disk)

def onFile (t : Task Disk FileError α) : Step α := Task.onPart (t.mapError .file)

def onMounted (t : Task Mounted StorageError α) : Step α := do
  let c ← Task.state
  let m ← found c.opened.mounted?
  let (result, after) := t.start m
  Task.change fun c => { c with opened := c.opened.withMounted after }
  Task.ofChecked (result.mapError fun e => .collection (.storage e))

def volume : Step Volume := do
  return (← found (← Task.state).opened.mounted?).volume

def store : Step Store := do
  found (← Task.state).opened.store?

def onStore (t : Task Store CollectionError α) : Step α := do
  let (result, after) := t.start (← store)
  Task.change fun c => { c with opened := c.opened.withStore after }
  Task.ofChecked (result.mapError .collection)

def onWorkspace (t : Task Workspace CollectionError α) : Step α := do
  let s ← store
  let (op, undo) ← found (← Task.state).inFlight
  let (result, after) := t.start ⟨s, op, undo⟩
  Task.change fun c =>
    { c with
      opened := c.opened.withStore after.store
      inFlight := some (after.operation, after.undo) }
  Task.ofChecked (result.mapError .collection)

def onStorage (t : Task Transaction StorageError α) : Step α := onWorkspace (Workspace.onStorage t)

def onTree (t : Task Transaction TreeError α) : Step α := onWorkspace (Workspace.onTree t)

def onSizes (t : Task Transaction SizesError α) : Step α := onWorkspace (Workspace.onSizes t)

def needCollections : Step Unit := do
  if !(← Task.state).opened.hasCollections then refuse .missing

def isBroken : Step Bool := do return (← store).engine.journal.broken

/-! ## Operations -/

def setInFlight (op : Option (Operation × List Undo)) : Step Unit :=
  Task.change fun c => { c with inFlight := op }

def start : Step Unit := do
  let op ← onStore (Task.onPart (Engine.start.mapError .storage))
  setInFlight (some (op, []))

/-- Commit the operation in flight, or give it up if its steps failed. -/
def finish (result : Except ConsoleError α) : Step α := do
  let s ← store
  let (op, undo) ← found (← Task.state).inFlight
  let w : Workspace := ⟨s, op, undo⟩
  let (outcome, after) : Checked ConsoleError α × Store :=
    match result with
    | .error cause => (refuse cause, w.rollback)
    | .ok a =>
      let (done, after) := w.finish (.ok a)
      (done.mapError .collection, after)
  Task.change fun c => { c with opened := c.opened.withStore after, inFlight := none }
  Task.ofChecked outcome

def onView (step : Step α) : Step α := do
  onStore (Task.onPart (Engine.checkUsable.mapError .storage))
  let before := (← Task.state).inFlight
  setInFlight (some (.none, []))
  let result ← step.attempt
  setInFlight before
  Task.ofChecked (result.mapError .error)

def run (access : Access) (step : Step α) : Step α := do
  let isRunning := (← Task.state).inFlight.isSome
  match access with
  | .committed => onView step
  | .read => if isRunning then step else onView step
  | .write =>
    if isRunning then step
    else
      start
      let result ← step.attempt
      finish result

/-- Steps up to the first one that fails with an error of the store and is not to go on. -/
def runAll : List (Bool × Step α) → Step (List (Except ConsoleError α) × Option CollectionError)
  | [] => return ([], none)
  | (goesOn, step) :: rest => do
    match ← step.attempt, goesOn with
    | .error (.collection cause), false => return ([.error (.collection cause)], some cause)
    | answer, _ =>
      let (answers, failure) ← runAll rest
      return (answer :: answers, failure)

structure AtomicReport (α : Type) where
  answers : List (Except ConsoleError α)
  /-- The caller's own undo steps that ran, in their order. -/
  undone : List String
  isBroken : Bool
  failure : Option CollectionError

/-- Run steps in one operation. -/
def atomic (steps : List (Bool × Step α)) : Step (AtomicReport α) := do
  match ← start.attempt with
  | .error (.collection cause) => return ⟨[], [], ← isBroken, some cause⟩
  | .error cause => refuse cause
  | .ok () =>
    let (answers, failure) ← runAll steps
    let undo := ((← Task.state).inFlight.map Prod.snd).getD []
    let result := failure.elim (.ok ()) fun cause => .error (.collection cause)
    match ← (finish result).attempt with
    | .ok () => return ⟨answers, [], ← isBroken, none⟩
    | .error (.collection cause) =>
      return ⟨answers, undo.filterMap Undo.label?, ← isBroken, some cause⟩
    | .error cause => refuse cause

/-- Run steps for a component. The first storage error ends them and is given the component. -/
def inComponent (name operation : String) :
    List (Step α) → Step (List (Except ConsoleError α))
  | [] => return []
  | step :: rest => do
    match ← step.attempt with
    | .error (.collection (.storage cause)) =>
      refuse (.collection (.storage (cause.inComponent name operation)))
    | answer => return answer :: (← inComponent name operation rest)

/-! ## Named things -/

def handle (name : String) : Step Collection := do found (← Task.state).handles[name]?

def pointer (name : String) : Step CollectionPointer := do found (← Task.state).pointers[name]?

def setHandle (name : String) (h : Collection) : Step Unit :=
  Task.change fun c => { c with handles := c.handles.insert name h }

def setPointer (name : String) (p : CollectionPointer) : Step Unit :=
  Task.change fun c => { c with pointers := c.pointers.insert name p }

/-- A session exists from the first time it is named. -/
def session (name : String) : Step Session := do
  return ((← Task.state).sessions[name]?).getD .empty

def changeSession (name : String) (f : Session → Session) : Step Session := do
  let s := f (← session name)
  Task.change fun c => { c with sessions := c.sessions.insert name s }
  return s

def file (name : String) : Step PagedFile := do found (← Task.state).files[name]?

def setFile (name : String) (f : PagedFile) : Step Unit :=
  Task.change fun c => { c with files := c.files.insert name f }

def storedAt (id : StorageId) : Step ClusterStorage := do
  found (← store).registry.storages[id]?

def storageIdOf (owner : Owner) : Step StorageId := do
  match owner with
  | .named _ => refuse .missing
  | .handle name => return (← handle name).storage
  | .cluster id =>
    needCollections
    found ((← store).registry.registeredId? id)

def changeStored (owner : Owner) (f : ClusterStorage → ClusterStorage) : Step Unit := do
  let id ← storageIdOf owner
  onStore (Store.changeRegistry fun r => { r with storages := r.storages.modify id f })

def tree : Owner → Step Tree
  | .named name => do found (← Task.state).trees[name]?
  | owner => do return (← storedAt (← storageIdOf owner)).tree

def setTree (t : Tree) : Owner → Step Unit
  | .named name => Task.change fun c => { c with trees := c.trees.insert name t }
  | owner => changeStored owner fun s => { s with tree := t }

def sizes : Owner → Step SizeMap
  | .named name => do found (← Task.state).maps[name]?
  | owner => do return (← storedAt (← storageIdOf owner)).sizes

def setSizes (m : SizeMap) : Owner → Step Unit
  | .named name => Task.change fun c => { c with maps := c.maps.insert name m }
  | owner => changeStored owner fun s => { s with sizes := m }

/-- Attach a tree to its file, if there is one. -/
def loadTree (owner : Owner) : Step Bool := do
  let t := (← tree owner).load? (← volume)
  t.forM (setTree · owner)
  return t.isSome

def loadSizes (owner : Owner) : Step Bool := do
  let m := (← sizes owner).load? (← volume)
  m.forM (setSizes · owner)
  return m.isSome

def createTree (owner : Owner) : Step FileId := do
  let t ← onTree (← tree owner).create
  setTree t owner
  return t.component.file

def createSizes (owner : Owner) : Step FileId := do
  let m ← onSizes (← sizes owner).create
  setSizes m owner
  return m.component.file

def setCollection (name : String) (h : Collection) : Step CollectionPointer := do
  setHandle name h
  setPointer name h.pointer
  return h.pointer

/-- Create a collection, and remember it and its pointer. -/
def createCollection (name : String) (cluster : ClusterId) : Step CollectionPointer := do
  setCollection name (← onWorkspace (Workspace.createCollection cluster))

/-- Create a collection whose pointer a session keeps for its owner, and load it by the pointer. -/
def createOwned (name inSession : String) (cluster : ClusterId) (owner : Option Uuid) :
    Step CollectionPointer := do
  let before ← session inSession
  let (p, after) ← onWorkspace (Workspace.createOwned before cluster owner)
  let _ ← changeSession inSession fun _ => after
  setCollection name (← onStore (Store.loadCollection p))

/-! ## Opening -/

/-- The disk with nothing open. Trees, size maps and handles are forgotten. -/
def drop : Step Unit :=
  Task.change fun c =>
    { c with
      opened := .nothing c.opened.disk
      inFlight := none
      trees := ∅
      maps := ∅
      handles := ∅ }

/-- Open something in place of what was open. If that fails, nothing is. -/
def openWith (f : Disk → Checked ConsoleError (Opened × α) × Disk) : Step α := do
  drop
  let (result, disk) := f (← Task.state).opened.disk
  Task.change fun c => { c with opened := .nothing disk }
  let (opened, a) ← Task.ofChecked result
  Task.change fun c => { c with opened }
  return a

def openVolume (path : Path) (pageSize poolPages : Nat) : Step Unit :=
  openWith fun disk =>
    let (result, disk) := (Volume.mount path pageSize poolPages).start disk
    ((result.mapError fun e => .collection (.storage e)).map fun v => (.volume ⟨disk, v⟩, ()), disk)

/-- Open a store without loading its clusters. -/
def openLevel (level : Level) (path : Path) (pageSize poolPages : Nat) (syncs : Bool) :
    Step RecoveryReport :=
  openWith fun disk =>
    let (result, disk) := Store.mount path pageSize poolPages syncs disk
    ((result.mapError fun e => .collection (.storage e)).map fun (s, r) => (.store level s, r), disk)

/-- Open a store with all its clusters. -/
def openStore (settings : Settings) (path : Path) : Step RecoveryReport :=
  openWith fun disk =>
    let (result, disk) := Store.open settings path disk
    ((result.mapError .store).map fun (s, r) => (.store .all s, r), disk)

/-- Close a store that was opened with all its clusters. -/
def close : Step Unit := do
  match (← Task.state).opened with
  | .store .all s =>
    let (result, after) := Store.close.start s
    drop
    Task.change fun c => { c with opened := .nothing after.disk }
    Task.ofChecked (result.mapError .store)
  | _ => refuse .missing

end Console

end RefStore
