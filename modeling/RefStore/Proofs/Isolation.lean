import RefStore.Proofs.Agreements
import RefStore.Proofs.CollectionRuns
import RefStore.Proofs.Maps
import RefStore.Proofs.Publishing

/-!
# Isolation

Whatever calls an operation makes on files, trees and size maps, and however they end, nothing that is
committed changes before the operation is committed: no byte on the disk, and no answer about names,
ids, page counts and pages. A page that is loaded may come into memory, and an id may be reserved. Main
statement: `Store.closure_isolated`.
-/

namespace RefStore

/-! ## Loading pages -/

theorem PagedFile.readPage_keeps {P : Disk → Prop} (file : PagedFile) (i : PageIndex) (size : Nat) :
    (file.readPage i size).Keeps P := by
  refine .guarded (.refuse _) (.guarded (.refuse _) ?_)
  exact .bind (.embed (.bind .state fun d => .guarded (.refuse _) (.pure _))) fun _ => .pure _

/-- What comes of loading a page that is not in memory. -/
def OpenFile.fetched (f : OpenFile) (d : Disk) (size : Nat) (id : FileId) (i : PageIndex) :
    Checked StorageError Page :=
  if f.file.pageCount ≤ i then refuse (.pageOutOfBounds id i f.file.pageCount)
  else match ((f.file.readPage i size).start d).1.mapError Within.embed with
    | .error cause => .error cause
    | .ok page => (page.verify.mapError fun cause =>
        StorageError.corruption (f.name ++ s!" page {i}: " ++ cause.message)).map fun _ => page

namespace Mounted

variable {m m' n : Mounted} {id : FileId} {i : PageIndex}

theorem loadPage_start_eq (m : Mounted) (id : FileId) (i : PageIndex) :
    (loadPage id i).start m = match m.volume.files[id]? with
      | none => (refuse (.unknownFile id), m)
      | some f => match f.resident[i]? with
        | some p => (.ok p, m)
        | none => match f.fetched m.disk m.volume.pageSize id i with
          | .error cause => (.error cause, m)
          | .ok p => (.ok p,
              { m with volume := m.volume.withFile id { f with resident := f.resident.insert i p } }) := by
  rw [loadPage, Task.start_bind]
  have hopen : (openFile id).start m = match m.volume.files[id]? with
      | none => (refuse (.unknownFile id), m)
      | some f => (.ok f, m) := by
    rw [openFile, (Task.Gives.state m).start_bind]
    cases m.volume.files[id]? <;> rfl
  rw [hopen]
  cases m.volume.files[id]? with
  | none => rfl
  | some f =>
    dsimp only
    cases f.resident[i]? with
    | some p => rfl
    | none =>
      dsimp only
      rw [OpenFile.fetched]
      by_cases hi : f.file.pageCount ≤ i
      · rw [if_pos hi, if_pos hi]
        rfl
      · rw [if_neg hi, if_neg hi, (Task.Gives.state m).start_bind]
        have hread : (liftM (f.file.readPage i m.volume.pageSize) : Task Mounted StorageError Page).start m =
            (((f.file.readPage i m.volume.pageSize).start m.disk).1.mapError Within.embed, m) := by
          have hdisk : ((f.file.readPage i m.volume.pageSize).start m.disk).2 = m.disk :=
            PagedFile.readPage_keeps (P := (· = m.disk)) f.file i _ m.disk rfl
          show (((f.file.readPage i m.volume.pageSize).start m.disk).1.mapError Within.embed,
            Part.put ((f.file.readPage i m.volume.pageSize).start m.disk).2 m) = _
          rw [hdisk]
          rfl
        rw [Task.start_bind, hread]
        cases ((f.file.readPage i m.volume.pageSize).start m.disk).1 with
        | error cause => rfl
        | ok page =>
          dsimp only [Checked.mapError_ok]
          rw [Task.start_bind, Task.start_ofChecked]
          cases page.verify with
          | error cause => rfl
          | ok u => rfl

/-- A page is loaded alike where a volume has alike what loading looks at. -/
theorem loadPage_congr (hdisk : m'.disk = m.disk) (hsize : m'.volume.pageSize = m.volume.pageSize)
    (hfile : (m'.volume.files[id]?).map (fun f => (f.name, f.file, f.resident[i]?)) =
      (m.volume.files[id]?).map fun f => (f.name, f.file, f.resident[i]?)) :
    ((loadPage id i).start m').1 = ((loadPage id i).start m).1 := by
  rw [loadPage_start_eq, loadPage_start_eq, hdisk, hsize]
  cases hf' : m'.volume.files[id]? with
  | none =>
    rw [hf', Option.map_none, eq_comm, Option.map_eq_none_iff] at hfile
    rw [hfile]
  | some f' =>
    cases hf : m.volume.files[id]? with
    | none =>
      rw [hf, hf'] at hfile
      cases hfile
    | some f =>
      rw [hf, hf', Option.map_some, Option.map_some, Option.some.injEq, Prod.mk.injEq, Prod.mk.injEq] at hfile
      obtain ⟨hname, hpaged, hresident⟩ := hfile
      have hfetched : f'.fetched m.disk m.volume.pageSize id i = f.fetched m.disk m.volume.pageSize id i := by
        rw [OpenFile.fetched, OpenFile.fetched, hname, hpaged]
      dsimp only
      rw [hresident, hfetched]
      cases f.resident[i]? with
      | some p => rfl
      | none => cases f.fetched m.disk m.volume.pageSize id i <;> rfl

/-! ## Volumes that nothing was committed to -/

/-- Nothing that is committed differs: no byte of the disk, no name or id, and no page, wherever the
pages are. -/
structure Unchanged (m m' : Mounted) : Prop where
  disk : m'.disk = m.disk
  names : m'.volume.catalog.names = m.volume.catalog.names
  directory : m'.volume.directory = m.volume.directory
  pageSize : m'.volume.pageSize = m.volume.pageSize
  file : ∀ id : FileId, (m'.volume.files[id]?).map (fun f => (f.name, f.file)) =
    (m.volume.files[id]?).map fun f => (f.name, f.file)
  loadPage : ∀ id i, ((Mounted.loadPage id i).start m').1 = ((Mounted.loadPage id i).start m).1

namespace Unchanged

theorem refl (m : Mounted) : m.Unchanged m := ⟨rfl, rfl, rfl, rfl, fun _ => rfl, fun _ _ => rfl⟩

theorem trans (h : m.Unchanged m') (h' : m'.Unchanged n) : m.Unchanged n where
  disk := h'.disk.trans h.disk
  names := h'.names.trans h.names
  directory := h'.directory.trans h.directory
  pageSize := h'.pageSize.trans h.pageSize
  file id := (h'.file id).trans (h.file id)
  loadPage id i := (h'.loadPage id i).trans (h.loadPage id i)

/-- A page that is loaded comes into memory, and that is all. -/
theorem loaded (m : Mounted) (id : FileId) (i : PageIndex) :
    m.Unchanged ((Mounted.loadPage id i).start m).2 := by
  have hstart := loadPage_start_eq m id i
  cases hf : m.volume.files[id]? with
  | none =>
    rw [hf] at hstart
    rw [hstart]
    exact .refl m
  | some f =>
    rw [hf] at hstart
    dsimp only at hstart
    cases hr : f.resident[i]? with
    | some p =>
      rw [hr] at hstart
      rw [hstart]
      exact .refl m
    | none =>
      rw [hr] at hstart
      dsimp only at hstart
      cases hp : f.fetched m.disk m.volume.pageSize id i with
      | error cause =>
        rw [hp] at hstart
        rw [hstart]
        exact .refl m
      | ok p =>
        rw [hp] at hstart
        set g : OpenFile := { f with resident := f.resident.insert i p } with hg
        have hother {id' : FileId} (hne : id' ≠ id) :
            (m.volume.withFile id g).files[id']? = m.volume.files[id']? := by
          rw [Volume.withFile, lookup_insert_of_ne hne]
        have hself : (m.volume.withFile id g).files[id]? = some g := Std.TreeMap.getElem?_insert_self
        rw [hstart]
        refine ⟨rfl, rfl, rfl, rfl, fun id' => ?_, fun id' j => ?_⟩
        · by_cases he : id' = id
          · subst he
            rw [hself, hf]
            rfl
          · rw [hother he]
        · by_cases he : id' = id
          · subst he
            by_cases hj : j = i
            · subst hj
              rw [hstart, loadPage_start_eq]
              dsimp only
              rw [hself]
              dsimp only
              rw [hg, Std.TreeMap.getElem?_insert_self]
            · refine loadPage_congr rfl rfl ?_
              dsimp only
              rw [hself, hf, Option.map_some, Option.map_some, hg, lookup_insert_of_ne hj]
          · refine loadPage_congr rfl rfl ?_
            dsimp only
            rw [hother he]

/-- A reserved id is not handed out again, and that is all. -/
theorem reserved (m : Mounted) : m.Unchanged (reserveId.start m).2 :=
  ⟨rfl, rfl, rfl, rfl, fun _ => rfl, fun _ _ => loadPage_congr rfl rfl rfl⟩

theorem symm (h : m.Unchanged m') : m'.Unchanged m :=
  ⟨h.disk.symm, h.names.symm, h.directory.symm, h.pageSize.symm, fun id => (h.file id).symm,
    fun id i => (h.loadPage id i).symm⟩

theorem idOf? (h : m.Unchanged m') (name : String) : m.volume.idOf? name = m'.volume.idOf? name := by
  rw [Volume.idOf?, Volume.idOf?, Catalog.idOf?, Catalog.idOf?, h.names]

theorem pageCount_start (m : Mounted) (id : FileId) : (Mounted.pageCount id).start m =
    (((m.volume.files[id]?).map fun f => (f.name, f.file)).elim (refuse (.unknownFile id))
      fun f => .ok f.2.pageCount, m) := by
  rw [Mounted.pageCount, Task.start_bind, openFile, (Task.Gives.state m).start_bind]
  cases m.volume.files[id]? <;> rfl

/-- Between unchanged volumes nothing that is read makes a difference. -/
theorem readAlike : ReadAlike Unchanged where
  pageSize _ _ h := h.pageSize.symm
  idOf? _ _ h := h.idOf?
  pageCount id m n h := by
    rw [pageCount_start, pageCount_start, h.file]
    exact ⟨rfl, h⟩
  loadPage id i m n h := ⟨(h.loadPage id i).symm, ((loaded m id i).symm.trans h).trans (loaded n id i)⟩

/-- No request of an operation changes what is committed. -/
theorem serveAlike (m₀ : Mounted) : ServeAlike fun m n => m = n ∧ m₀.Unchanged m where
  pageSize m n h := by rw [h.1]
  idOf? m n h _ := by rw [h.1]
  pageCount id m n h := by
    obtain ⟨rfl, h⟩ := h
    rw [pageCount_start]
    exact ⟨rfl, rfl, h⟩
  loadPage id i m n h := by
    obtain ⟨rfl, h⟩ := h
    exact ⟨rfl, rfl, h.trans (loaded m id i)⟩
  reserveId m n h := by
    obtain ⟨rfl, h⟩ := h
    exact ⟨rfl, rfl, h.trans (reserved m)⟩

/-- The volume answers as before, and so does every operation over it. -/
theorem answers (h : m.Unchanged m') : m'.answers = m.answers := by
  have hfind := (Transaction.findFile_agrees readAlike · m m' h)
  refine Answers.ext (funext fun name => ?_) (funext fun name => (hfind name).1.symm)
    (funext fun id => (readAlike.pageCount id m m' h).1.symm) (funext₂ fun id i => h.loadPage id i)
  show Except.ok (m'.volume.idOf? name).isSome = Except.ok (m.volume.idOf? name).isSome
  rw [h.idOf? name]

theorem operation_answers (h : m.Unchanged m') (op : Operation) :
    (⟨m', op⟩ : Transaction).answers = (⟨m, op⟩ : Transaction).answers := by
  have hb : Transaction.Beside Unchanged ⟨m, op⟩ ⟨m', op⟩ := ⟨h, rfl⟩
  exact Answers.ext (funext fun name => (Transaction.fileExists_agrees readAlike name _ _ hb).1.symm)
    (funext fun name => (Transaction.openFile_agrees readAlike name _ _ hb).1.symm)
    (funext fun id => (Transaction.pageCount_agrees readAlike id _ _ hb).1.symm)
    (funext₂ fun id i => (Transaction.loadPage_agrees readAlike id i _ _ hb).1.symm)

end Unchanged

end Mounted

/-! ## Closures -/

/-- The calls on the files and pages of an operation. -/
inductive StorageCall : {α : Type} → Task Transaction StorageError α → Prop
  | fileExists (name : String) : StorageCall (Transaction.fileExists name)
  | openFile (name : String) : StorageCall (Transaction.openFile name)
  | addFile (name : String) : StorageCall (Transaction.addFile name)
  | deleteFile (file : FileId) : StorageCall (Transaction.deleteFile file)
  | pageCount (file : FileId) : StorageCall (Transaction.pageCount file)
  | addPage (file : FileId) : StorageCall (Transaction.addPage file)
  | loadPage (file : FileId) (i : PageIndex) : StorageCall (Transaction.loadPage file i)
  | writePage (file : FileId) (i : PageIndex) (writes : List Write) :
      StorageCall (Transaction.writePage file i writes)

inductive TreeCall : {α : Type} → Task Transaction TreeError α → Prop
  | create (tree : Tree) : TreeCall tree.create
  | delete (tree : Tree) : TreeCall tree.delete
  | put (tree : Tree) (key : Key) (value : Int32) : TreeCall (tree.put key value)
  | remove (tree : Tree) (key : Key) : TreeCall (tree.remove key)
  | get (tree : Tree) (key : Key) : TreeCall (tree.get key)
  | entryCount (tree : Tree) : TreeCall tree.entryCount
  | scan (tree : Tree) (r : Tree.KeyRange) (limit : Option Nat) : TreeCall (tree.scan r limit)
  | firstKeyBetween (tree : Tree) (low high : Key) : TreeCall (tree.firstKeyBetween low high)
  | hasEntriesBetween (tree : Tree) (low high : Key) : TreeCall (tree.hasEntriesBetween low high)
  | lastKeyBetween (tree : Tree) (low high : Key) : TreeCall (tree.lastKeyBetween low high)
  | firstKey (tree : Tree) : TreeCall tree.firstKey
  | lastKey (tree : Tree) : TreeCall tree.lastKey

inductive SizesCall : {α : Type} → Task Transaction SizesError α → Prop
  | create (m : SizeMap) : SizesCall m.create
  | delete (m : SizeMap) : SizesCall m.delete
  | add (m : SizeMap) : SizesCall m.add
  | increment (m : SizeMap) (id : SlotId) : SizesCall (m.increment id)
  | decrement (m : SizeMap) (id : SlotId) : SizesCall (m.decrement id)
  | remove (m : SizeMap) (id : SlotId) : SizesCall (m.remove id)
  | count (m : SizeMap) (id : SlotId) : SizesCall (m.count id)
  | bucketCount (m : SizeMap) : SizesCall m.bucketCount

section

open Transaction

variable {R : Mounted → Mounted → Prop} {α : Type}

theorem StorageCall.agrees (hR : Mounted.ServeAlike R) {t : Task Transaction StorageError α}
    (h : StorageCall t) : t.Agrees (Beside R) := by
  have hr := hR.toReadAlike
  cases h with
  | fileExists name => exact fileExists_agrees hr name
  | openFile name => exact openFile_agrees hr name
  | addFile name => exact addFile_agrees hR name
  | deleteFile file => exact deleteFile_agrees hr file
  | pageCount file => exact pageCount_agrees hr file
  | addPage file => exact addPage_agrees hr file
  | loadPage file i => exact loadPage_agrees hr file i
  | writePage file i writes => exact writePage_agrees hr file i writes

theorem TreeCall.agrees (hR : Mounted.ServeAlike R) {t : Task Transaction TreeError α}
    (h : TreeCall t) : t.Agrees (Beside R) := by
  have hr := hR.toReadAlike
  cases h with
  | create tree => exact tree.create_agrees hR
  | delete tree => exact tree.delete_agrees hr
  | put tree key value => exact tree.put_agrees hr key value
  | remove tree key => exact tree.remove_agrees hr key
  | get tree key => exact tree.get_agrees hr key
  | entryCount tree => exact tree.entryCount_agrees hr
  | scan tree r limit => exact tree.scan_agrees hr r limit
  | firstKeyBetween tree low high => exact tree.firstKeyBetween_agrees hr low high
  | hasEntriesBetween tree low high => exact tree.hasEntriesBetween_agrees hr low high
  | lastKeyBetween tree low high => exact tree.lastKeyBetween_agrees hr low high
  | firstKey tree => exact tree.firstKey_agrees hr
  | lastKey tree => exact tree.lastKey_agrees hr

theorem SizesCall.agrees (hR : Mounted.ServeAlike R) {t : Task Transaction SizesError α}
    (h : SizesCall t) : t.Agrees (Beside R) := by
  have hr := hR.toReadAlike
  cases h with
  | create m => exact m.create_agrees hR
  | delete m => exact m.delete_agrees hr
  | add m => exact m.add_agrees hr
  | increment m id => exact m.increment_agrees hr id
  | decrement m id => exact m.decrement_agrees hr id
  | remove m id => exact m.remove_agrees hr id
  | count m id => exact m.count_agrees hr id
  | bucketCount m => exact m.bucketCount_agrees hr

end

namespace Workspace

/-- What an operation can be made of: calls on files and pages, trees and size maps, one after another,
each chosen by what the ones before it answered, whether they succeeded or not. -/
inductive Closure : {α : Type} → Task Workspace CollectionError α → Prop
  | storage {α : Type} {t : Task Transaction StorageError α} (h : StorageCall t) : Closure (onStorage t)
  | tree {α : Type} {t : Task Transaction TreeError α} (h : TreeCall t) : Closure (onTree t)
  | sizes {α : Type} {t : Task Transaction SizesError α} (h : SizesCall t) : Closure (onSizes t)
  | onRollback (u : Undo) : Closure (onRollback u)
  | result {α : Type} (x : Checked CollectionError α) : Closure (Task.ofChecked x)
  | bind {α β : Type} {t : Task Workspace CollectionError α} {f : α → Task Workspace CollectionError β}
      (h : Closure t) (hf : ∀ a, Closure (f a)) : Closure (t >>= f)
  | attempt {α : Type} {t : Task Workspace CollectionError α} (h : Closure t) :
      Closure (t.attempt : Task Workspace CollectionError (Except CollectionError α))

/-- The store of a workspace has the volume of an engine, as far as it is committed, and its journal. -/
structure Intact (e : Engine) (w : Workspace) : Prop where
  mounted : e.mounted.Unchanged w.store.engine.mounted
  journal : w.store.engine.journal = e.journal

variable {α : Type} {e : Engine}

theorem onPart_keeps_intact {ε : Type} {t : Task Transaction ε α} {f : ε → CollectionError}
    (h : t.Agrees (Transaction.Beside fun m n => m = n ∧ e.mounted.Unchanged m)) :
    (Task.onPart (t.mapError f) : Task Workspace CollectionError α).Keeps (Intact e) := by
  intro w hw
  have hbegin : Transaction.Beside (fun m n => m = n ∧ e.mounted.Unchanged m) (Part.get w) (Part.get w) :=
    ⟨⟨rfl, hw.mounted⟩, rfl⟩
  exact ⟨(h _ _ hbegin).2.mounted.2, hw.journal⟩

/-- No closure changes what is committed, however it ends. -/
theorem Closure.keeps_intact {t : Task Workspace CollectionError α} (h : Closure t) :
    t.Keeps (Intact e) := by
  have hR := Mounted.Unchanged.serveAlike e.mounted
  induction h with
  | storage h => exact onPart_keeps_intact (h.agrees hR)
  | tree h => exact onPart_keeps_intact (h.agrees hR)
  | sizes h => exact onPart_keeps_intact (h.agrees hR)
  | onRollback u => exact .change fun _ hw => ⟨hw.mounted, hw.journal⟩
  | result x => exact .ofChecked x
  | bind h hf ih ihf => exact ih.bind ihf
  | attempt h ih => exact ih.attempt

end Workspace

namespace Store

/-- What is committed is the same: every byte of the disk, the log, the names and ids of the files, and
whatever a volume, a view or an operation answers about them. -/
structure SameCommitted (s s' : Store) : Prop where
  disk : s'.engine.mounted.disk = s.engine.mounted.disk
  log : s'.engine.journal.log = s.engine.journal.log
  broken : s'.engine.journal.broken = s.engine.journal.broken
  names : s'.volume.catalog.names = s.volume.catalog.names
  files : ∀ id : FileId, (s'.volume.files[id]?).map (fun f => (f.name, f.file)) =
    (s.volume.files[id]?).map fun f => (f.name, f.file)
  answers : s'.engine.mounted.answers = s.engine.mounted.answers
  operations : ∀ op : Operation, (⟨s'.engine.mounted, op⟩ : Transaction).answers =
    (⟨s.engine.mounted, op⟩ : Transaction).answers

variable {α : Type} {s : Store} {e : Engine} {op : Operation}

theorem sameCommitted_of_intact {w : Workspace} (started : Engine.start.Gives s.engine op e)
    (h : w.Intact e) : s.SameCommitted w.store := by
  obtain ⟨-, -, rfl⟩ := Engine.start_eq started
  exact ⟨h.mounted.disk, by rw [h.journal], by rw [h.journal], h.mounted.names, h.mounted.file,
    h.mounted.answers, h.mounted.operation_answers⟩

/-- Whatever a closure has done so far, what is committed is as it was before the operation. If the
closure ends in a failure, this is what is left, and what the next operation begins with. -/
theorem closure_isolated (started : Engine.start.Gives s.engine op e)
    {t : Task Workspace CollectionError α} (h : Workspace.Closure t) :
    s.SameCommitted (t.start (.begun s e op)).2.store ∧
    ∀ cause, (t.start (.begun s e op)).1 = .error cause →
      ∃ s', (atomically t).start s = (.error cause, s') ∧ s.SameCommitted s' ∧
        ∃ id e', Engine.start.Gives s'.engine (.fresh id) e' ∧
          (⟨e'.mounted, .fresh id⟩ : Transaction).answers =
            (⟨s.engine.mounted, .fresh id⟩ : Transaction).answers := by
  have hsame := sameCommitted_of_intact started (h.keeps_intact (.begun s e op) ⟨.refl _, rfl⟩)
  refine ⟨hsame, fun cause hcause => ⟨(t.start (.begun s e op)).2.rollback, ?_, ?_, ?_⟩⟩
  · rw [Collection.start_atomically started, hcause]
    rfl
  · exact ⟨hsame.disk, hsame.log, hsame.broken, hsame.names, hsame.files, hsame.answers,
      hsame.operations⟩
  · obtain ⟨hbroken, -⟩ := Engine.start_eq started
    exact ⟨_, _, Engine.start_of_usable (hsame.broken.trans hbroken), hsame.operations _⟩

/-- A file that was added is not there when its operation is given up. -/
theorem openFile_after_failure : ∃ (s : Store) (e : Engine) (op : Operation)
    (t : Task Workspace CollectionError Unit) (cause : Failure CollectionError) (s' : Store),
    Engine.start.Gives s.engine op e ∧ Workspace.Closure t ∧
      (t.start (.begun s e op)).2.operation.createdId? "a" = some 0 ∧
      (atomically t).start s = (.error cause, s') ∧
      s'.engine.mounted.answers.openFile "a" = refuse (.fileNotFound "a") := by
  set s : Store := ⟨.blank, .empty⟩
  set t : Task Workspace CollectionError Unit := do
    let file ← Workspace.onStorage (Transaction.addFile "a")
    let _ ← Workspace.onStorage (Transaction.addPage file)
    Workspace.onStorage (Transaction.deleteFile 7)
  have ht : Workspace.Closure t := .bind (.storage (.addFile "a")) fun file =>
    .bind (.storage (.addPage file)) fun _ => .storage (.deleteFile 7)
  set e : Engine := { Engine.blank with journal := ⟨⟨0, false⟩, 2, false⟩ }
  have started : Engine.start.Gives s.engine (.fresh 1) e := rfl
  have hcause : (t.start (.begun s e (.fresh 1))).1 = .error (.error (.storage (.unknownFile 7))) := by
    decide +kernel
  obtain ⟨s', hfails, hsame, -⟩ := (closure_isolated started ht).2 _ hcause
  refine ⟨s, e, .fresh 1, t, _, s', started, ht, by decide +kernel, hfails, ?_⟩
  rw [hsame.answers]
  decide +kernel

end Store

end RefStore
