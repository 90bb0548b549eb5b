import RefStore.Proofs.Maps
import RefStore.Proofs.Requests

/-!
# Operations request by request

Whatever requests an operation makes, and whether they succeed or not, it sees files and pages over
those that are committed. Main statement: `Edits.over`.
-/

namespace RefStore

/-- What an operation may ask for. A page is loaded for writing by writing nothing to it. -/
inductive Request where
  | addFile (name : String)
  | deleteFile (file : FileId)
  | openFile (name : String)
  | fileExists (name : String)
  | pageCount (file : FileId)
  | addPage (file : FileId)
  | loadPage (file : FileId) (index : PageIndex)
  | writePage (file : FileId) (index : PageIndex) (writes : List Write)

namespace Request

/-- The request is made and what it answers is dropped. -/
def run : Request → Task Transaction StorageError Unit
  | .addFile name => do let _ ← Transaction.addFile name
  | .deleteFile file => Transaction.deleteFile file
  | .openFile name => do let _ ← Transaction.openFile name
  | .fileExists name => do let _ ← Transaction.fileExists name
  | .pageCount file => do let _ ← Transaction.pageCount file
  | .addPage file => do let _ ← Transaction.addPage file
  | .loadPage file index => do let _ ← Transaction.loadPage file index
  | .writePage file index writes => Transaction.writePage file index writes

/-- Neither the ids of files nor the pages of a file run out. -/
def HasRoom (t : Transaction) : Request → Prop
  | .addFile _ => t.mounted.volume.catalog.nextId ≠ FileId.none
  | .addPage file => ∀ count, (Transaction.pageCount file).Gives t count t → count.toNat + 1 < UInt64.size
  | _ => True

end Request

/-- The transactions of an operation that begins on a volume. -/
inductive Edits (m : Mounted) (id : OperationId) : Transaction → Prop where
  | begun : Edits m id ⟨m, .fresh id⟩
  | request {t : Transaction} (before : Edits m id t) (r : Request) (room : r.HasRoom t) :
      Edits m id (r.run.start t).2

namespace Transaction.Over

variable {size : Nat} {s : Stock} {t : Transaction}

theorem begun {m : Mounted} (h : m.Serves size s) (id : OperationId) :
    Transaction.Over size s ⟨m, .fresh id⟩ where
  serves := h
  operation := by
    have hpages {f : FileId} {x : String} (hx : s.names f = some x) : s.held f = s.pages f := by
      rw [Stock.held, hx]
      rfl
    have hnone {f : FileId} (hx : s.names f = none) : s.held f = [] := by
      rw [Stock.held, hx]
      rfl
    refine .fresh_ids id (fun f => ?_) fun f => ?_
    · cases hf : s.names f with
      | none =>
        rw [hnone hf]
        decide
      | some x =>
        obtain ⟨_, _, _, hs⟩ := h.file hf
        rw [hpages hf]
        exact hs.length_lt
    · cases hf : s.names f with
      | none =>
        rw [hnone hf]
        exact fun _ hp => absurd hp List.not_mem_nil
      | some x =>
        obtain ⟨_, _, _, hs⟩ := h.file hf
        rw [hpages hf]
        exact hs.sizes
  below e he := by simp [Operation.fresh] at he
  warm hd := by simp [Operation.fresh, Operation.draft?] at hd

theorem addFile (h : t.Over size s) {name : String}
    (hroom : t.mounted.volume.catalog.nextId ≠ FileId.none) :
    ((Transaction.addFile name).start t).2.Over size s := by
  obtain ⟨b, hb, hiff⟩ := h.fileExists name
  cases b with
  | true =>
    rw [Transaction.addFile, hb.start_bind, if_pos rfl]
    exact h
  | false =>
    have hfree : ∀ id, ¬ t.operation.Sees s id name := fun id hs => by simpa using hiff.mpr ⟨id, hs⟩
    obtain ⟨hid, hserves⟩ := h.serves.reserve hroom
    have hlt : t.mounted.volume.catalog.nextId < t.mounted.volume.catalog.nextId + 1 := by
      have hne : t.mounted.volume.catalog.nextId.toNat ≠ 4294967295 := fun he =>
        hroom (UInt32.toNat_inj.mp he)
      have := t.mounted.volume.catalog.nextId.toNat_lt
      rw [UInt32.lt_iff_toNat_lt, UInt32.toNat_add]
      simp only [UInt32.toNat_one]
      omega
    have hne : ∀ e ∈ t.operation.created, e.1 ≠ t.mounted.volume.catalog.nextId := fun e he heq =>
      absurd (h.below e he) (heq ▸ UInt32.lt_irrefl _)
    rw [(addFile_free hb).eq]
    refine ⟨hserves, h.operation.add hid hroom hne hfree, fun e he => ?_, h.warm⟩
    rcases List.mem_append.mp he with he | he
    · exact UInt32.lt_trans (h.below e he) hlt
    · rw [List.mem_singleton.mp he]
      exact hlt

theorem deleteFile (h : t.Over size s) (file : FileId) :
    ((Transaction.deleteFile file).start t).2.Over size s := by
  by_cases hs : ∃ name, t.operation.Sees s file name
  · obtain ⟨name, hs⟩ := hs
    obtain ⟨pages, hp⟩ := h.operation.drafts hs
    rw [Transaction.deleteFile, (h.pageCount hp hs).start_bind]
    refine ⟨h.serves, h.operation.delete hs, fun e he => h.below e (List.mem_of_mem_filter he),
      fun {id i d} hd => ?_⟩
    have hdrafts : (t.operation.drafts.erase file)[id]?.bind (·[i]?) = some d := hd
    rw [lookup_erase] at hdrafts
    split at hdrafts
    · cases hdrafts
    · exact h.warm hdrafts
  · rw [Transaction.deleteFile, Task.start_bind, h.pageCount_none (not_exists.mp hs)]
    exact h

theorem addPage (h : t.Over size s) {file : FileId}
    (hroom : ∀ count, (Transaction.pageCount file).Gives t count t → count.toNat + 1 < UInt64.size) :
    ((Transaction.addPage file).start t).2.Over size s := by
  by_cases hs : ∃ name, t.operation.Sees s file name
  · obtain ⟨name, hs⟩ := hs
    obtain ⟨pages, hp⟩ := h.operation.drafts hs
    have hcount := h.pageCount hp hs
    have hlen := hroom _ hcount
    rw [UInt64.toNat_ofNat_of_lt' hp.bound] at hlen
    obtain ⟨hnone, hdrafts⟩ := hp.append hlen
    have hg : (Transaction.addPage file).Gives t (UInt64.ofNat pages.length) ⟨t.mounted,
        { t.operation.withDraft file (UInt64.ofNat pages.length) ⟨.on (.zero size), true⟩ with
          counts := t.operation.counts.insert file (UInt64.ofNat pages.length + 1) }⟩ := by
      refine hcount.bind ((pageSize_gives t).bind ((Task.Gives.change _ t).bind ?_))
      dsimp only
      rw [hnone, h.serves.pageSize]
      exact .pure _ _
    rw [hg.eq]
    refine ⟨h.serves, ?_, h.below, fun {id i d} hd ha => ?_⟩
    · refine h.operation.alter hs rfl rfl (fun f hf => ⟨?_, (Alters.withDraft t file _ _).drafts f hf⟩)
        (fun _ _ => ?_) hdrafts
      · exact lookup_insert_of_ne hf
      · show ((t.operation.counts.insert file _)[file]?).isSome
        simp
    · have hd' : (t.operation.withDraft file (UInt64.ofNat pages.length) _).draft? id i = some d := hd
      rw [Operation.draft?_withDraft] at hd'
      split at hd'
      · cases hd'
        cases ha
      · exact h.warm hd' ha
  · rw [Transaction.addPage, Task.start_bind, h.pageCount_none (not_exists.mp hs)]
    exact h

/-- What is written to a page that is current. -/
theorem withDraft (h : t.Over size s) {file : FileId} {name : String} {pages : List Page} {i : PageIndex}
    {p : Page} {d : Draft} {ws : List Write} (hs : t.operation.Sees s file name)
    (hp : t.operation.Drafts file size (s.held file) pages) (hi : pages[i.toNat]? = some p)
    (hd : t.operation.Current file (s.held file) i d)
    (hw : ∀ w ∈ ws, Page.Inside size w) (hwarm : d.appended = false → t.mounted.Warm file i) :
    Transaction.Over size s ⟨t.mounted,
      t.operation.withDraft file i { d with overlay := d.overlay.writtenAll ws }⟩ := by
  refine ⟨h.serves, ?_, h.below, fun {id j e} he ha => ?_⟩
  · exact h.operation.alter hs rfl rfl 
      (fun f hf => ⟨rfl, (Alters.withDraft t file _ _).drafts f hf⟩) (fun x hx => h.operation.counted _ hx)
      (hp.write hi hd hw)
  · have he' : (t.operation.withDraft file i _).draft? id j = some e := he
    rw [Operation.draft?_withDraft] at he'
    split at he'
    · next heq =>
      cases he'
      rw [heq.1, heq.2]
      exact hwarm ha
    · exact h.warm he' ha

theorem writePage (h : t.Over size s) (file : FileId) (i : PageIndex) (ws : List Write) :
    ((Transaction.writePage file i ws).start t).2.Over size s := by
  by_cases hs : ∃ name, t.operation.Sees s file name
  swap
  · rw [Transaction.writePage, Task.start_bind, Transaction.draft, Task.start_bind,
      Transaction.checkBounds, Task.start_bind, h.pageCount_none (not_exists.mp hs)]
    exact h
  obtain ⟨name, hs⟩ := hs
  obtain ⟨pages, hp⟩ := h.operation.drafts hs
  have hwrite {t : Transaction} (h : t.Over size s) (hs : t.operation.Sees s file name)
      (hp : t.operation.Drafts file size (s.held file) pages) {p : Page} {d : Draft}
      (hi : pages[i.toNat]? = some p) (hd : t.operation.Current file (s.held file) i d)
      (hwarm : d.appended = false → t.mounted.Warm file i) : Transaction.Over size s
        ((do
          let overlay ← Task.ofChecked (d.overlay.writeAll ws)
          update (·.withDraft file i { d with overlay }) : Task Transaction StorageError Unit).start t).2 := by
    rw [Task.start_bind, Task.start_ofChecked]
    cases hr : (d.overlay.writeAll ws : Checked StorageError Overlay) with
    | error e => exact h
    | ok o =>
      obtain ⟨hin, rfl⟩ := Overlay.writeAll_eq_ok_iff.mp hr
      rw [hp.size_current hi hd] at hin
      exact h.withDraft hs hp hi hd hin hwarm
  by_cases hlt : i.toNat < pages.length
  swap
  · have hout := h.loadPage_outside hp hs (Nat.le_of_not_lt hlt)
    rw [Transaction.loadPage, Task.start_bind] at hout
    rw [Transaction.writePage, Task.start_bind]
    rcases hr : (Transaction.draft file i).start t with ⟨cause | d, t'⟩ <;> rw [hr] at hout
    · obtain ⟨-, rfl⟩ := Prod.mk.inj hout
      exact h
    · cases hout
  have hi := List.getElem?_eq_getElem hlt
  cases hd : t.operation.draft? file i with
  | some d =>
    rw [Transaction.writePage, (h.draft_some hp hs hd).start_bind]
    exact hwrite h hs hp hi (.inl hd) (h.warm hd)
  | none =>
    obtain ⟨f, m', hf, hbase, hstart, hserves, hreads, hwarm⟩ := h.draft_none hp hs hd hi
    have h' := h.read hserves hreads
    rw [Transaction.writePage, Task.start_bind, hstart]
    cases hshown : f.shown i pages[i.toNat] with
    | error e => exact h'
    | ok q =>
      obtain rfl := OpenFile.shown_ok hshown
      have hcurrent : t.operation.Current file (s.held file) i ⟨.on pages[i.toNat], false⟩ := by
        obtain ⟨-, heq⟩ := hp.plain i hd hlt
        exact .inr ⟨hd, _, heq.trans hi, rfl⟩
      exact hwrite h' hs hp hi hcurrent fun _ => hwarm _ hshown

theorem loadPage (h : t.Over size s) (file : FileId) (i : PageIndex) :
    ((Transaction.loadPage file i).start t).2.Over size s := by
  by_cases hs : ∃ name, t.operation.Sees s file name
  swap
  · rw [h.loadPage_unseen (not_exists.mp hs)]
    exact h
  obtain ⟨name, hs⟩ := hs
  obtain ⟨pages, hp⟩ := h.operation.drafts hs
  by_cases hlt : i.toNat < pages.length
  swap
  · rw [h.loadPage_outside hp hs (Nat.le_of_not_lt hlt)]
    exact h
  cases hd : t.operation.draft? file i with
  | some d =>
    rw [(h.loadPage_some hp hs hd).eq]
    exact h
  | none =>
    obtain ⟨f, m', hf, -, hstart, hserves, hreads, -⟩ :=
      h.draft_none hp hs hd (List.getElem?_eq_getElem hlt)
    rw [Transaction.loadPage, Task.start_bind, hstart]
    cases f.shown i pages[i.toNat] with
    | error e => exact h.read hserves hreads
    | ok q => exact h.read hserves hreads

/-- No request leads away from the files and pages that are committed. -/
theorem request (h : t.Over size s) (r : Request) (room : r.HasRoom t) :
    (r.run.start t).2.Over size s := by
  have hdiscard {α : Type} (u : Task Transaction StorageError α) (hu : (u.start t).2.Over size s) :
      Transaction.Over size s ((do let _ ← u : Task Transaction StorageError Unit).start t).2 := by
    rw [Task.start_bind]
    rcases hr : u.start t with ⟨cause | a, t'⟩ <;> rw [hr] at hu
    · exact hu
    · exact hu
  cases r with
  | addFile name => exact hdiscard _ (h.addFile room)
  | deleteFile file => exact h.deleteFile file
  | openFile name =>
    refine hdiscard _ ?_
    by_cases hs : ∃ id, t.operation.Sees s id name
    · obtain ⟨id, hs⟩ := hs
      rw [(h.openFile hs).eq]
      exact h
    · rw [h.openFile_none (not_exists.mp hs)]
      exact h
  | fileExists name =>
    obtain ⟨b, hb, -⟩ := h.fileExists name
    refine hdiscard _ ?_
    rw [hb.eq]
    exact h
  | pageCount file =>
    refine hdiscard _ ?_
    by_cases hs : ∃ name, t.operation.Sees s file name
    · obtain ⟨name, hs⟩ := hs
      obtain ⟨pages, hp⟩ := h.operation.drafts hs
      rw [(h.pageCount hp hs).eq]
      exact h
    · rw [h.pageCount_none (not_exists.mp hs)]
      exact h
  | addPage file => exact hdiscard _ (h.addPage room)
  | loadPage file index => exact hdiscard _ (h.loadPage file index)
  | writePage file index writes => exact h.writePage file index writes

end Transaction.Over

theorem Edits.over {m : Mounted} {size : Nat} {s : Stock} (hm : m.Serves size s) {id : OperationId}
    {t : Transaction} (h : Edits m id t) : t.Over size s := by
  induction h with
  | begun => exact .begun hm id
  | request before r room ih => exact ih.request r room

end RefStore
