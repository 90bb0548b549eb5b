import RefStore.Proofs.Drafts
import RefStore.Proofs.Maps
import RefStore.Proofs.Seals
import RefStore.Proofs.Tasks

/-!
# Reading and changing a file in a transaction

A transaction shows the pages of a file when its operation makes them of committed pages that are
resident. Then every page can be read, changed and added to, and none of this needs the disk.
-/

namespace RefStore

/-- The committed pages of a file are all in memory. -/
def Mounted.Resident (m : Mounted) (file : FileId) (base : List Page) : Prop :=
  ∃ f, m.volume.files[file]? = some f ∧ f.file.pageCount = UInt64.ofNat base.length ∧
    base.length < UInt64.size ∧
    ∀ i : PageIndex, i.toNat < base.length → f.resident[i]? = base[i.toNat]?

theorem Mounted.Resident.length_lt {m : Mounted} {file : FileId} {base : List Page}
    (h : m.Resident file base) : base.length < UInt64.size := by
  obtain ⟨_, _, _, hlt, _⟩ := h
  exact hlt

theorem Mounted.Resident.pageCount {m : Mounted} {file : FileId} {base : List Page}
    (h : m.Resident file base) :
    (Mounted.pageCount file).Gives m (UInt64.ofNat base.length) m := by
  obtain ⟨f, hf, hc, -⟩ := h
  have ho : (Mounted.openFile file).Gives m f m := by
    refine (Task.Gives.state m).bind ?_
    rw [hf]
    exact .pure f m
  exact ho.bind (hc ▸ .pure f.file.pageCount m)

theorem Mounted.Resident.loadPage {m : Mounted} {file : FileId} {base : List Page}
    (h : m.Resident file base) {i : PageIndex} {p : Page} (hp : base[i.toNat]? = some p) :
    (Mounted.loadPage file i).Gives m p m := by
  obtain ⟨f, hf, -, -, hr⟩ := h
  obtain ⟨hi, -⟩ := List.getElem?_eq_some_iff.mp hp
  have ho : (Mounted.openFile file).Gives m f m := by
    refine (Task.Gives.state m).bind ?_
    rw [hf]
    exact .pure f m
  refine ho.bind ?_
  rw [hr i hi, hp]
  exact .pure p m

namespace Transaction

theorem pageSize_gives (t : Transaction) : pageSize.Gives t t.mounted.volume.pageSize t :=
  (Task.Gives.state t).bind (.pure _ t)

/-- A transaction after a file was added: the id is the next one of the catalog, and the file has no
pages. -/
def withFile (t : Transaction) (name : String) : Transaction where
  mounted := { t.mounted with
    volume := { t.mounted.volume with catalog := t.mounted.volume.catalog.reserve.2 } }
  operation := { t.operation with
    created := t.operation.created ++ [(t.mounted.volume.catalog.nextId, name)]
    counts := t.operation.counts.insert t.mounted.volume.catalog.nextId 0 }

theorem fileExists_gives (t : Transaction) (name : String) :
    ∃ b, (fileExists name).Gives t b t := by
  rw [fileExists]
  by_cases hc : (t.operation.createdId? name).isSome = true
  · exact ⟨true, (Task.Gives.state t).bind (by rw [if_pos hc]; exact .pure true t)⟩
  · cases hid : t.mounted.volume.idOf? name with
    | some id =>
      refine ⟨!t.operation.deleted.contains id, (Task.Gives.state t).bind ?_⟩
      rw [if_neg hc, hid]
      exact .pure _ t
    | none =>
      refine ⟨false, (Task.Gives.state t).bind ?_⟩
      rw [if_neg hc, hid]
      exact .pure _ t

/-- A file is added under a name that is free. -/
theorem addFile_free {t : Transaction} {name : String} (h : (fileExists name).Gives t false t) :
    (addFile name).Gives t t.mounted.volume.catalog.nextId (t.withFile name) := by
  have hreserve : Mounted.reserveId.Gives t.mounted t.mounted.volume.catalog.nextId
      (t.withFile name).mounted :=
    (Task.Gives.state _).bind ((Task.Gives.change _ _).bind (.pure _ _))
  rw [addFile, Task.Gives, h.start_bind, if_neg Bool.false_ne_true]
  exact (Task.Gives.onPart (s := t) hreserve).bind ((Task.Gives.change _ _).bind (.pure _ _))

theorem addFile_gives {t t' : Transaction} {name : String} {id : FileId}
    (h : (addFile name).Gives t id t') : (fileExists name).Gives t false t := by
  obtain ⟨known, hk⟩ := fileExists_gives t name
  rw [addFile, Task.Gives, hk.start_bind] at h
  cases known with
  | true => exact absurd h (Task.not_gives_refuse (s := t))
  | false => exact hk

/-- The pages of a file as a transaction has them, over the committed ones. -/
structure Shows (t : Transaction) (file : FileId) (base pages : List Page) : Prop where
  carried : t.operation.counts[file]?.isSome ∧ base = [] ∨ t.mounted.Resident file base
  drafts : t.operation.Drafts file t.mounted.volume.pageSize base pages

/-- One transaction has changed a file only, and nothing beneath. -/
structure Alters (file : FileId) (t t' : Transaction) : Prop where
  mounted : t'.mounted = t.mounted
  created : t'.operation.created = t.operation.created
  deleted : t'.operation.deleted = t.operation.deleted
  counts : ∀ f ≠ file, t'.operation.counts[f]? = t.operation.counts[f]?
  drafts : ∀ f ≠ file, ∀ i, t'.operation.draft? f i = t.operation.draft? f i

namespace Alters

variable {file : FileId} {t t' t'' : Transaction}

theorem refl (file : FileId) (t : Transaction) : Alters file t t :=
  ⟨rfl, rfl, rfl, fun _ _ => rfl, fun _ _ _ => rfl⟩

theorem trans (h : Alters file t t') (h' : Alters file t' t'') : Alters file t t'' where
  mounted := h'.mounted.trans h.mounted
  created := h'.created.trans h.created
  deleted := h'.deleted.trans h.deleted
  counts f hf := (h'.counts f hf).trans (h.counts f hf)
  drafts f hf i := (h'.drafts f hf i).trans (h.drafts f hf i)

/-- What a transaction shows of other files stays. -/
theorem shows_other (h : Alters file t t') {f : FileId} (hf : f ≠ file) {base pages : List Page}
    (hs : t.Shows f base pages) : t'.Shows f base pages where
  carried := by
    rw [h.counts f hf, h.mounted]
    exact hs.carried
  drafts := by
    rw [h.mounted]
    exact hs.drafts.congr (h.deleted ▸ hs.drafts.kept) (h.counts f hf) (h.drafts f hf)

theorem withDraft (t : Transaction) (file : FileId) (i : PageIndex) (d : Draft) :
    Alters file t { t with operation := t.operation.withDraft file i d } where
  mounted := rfl
  created := rfl
  deleted := rfl
  counts _ _ := rfl
  drafts f hf j := by
    rw [Operation.draft?_withDraft, if_neg fun h => hf h.1]

end Alters

namespace Shows

variable {t : Transaction} {file : FileId} {base pages : List Page}

theorem pageCount (h : t.Shows file base pages) :
    (Transaction.pageCount file).Gives t (UInt64.ofNat pages.length) t := by
  refine (Task.Gives.state t).bind ?_
  have hdel : ¬ t.operation.deleted.contains file = true := h.drafts.kept
  dsimp only
  rw [if_neg hdel]
  rcases h.drafts.count with hc | ⟨hc, hl⟩
  · rw [hc]
    exact .pure _ t
  · rw [hc, hl]
    rcases h.carried with ⟨hs, -⟩ | hr
    · simp [hc] at hs
    · exact Task.Gives.onPart (p := t.mounted) hr.pageCount

theorem length_toNat (h : t.Shows file base pages) :
    (UInt64.ofNat pages.length).toNat = pages.length := UInt64.toNat_ofNat_of_lt' h.drafts.bound

theorem checkBounds (h : t.Shows file base pages) {i : PageIndex} (hi : i.toNat < pages.length) :
    (Transaction.checkBounds file i).Gives t () t := by
  refine h.pageCount.bind ?_
  have hlt : ¬ UInt64.ofNat pages.length ≤ i := by
    rw [UInt64.le_iff_toNat_le, h.length_toNat]
    omega
  rw [if_neg hlt]
  exact .pure () t

/-- The draft of a page is found, or begun over the committed page. -/
theorem draft (h : t.Shows file base pages) {i : PageIndex} {p : Page}
    (hp : pages[i.toNat]? = some p) :
    ∃ d, t.operation.Current file base i d ∧ (Transaction.draft file i).Gives t d t := by
  obtain ⟨hi, -⟩ := List.getElem?_eq_some_iff.mp hp
  have hb := h.checkBounds hi
  cases hd : t.operation.draft? file i with
  | some d =>
    refine ⟨d, .inl hd, hb.bind ((Task.Gives.state t).bind ?_)⟩
    rw [hd]
    exact .pure d t
  | none =>
    obtain ⟨hlt, hbase⟩ := h.drafts.plain i hd hi
    refine ⟨_, .inr ⟨hd, p, hbase.trans hp, rfl⟩, hb.bind ((Task.Gives.state t).bind ?_)⟩
    rw [hd]
    rcases h.carried with ⟨-, rfl⟩ | hr
    · simp at hlt
    · exact (Task.Gives.onPart (p := t.mounted) (hr.loadPage (hbase.trans hp))).bind (.pure _ t)

theorem loadPage (h : t.Shows file base pages) {i : PageIndex} {p : Page}
    (hp : pages[i.toNat]? = some p) : (Transaction.loadPage file i).Gives t p t := by
  obtain ⟨d, hd, hg⟩ := h.draft hp
  obtain ⟨-, rfl, -⟩ := h.drafts.current hp hd
  exact hg.bind (.pure _ t)

theorem size_page (h : t.Shows file base pages) {i : PageIndex} {p : Page}
    (hp : pages[i.toNat]? = some p) : p.size = t.mounted.volume.pageSize :=
  h.drafts.sizes p (List.mem_of_getElem? hp)

theorem writePage (h : t.Shows file base pages) {i : PageIndex} {p : Page}
    (hp : pages[i.toNat]? = some p) {ws : List Write} (hw : ∀ w ∈ ws, Page.Inside p.size w) :
    ∃ t', (Transaction.writePage file i ws).Gives t () t' ∧ Alters file t t' ∧
      t'.Shows file base (pages.set i.toNat (p.writtenAll ws)) := by
  obtain ⟨d, hd, hg⟩ := h.draft hp
  have hws : ∀ w ∈ ws, Page.Inside d.overlay.size w := by
    rw [h.drafts.size_current hp hd, ← h.size_page hp]
    exact hw
  have hall : (d.overlay.writeAll ws : Checked StorageError Overlay) = .ok (d.overlay.writtenAll ws) :=
    Overlay.writeAll_eq_ok_iff.mpr ⟨hws, rfl⟩
  refine ⟨_, hg.bind ((Task.Gives.ofChecked hall t).bind (.change _ t)), .withDraft t file i _, ?_, ?_⟩
  · exact h.carried
  · exact h.drafts.write hp hd (by rw [← h.size_page hp]; exact hw)

/-- A draft that is noted as it is changes nothing that is shown. -/
theorem noted (h : t.Shows file base pages) {i : PageIndex} {p : Page} {d : Draft}
    (hp : pages[i.toNat]? = some p) (hd : t.operation.Current file base i d) :
    { t with operation := t.operation.withDraft file i d }.Shows file base pages := by
  have hn := h.drafts.write hp hd (show ∀ w ∈ [], Page.Inside t.mounted.volume.pageSize w by simp)
  obtain ⟨hi, rfl⟩ := List.getElem?_eq_some_iff.mp hp
  rw [Page.writtenAll, List.foldl_nil, List.set_getElem_self] at hn
  exact ⟨h.carried, hn⟩

/-- A change that is worked out from the page. -/
theorem edit {α ε : Type} [Within StorageError ε] (h : t.Shows file base pages) {i : PageIndex}
    {p : Page} (hp : pages[i.toNat]? = some p) {f : Page → Checked ε (α × List Write)} {a : α}
    (ws : List Write) (hf : f p = .ok (a, ws)) (hw : ∀ w ∈ ws, Page.Inside p.size w) :
    ∃ t', (Transaction.edit file i f).Gives t a t' ∧ Alters file t t' ∧
      t'.Shows file base (pages.set i.toNat (p.writtenAll ws)) := by
  obtain ⟨d, hd, hg⟩ := h.draft hp
  obtain ⟨-, hpage, -⟩ := h.drafts.current hp hd
  -- the draft is noted before the change is worked out
  obtain ⟨t', hg', ha, hs⟩ := (h.noted hp hd).writePage hp hw
  refine ⟨t', ?_, (Alters.withDraft t file i d).trans ha, hs⟩
  refine hg.embed.bind ((Task.Gives.change _ t).embed.bind ?_)
  have hfd : f d.overlay.page = .ok (a, ws) := by rw [hpage, hf]
  exact (Task.Gives.ofChecked hfd _).bind (hg'.embed.bind (.pure a t'))

theorem addPage (h : t.Shows file base pages) (hb : pages.length + 1 < UInt64.size) :
    ∃ t', (Transaction.addPage file).Gives t (UInt64.ofNat pages.length) t' ∧ Alters file t t' ∧
      t'.Shows file base (pages ++ [.zero t.mounted.volume.pageSize]) := by
  obtain ⟨hnone, hd⟩ := h.drafts.append hb
  refine ⟨_, h.pageCount.bind ((pageSize_gives t).bind
    ((Task.Gives.change _ t).bind (.pure _ _))), ⟨rfl, rfl, rfl, fun f hf => ?_, fun f hf i => ?_⟩, ?_, ?_⟩
  · dsimp only
    rw [lookup_insert_of_ne hf]
  · exact (Alters.withDraft t file _ _).drafts f hf i
  · rcases h.carried with ⟨-, rfl⟩ | hr
    · exact .inl ⟨by simp, rfl⟩
    · exact .inr hr
  · dsimp only
    rw [hnone]
    exact hd

/-- A new operation over pages like those of another one shows these pages. -/
theorem renew (h : t.Shows file base pages) {mounted : Mounted} {cur : List Page}
    (hsize : mounted.volume.pageSize = t.mounted.volume.pageSize)
    (ha : List.Forall₂ Page.Alike pages cur) (hr : mounted.Resident file cur) (id : OperationId) :
    Transaction.Shows ⟨mounted, .fresh id⟩ file cur cur := by
  refine ⟨.inr hr, .fresh id file hr.length_lt fun q hq => ?_⟩
  obtain ⟨k, hk, rfl⟩ := List.mem_iff_getElem.mp hq
  have hk' : k < pages.length := ha.length_eq ▸ hk
  have hlike : (pages.get ⟨k, hk'⟩).Alike (cur.get ⟨k, hk⟩) := ha.get hk' hk
  rw [hsize, ← h.drafts.sizes _ (List.getElem_mem hk')]
  exact hlike.1.symm

end Shows

end Transaction

end RefStore
