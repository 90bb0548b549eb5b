import RefStore.Proofs.Maps
import RefStore.Proofs.Publishing

/-!
# Volumes with all pages in memory

A volume that was filled by commits alone has every page in memory. Then no file that an operation
sees needs the disk, and what is found in a file stays there as long as nothing is done to this file:
through changes of others, files added and deleted, and the commit. Main statement: `Ready.commit`.
-/

namespace RefStore

/-- All pages of the registered files are in memory. -/
def Mounted.Loaded (s : Stock) (m : Mounted) : Prop :=
  ∀ id name, s.names id = some name → ∀ i : PageIndex, i.toNat < (s.pages id).length → m.Warm id i

namespace Mounted.Loaded

variable {m m' : Mounted} {size : Nat} {s s' : Stock} {op : Operation} {id : FileId} {name : String}

theorem resident (h : m.Loaded s) (hs : m.Serves size s) (hid : s.names id = some name) :
    m.Resident id (s.pages id) := by
  obtain ⟨f, hf, -, hserves⟩ := hs.file hid
  refine ⟨f, hf, hserves.pageCount, hserves.length_lt, fun i hi => ?_⟩
  obtain ⟨g, hg, hwarm⟩ := h id _ hid i hi
  obtain rfl := Option.some.inj (hf.symm.trans hg)
  obtain ⟨p, hp⟩ := Option.isSome_iff_exists.mp hwarm
  rw [hp, hserves.resident i p hp]

/-- So it is after a commit: the pages that were changed are in memory, and all others were. -/
theorem filled (h : m.Loaded s) (hop : op.Over size s) (hf : Filled size s s' op op.changes m m') :
    m'.Loaded s' := by
  intro id name hid i hi
  have hsees := (hf.names id name).mp hid
  obtain ⟨pages, hp⟩ := hop.drafts hsees
  by_cases hc : ∃ d, (id, i, d) ∈ op.changes
  · obtain ⟨d, hd⟩ := hc
    exact hf.warm id i d hd
  · have hbase := ((hf.pages id name hsees).within i hi).resolve_right hc
    cases hx : s.names id with
    | none =>
      rw [Stock.held, hx] at hbase
      exact absurd hbase (Nat.not_lt_zero _)
    | some x =>
      rw [Stock.held, hx] at hbase
      rw [warm_iff_glance, hf.glance id i x hx hp.kept (not_exists.mp hc), ← warm_iff_glance]
      exact h id x hx i hbase

end Mounted.Loaded

namespace Transaction

/-- The pages of a file in a transaction have some property. -/
def Finds (t : Transaction) (file : FileId) (base : List Page) (P : List Page → Prop) : Prop :=
  ∃ pages, t.Shows file base pages ∧ P pages

/-- One transaction after another has left a file alone. -/
structure Leaves (file : FileId) (t t' : Transaction) : Prop where
  opened : t'.mounted.volume.files[file]? = t.mounted.volume.files[file]?
  pageSize : t'.mounted.volume.pageSize = t.mounted.volume.pageSize
  deleted : file ∈ t'.operation.deleted → file ∈ t.operation.deleted
  counts : t'.operation.counts[file]? = t.operation.counts[file]?
  drafts : ∀ i, t'.operation.draft? file i = t.operation.draft? file i

namespace Leaves

variable {file other : FileId} {t t' : Transaction} {base : List Page} {P : List Page → Prop}

theorem finds (h : Leaves file t t') (hf : t.Finds file base P) : t'.Finds file base P := by
  obtain ⟨pages, hs, hP⟩ := hf
  refine ⟨pages, ⟨?_, ?_⟩, hP⟩
  · refine hs.carried.imp (fun hc => by rwa [h.counts]) fun hr => ?_
    obtain ⟨f, hf, hrest⟩ := hr
    exact ⟨f, h.opened.trans hf, hrest⟩
  · rw [h.pageSize]
    exact hs.drafts.congr (fun hd => hs.drafts.kept (h.deleted hd)) h.counts h.drafts

theorem trans {t'' : Transaction} (h : Leaves file t t') (h' : Leaves file t' t'') : Leaves file t t'' where
  opened := h'.opened.trans h.opened
  pageSize := h'.pageSize.trans h.pageSize
  deleted hd := h.deleted (h'.deleted hd)
  counts := h'.counts.trans h.counts
  drafts i := (h'.drafts i).trans (h.drafts i)

theorem alters (h : Alters other t t') (hne : file ≠ other) : Leaves file t t' where
  opened := by rw [h.mounted]
  pageSize := by rw [h.mounted]
  deleted hd := h.deleted ▸ hd
  counts := h.counts file hne
  drafts := h.drafts file hne

theorem withFile (hne : file ≠ t.mounted.volume.catalog.nextId) (name : String) :
    Leaves file t (t.withFile name) where
  opened := rfl
  pageSize := rfl
  deleted hd := hd
  counts := lookup_insert_of_ne hne
  drafts _ := rfl

theorem withoutFile (hne : file ≠ other) :
    Leaves file t { t with operation := t.operation.withoutFile other } where
  opened := rfl
  pageSize := rfl
  deleted hd := by
    simp only [Operation.withoutFile] at hd
    split at hd
    · exact hd
    · rw [Std.TreeSet.mem_insert, Std.compare_eq_iff_eq] at hd
      exact hd.resolve_left (Ne.symm hne)
  counts := lookup_erase_of_ne hne
  drafts i := by
    have hdrafts : (t.operation.drafts.erase other)[file]? = t.operation.drafts[file]? :=
      lookup_erase_of_ne hne
    exact congrArg (·.bind fun pages : Std.TreeMap PageIndex Draft => pages[i]?) hdrafts

end Leaves

/-- An operation on a volume that has everything in memory. -/
structure Ready (size : Nat) (s : Stock) (t : Transaction) : Prop where
  based : t.Over size s
  loaded : t.mounted.Loaded s

namespace Ready

variable {size : Nat} {s : Stock} {t t' : Transaction} {id : FileId} {name : String}
  {pages : List Page} {P : List Page → Prop}

theorem begun {m : Mounted} (hs : m.Serves size s) (hl : m.Loaded s) (op : OperationId) :
    Ready size s ⟨m, .fresh op⟩ :=
  ⟨.begun hs op, hl⟩

theorem pageSize (h : t.Ready size s) : t.mounted.volume.pageSize = size := h.based.serves.pageSize

theorem shows (h : t.Ready size s) (hs : t.operation.Sees s id name) :
    ∃ pages, t.Shows id (s.held id) pages := by
  obtain ⟨pages, hp⟩ := h.based.operation.drafts hs
  refine ⟨pages, ?_, h.pageSize ▸ hp⟩
  cases hx : s.names id with
  | some x =>
    rw [Stock.held, hx]
    exact .inr (h.loaded.resident h.based.serves hx)
  | none =>
    rw [Stock.held, hx]
    rcases hs with hc | ⟨hn, -⟩
    · exact .inl ⟨h.based.operation.counted _ hc, rfl⟩
    · rw [hx] at hn
      cases hn

/-- Drafts of committed pages are over pages in memory. -/
theorem warm {op : Operation} {m : Mounted} (hop : op.Over size s) (hl : m.Loaded s) {i : PageIndex}
    {d : Draft} (hd : op.draft? id i = some d) (ha : d.appended = false) : m.Warm id i := by
  obtain ⟨name, hs⟩ := hop.sees_of_draft hd
  obtain ⟨pages, hp⟩ := hop.drafts hs
  obtain ⟨-, -, -, -, hbase⟩ := hp.draft i d hd
  rw [ha, if_neg Bool.false_ne_true] at hbase
  have hlt := (List.getElem?_eq_some_iff.mp hbase).1
  cases hx : s.names id with
  | none =>
    rw [Stock.held, hx] at hlt
    exact absurd hlt (Nat.not_lt_zero _)
  | some x =>
    rw [Stock.held, hx] at hlt
    exact hl id x hx i hlt

/-- A change of one file that is seen. -/
theorem alter (h : t.Ready size s) (hs : t.operation.Sees s id name) (ha : Alters id t t')
    (hf : t'.Finds id (s.held id) P) : t'.Ready size s := by
  obtain ⟨pages, hp, -⟩ := hf
  have hps : t'.mounted.volume.pageSize = size := by rw [ha.mounted, h.pageSize]
  have hop : t'.operation.Over size s := by
    refine h.based.operation.alter hs ha.created ha.deleted (fun f hf => ⟨ha.counts f hf, ha.drafts f hf⟩)
      (fun x hx => ?_) (hps ▸ hp.drafts)
    rcases hp.carried with ⟨hc, -⟩ | ⟨f, hf, -⟩
    · exact hc
    · rw [ha.mounted, h.based.serves.noFile (h.based.operation.fresh _ hx)] at hf
      cases hf
  refine ⟨⟨ha.mounted ▸ h.based.serves, hop, ?_, fun hd happ => warm hop (ha.mounted ▸ h.loaded) hd happ⟩,
    ha.mounted ▸ h.loaded⟩
  rw [ha.created, ha.mounted]
  exact h.based.below

/-- The id of the next file is new to an operation. -/
theorem next_new (h : t.Ready size s) (hroom : t.mounted.volume.catalog.nextId ≠ FileId.none) :
    s.names t.mounted.volume.catalog.nextId = none ∧
      t.mounted.volume.catalog.nextId ∉ t.operation.deleted ∧
      (∀ i, t.operation.draft? t.mounted.volume.catalog.nextId i = none) ∧
      ∀ x, ¬ t.operation.Sees s t.mounted.volume.catalog.nextId x := by
  obtain ⟨hnone, -⟩ := h.based.serves.reserve hroom
  have hno : ∀ x, ¬ t.operation.Sees s t.mounted.volume.catalog.nextId x := by
    rintro x (hc | ⟨hn, -⟩)
    · exact UInt32.lt_irrefl _ (h.based.below _ hc)
    · rw [hnone] at hn
      cases hn
  exact ⟨hnone, fun hd => h.based.operation.deleted _ hd hnone, (h.based.operation.idle hno).1, hno⟩

/-- A file is added under a name that no file carries. -/
theorem addFile (h : t.Ready size s) (hroom : t.mounted.volume.catalog.nextId ≠ FileId.none)
    (hfree : (Transaction.fileExists name).Gives t false t) : (t.withFile name).Ready size s := by
  have hover : ((Transaction.addFile name).start t).2.Over size s := h.based.addFile hroom
  rw [(addFile_free hfree).eq] at hover
  exact ⟨hover, h.loaded⟩

theorem sees_withFile {t : Transaction} {f : FileId} {x : String} :
    (t.withFile name).operation.Sees s f x ↔
      t.operation.Sees s f x ∨ f = t.mounted.volume.catalog.nextId ∧ x = name := by
  simp only [Operation.Sees, withFile, List.mem_append, List.mem_singleton, Prod.mk.injEq]
  tauto

theorem sees_alters {t t' : Transaction} (ha : Alters id t t') {f : FileId} {x : String} :
    t'.operation.Sees s f x ↔ t.operation.Sees s f x := by
  rw [Operation.Sees, Operation.Sees, ha.created, ha.deleted]

/-- A transaction that has one file more than another one. -/
structure Gains (size : Nat) (s : Stock) (name : String) (t t' : Transaction) : Prop where
  ready : t'.Ready size s
  sees : ∀ {f x}, t'.operation.Sees s f x ↔
    t.operation.Sees s f x ∨ f = t.mounted.volume.catalog.nextId ∧ x = name
  held : s.held t.mounted.volume.catalog.nextId = []
  next : t'.mounted.volume.catalog.nextId = t.mounted.volume.catalog.nextId + 1
  files : t'.mounted.volume.files = t.mounted.volume.files
  leaves : ∀ {f}, f ≠ t.mounted.volume.catalog.nextId → Leaves f t t'

theorem fileExists_false (h : t.Ready size s) (hno : ∀ f, ¬ t.operation.Sees s f name) :
    (Transaction.fileExists name).Gives t false t := by
  obtain ⟨b, hb, hiff⟩ := h.based.fileExists name
  cases b with
  | false => exact hb
  | true => exact absurd (hiff.mp rfl) (not_exists.mpr hno)

/-- A file is added and filled. -/
theorem gains (h : t.Ready size s) (hroom : t.mounted.volume.catalog.nextId ≠ FileId.none)
    (hfree : (Transaction.fileExists name).Gives t false t)
    (ha : Alters t.mounted.volume.catalog.nextId (t.withFile name) t')
    (hf : t'.Finds t.mounted.volume.catalog.nextId [] P) : Gains size s name t t' := by
  obtain ⟨hnone, -⟩ := h.next_new hroom
  have hheld : s.held t.mounted.volume.catalog.nextId = [] := by
    rw [Stock.held, hnone]
    rfl
  have hsees : (t.withFile name).operation.Sees s t.mounted.volume.catalog.nextId name :=
    sees_withFile.mpr (.inr ⟨rfl, rfl⟩)
  have hready := (h.addFile hroom hfree).alter hsees ha (hheld ▸ hf)
  refine ⟨hready, (sees_alters ha).trans sees_withFile, hheld, ?_, ?_,
    fun hne => (Leaves.withFile hne name).trans (.alters ha hne)⟩
  · rw [ha.mounted]
    rfl
  · rw [ha.mounted]
    rfl

/-- A file that is seen can be deleted, and is not seen any more. -/
theorem deleteFile (h : t.Ready size s) (hs : t.operation.Sees s id name) :
    (Transaction.deleteFile id).Gives t () { t with operation := t.operation.withoutFile id } ∧
      Ready size s { t with operation := t.operation.withoutFile id } ∧
      ∀ f x, (t.operation.withoutFile id).Sees s f x ↔ t.operation.Sees s f x ∧ f ≠ id := by
  obtain ⟨pages, hp⟩ := h.shows hs
  have hg : (Transaction.deleteFile id).Gives t () { t with operation := t.operation.withoutFile id } :=
    hp.pageCount.bind (.change _ t)
  have hover := h.based.deleteFile id
  rw [hg.eq] at hover
  exact ⟨hg, ⟨hover, h.loaded⟩, fun f x => h.based.operation.sees_withoutFile⟩

/-- What a commit leaves of the files that an operation sees: the pages are in their places, and
differ in their seals at most. -/
theorem commit {e e' : Engine} {op : Operation} (h : Ready size s ⟨e.mounted, op⟩)
    (hlog : e.journal.log.node = s.logNode) (hg : (Engine.commit op).Gives e () e') :
    ∃ s', e'.mounted.Serves size s' ∧ e'.mounted.Loaded s' ∧ e'.journal.log.node = s'.logNode ∧
      (∀ f x, s'.names f = some x ↔ op.Sees s f x) ∧
      ∀ {f x P}, op.Sees s f x → (∀ ps qs, List.Forall₂ Page.Alike ps qs → (∀ p ∈ ps, p.size = size) →
        P ps → P qs) → Finds ⟨e.mounted, op⟩ f (s.held f) P →
          Finds ⟨e'.mounted, .none⟩ f (s'.held f) P := by
  obtain ⟨⟨s', hf⟩, hsame⟩ := Engine.commit_filled h.based.operation h.based.serves hlog hg
  have hloaded := h.loaded.filled h.based.operation hf
  refine ⟨s', hf.serves, hloaded, by rw [hsame, hf.logNode, hlog], hf.names,
    fun {f x P} hsees hP hfinds => ?_⟩
  obtain ⟨pages, hp, hpages⟩ := hfinds
  have hnamed := (hf.names f x).mpr hsees
  have hresident := hloaded.resident hf.serves hnamed
  obtain ⟨_, _, _, hfile⟩ := hf.serves.file hnamed
  have hheld : s'.held f = s'.pages f := by rw [Stock.held, hnamed]; rfl
  have hps : e.mounted.volume.pageSize = size := h.pageSize
  have hdrafts := hp.drafts
  rw [hps] at hdrafts
  have halike := (hf.pages f x hsees).all hdrafts h.based.serves.room hresident.length_lt
  rw [hheld]
  refine ⟨s'.pages f, ⟨.inr hresident, ?_⟩, hP _ _ halike hdrafts.sizes hpages⟩
  rw [hf.serves.pageSize]
  exact .fresh 0 f hresident.length_lt hfile.sizes

end Ready

end Transaction

end RefStore
