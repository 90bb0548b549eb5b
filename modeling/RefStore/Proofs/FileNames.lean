import Mathlib.Logic.Function.Basic
import RefStore.Proofs.FileContents
import RefStore.Proofs.Isolation
import RefStore.Proofs.LastingCalls
import RefStore.Proofs.Maps
import RefStore.Proofs.Shelves

/-!
# Names of files in an operation

An operation sees files by names that no two share. What is done to pages leaves the names alone, a new
file gets the next id, and a file that is seen can be deleted. When the operation is committed, the
catalog has the names that it saw. Main statements: `Transaction.Titled.lasting`, `Transaction.Titled.commit`.
-/

namespace RefStore

/-- A volume whose files are open, have different names, and ids that were handed out. -/
structure Volume.Listed (v : Volume) : Prop where
  apart : ∀ {f g : FileId} {x}, v.catalog.names[f]? = some x → v.catalog.names[g]? = some x → f = g
  opened : ∀ {f : FileId} {x}, v.catalog.names[f]? = some x → f ∈ v.files
  below : ∀ {f : FileId}, f ∈ v.files → f < v.catalog.nextId

theorem Volume.Listed.idOf?_eq_some {v : Volume} (h : v.Listed) {f : FileId} {x : String} :
    v.idOf? x = some f ↔ v.catalog.names[f]? = some x := by
  have hlists : v.catalog.Lists fun f => v.catalog.names[f]? := ⟨fun _ => rfl, fun hx => h.below (h.opened hx)⟩
  exact hlists.idOf?_eq_some h.apart

theorem Mounted.Serves.listed {m : Mounted} {size : Nat} {s : Stock} (h : m.Serves size s) : m.volume.Listed where
  apart hf hg := h.inj ((h.catalog.name _).symm.trans hf) ((h.catalog.name _).symm.trans hg)
  opened {f x} hf := by
    obtain ⟨g, hg, -⟩ := h.file ((h.catalog.name f).symm.trans hf)
    exact Std.TreeMap.mem_iff_isSome_getElem?.mpr (hg ▸ rfl)
  below {f} hf := by
    cases hx : s.names f with
    | none =>
      have hopen := Std.TreeMap.mem_iff_isSome_getElem?.mp hf
      rw [h.noFile hx] at hopen
      cases hopen
    | some x => exact h.catalog.next hx

namespace Transaction

variable {size : Nat} {names : FileId → Option String} {next f : FileId} {t t' : Transaction} {x : String}

/-- A transaction that sees files by some names. -/
structure Titled (size : Nat) (names : FileId → Option String) (next : FileId) (t : Transaction) : Prop where
  listed : t.mounted.volume.Listed
  pageSize : t.mounted.volume.pageSize = size
  nextId : t.mounted.volume.catalog.nextId = next
  visible : ∀ {f x}, t.Visible f x ↔ names f = some x
  apart : ∀ {f g x}, names f = some x → names g = some x → f = g
  made : ∀ {f x}, (f, x) ∈ t.operation.created → f ∈ t.operation.counts ∧ f ∉ t.mounted.volume.files
  gone : ∀ f ∈ t.operation.deleted, f ∈ t.mounted.volume.files
  reaches : ∀ {f}, t.Reaches f → f < next
  drafted : ∀ {f i d}, t.operation.draft? f i = some d → f < next

namespace Titled

/-- An operation that begins sees the committed files. -/
theorem begun {m : Mounted} (h : m.volume.Listed) (id : OperationId) :
    Titled m.volume.pageSize (fun f => m.volume.catalog.names[f]?) m.volume.catalog.nextId ⟨m, .fresh id⟩ where
  listed := h
  pageSize := rfl
  nextId := rfl
  visible := by simp [Visible, Operation.fresh]
  apart := h.apart
  made := nofun
  gone f hf := by simp [Operation.fresh] at hf
  reaches hf := by
    rcases hf with hf | hf
    · simp [Operation.fresh] at hf
    · exact h.below hf
  drafted hd := by simp [Operation.fresh, Operation.draft?] at hd

/-- To read a page into memory leaves the names alone. -/
theorem loadPage_keeps (file : FileId) (i : PageIndex) :
    (liftM (Mounted.loadPage file i) : Task Transaction StorageError Page).Keeps (Titled size names next) := by
  intro t h
  have hsame := Mounted.Unchanged.loaded t.mounted file i
  have hnext : (Mounted.loadPage file i).Keeps fun m => m.volume.catalog.nextId = next := by
    refine .bind (Mounted.openFile_keeps _ file) fun f => ?_
    split
    · exact .pure _
    · refine .guarded (.refuse _) (.bind .state fun m => .bind (.inPart (fun _ _ h => h) _) fun page => ?_)
      exact .bind (.ofChecked _) fun _ => .bind (.change fun m h => h) fun _ => .pure _
  have hnext' := hnext t.mounted h.nextId
  show Titled size names next ⟨((Mounted.loadPage file i).start t.mounted).2, t.operation⟩
  generalize ((Mounted.loadPage file i).start t.mounted).2 = m at hsame hnext' ⊢
  have hfiles (f : FileId) : f ∈ m.volume.files ↔ f ∈ t.mounted.volume.files := by
    have hfile := congrArg Option.isSome (hsame.file f)
    rw [Option.isSome_map, Option.isSome_map] at hfile
    rw [Std.TreeMap.mem_iff_isSome_getElem?, Std.TreeMap.mem_iff_isSome_getElem?, hfile]
  refine ⟨⟨?_, ?_, ?_⟩, hsame.pageSize.trans h.pageSize, hnext', ?_, h.apart, ?_, ?_, ?_, h.drafted⟩
  · rw [hsame.names]
    exact h.listed.apart
  · intro f x hx
    rw [hsame.names] at hx
    exact (hfiles f).mpr (h.listed.opened hx)
  · intro f hf
    rw [hnext', ← h.nextId]
    exact h.listed.below ((hfiles f).mp hf)
  · intro f x
    rw [Visible, hsame.names]
    exact h.visible
  · intro f x hx
    exact (h.made hx).imp_right fun hno => (hfiles f).not.mpr hno
  · exact fun f hf => (hfiles f).mpr (h.gone f hf)
  · rintro f (hf | hf)
    · exact h.reaches (.inl hf)
    · exact h.reaches (.inr ((hfiles f).mp hf))

/-- What is done to pages leaves the names alone. -/
theorem lasting : Lasting (Titled size names next) where
  load := loadPage_keeps
  note {t file} i d hreach h := by
    refine ⟨h.listed, h.pageSize, h.nextId, h.visible, h.apart, h.made, h.gone, h.reaches, fun {f j e} he => ?_⟩
    rw [Operation.draft?_withDraft] at he
    split at he
    · next hf => exact hf.1 ▸ h.reaches hreach
    · exact h.drafted he
  count {t file} n hreach h := by
    refine ⟨h.listed, h.pageSize, h.nextId, h.visible, h.apart, fun hx => ?_, h.gone, fun {f} hf => ?_, h.drafted⟩
    · exact (h.made hx).imp_left fun hc => Std.TreeMap.mem_insert.mpr (.inr hc)
    · rcases hf with hf | hf
      · rcases Std.TreeMap.mem_insert.mp hf with he | hf
        · obtain rfl : file = f := by simpa using he
          exact h.reaches hreach
        · exact h.reaches (.inl hf)
      · exact h.reaches (.inr hf)

section

variable (h : t.Titled size names next)

include h

/-- A name is known if a file that is seen has it. -/
theorem fileExists (x : String) : ∃ b, (fileExists x).Gives t b t ∧ (b = true ↔ ∃ f, names f = some x) := by
  rw [Transaction.fileExists]
  cases hc : t.operation.createdId? x with
  | some f =>
    obtain ⟨e, he, rfl⟩ := Option.map_eq_some_iff.mp hc
    have hname : e.2 = x := by simpa using List.find?_some he
    refine ⟨true, (Task.Gives.state t).bind ?_, fun _ => ⟨e.1, h.visible.mp (.inl ?_)⟩, fun _ => rfl⟩
    · rw [hc]
      exact .pure true t
    · rw [← hname]
      exact List.mem_of_find?_eq_some he
  | none =>
    have hno (f : FileId) : (f, x) ∉ t.operation.created := fun hf => by
      have := List.find?_eq_none.mp (Option.map_eq_none_iff.mp hc) (f, x) hf
      simp at this
    cases hid : t.mounted.volume.idOf? x with
    | none =>
      refine ⟨false, (Task.Gives.state t).bind ?_, fun hb => absurd hb Bool.false_ne_true, ?_⟩
      · rw [hc, hid]
        exact .pure false t
      · rintro ⟨f, hf⟩
        rcases h.visible.mpr hf with hf | ⟨hf, -⟩
        · exact absurd hf (hno f)
        · rw [h.listed.idOf?_eq_some.mpr hf] at hid
          cases hid
    | some f =>
      have hf := h.listed.idOf?_eq_some.mp hid
      refine ⟨!t.operation.deleted.contains f, (Task.Gives.state t).bind ?_, fun hb => ?_, ?_⟩
      · rw [hc, hid]
        exact .pure _ t
      · exact ⟨f, h.visible.mp (.inr ⟨hf, by simpa [← Std.TreeSet.contains_iff_mem] using hb⟩)⟩
      · rintro ⟨g, hg⟩
        rcases h.visible.mpr hg with hg | ⟨hg, hkept⟩
        · exact absurd hg (hno g)
        · obtain rfl := h.listed.apart hf hg
          rw [Bool.not_eq_true', ← Bool.not_eq_true, Std.TreeSet.contains_iff_mem]
          exact hkept

/-- The next id is none of a file in reach. -/
theorem next_unseen : names next = none := by
  rw [Option.eq_none_iff_forall_ne_some]
  intro x hx
  refine UInt32.lt_irrefl next (h.reaches ?_)
  rcases h.visible.mpr hx with hc | ⟨hn, -⟩
  · exact .inl (h.made hc).1
  · exact .inr (h.listed.opened hn)

theorem next_idle : next ∉ t.operation.deleted ∧ ∀ i, t.operation.draft? next i = none := by
  refine ⟨fun hd => UInt32.lt_irrefl next (h.reaches (.inr (h.gone _ hd))), fun i => ?_⟩
  rw [Option.eq_none_iff_forall_ne_some]
  exact fun d hd => UInt32.lt_irrefl next (h.drafted hd)

/-- Files that are seen have ids that were handed out. -/
theorem lt_of_name (hf : names f = some x) : f < next := by
  rcases h.visible.mpr hf with hc | ⟨hn, -⟩
  · exact h.reaches (.inl (h.made hc).1)
  · exact h.reaches (.inr (h.listed.opened hn))

/-- A new file is seen under the next id. -/
theorem withFile (hroom : next.toNat + 1 < UInt32.size) (hfree : ∀ f, names f ≠ some x) :
    (t.withFile x).Titled size (Function.update names next (some x)) (next + 1) := by
  obtain ⟨hlt, -⟩ := Shelved.lt_next hroom
  have hnext := h.nextId
  have hmore {f : FileId} (hf : f < next) : f < next + 1 := UInt32.lt_trans hf hlt
  have hold {f : FileId} {y : String} : Function.update names next (some x) f = some y ↔
      names f = some y ∨ f = next ∧ x = y := by
    by_cases hf : f = next
    · subst hf
      simp [h.next_unseen]
    · simp [hf]
  have hnext' : (t.withFile x).mounted.volume.catalog.nextId = next + 1 := by
    rw [← hnext]
    rfl
  refine ⟨⟨h.listed.apart, h.listed.opened, fun {f} hf => ?_⟩, h.pageSize, hnext', fun {f y} => ?_,
    fun {f g y} hf hg => ?_, fun {f y} hf => ?_, h.gone, fun {f} hf => ?_, fun hd => hmore (h.drafted hd)⟩
  · rw [hnext']
    exact hmore (h.reaches (.inr hf))
  · rw [hold, ← h.visible, Visible, Visible, ← hnext]
    simp only [Transaction.withFile, List.mem_append, List.mem_singleton, Prod.mk.injEq, Catalog.reserve]
    rw [or_right_comm, eq_comm (a := y)]
  · rcases hold.mp hf with hf' | ⟨he, hx⟩ <;> rcases hold.mp hg with hg' | ⟨he', hx'⟩
    · exact h.apart hf' hg'
    · exact absurd (hx' ▸ hf') (hfree f)
    · exact absurd (hx ▸ hg') (hfree g)
    · exact he.trans he'.symm
  · rcases List.mem_append.mp hf with hf | hf
    · exact (h.made hf).imp_left fun hc => Std.TreeMap.mem_insert.mpr (.inr hc)
    · obtain ⟨rfl, rfl⟩ := Prod.mk.injEq .. ▸ List.mem_singleton.mp hf
      refine ⟨Std.TreeMap.mem_insert_self, fun hf => UInt32.lt_irrefl _ (h.listed.below hf)⟩
  · rcases hf with hf | hf
    · rcases Std.TreeMap.mem_insert.mp hf with he | hf
      · have he : t.mounted.volume.catalog.nextId = f := by simpa using he
        rw [← he, hnext]
        exact hlt
      · exact hmore (h.reaches (.inl hf))
    · exact hmore (h.reaches (.inr hf))

theorem not_deleted (hf : names f = some x) : f ∉ t.operation.deleted := by
  rcases h.visible.mpr hf with hc | ⟨-, hkept⟩
  · exact fun hd => (h.made hc).2 (h.gone f hd)
  · exact hkept

/-- The pages of a file that is seen can be counted. -/
theorem pageCount_gives (hf : names f = some x) : ∃ n, (pageCount f).Gives t n t := by
  have hkept := Std.TreeSet.contains_iff_mem.not.mpr (h.not_deleted hf)
  rw [pageCount]
  cases hn : t.operation.counts[f]? with
  | some n =>
    refine ⟨n, (Task.Gives.state t).bind ?_⟩
    rw [if_neg hkept, hn]
    exact .pure n t
  | none =>
    have hopen : f ∈ t.mounted.volume.files := by
      rcases h.visible.mpr hf with hc | ⟨hx, -⟩
      · have := Std.TreeMap.mem_iff_isSome_getElem?.mp (h.made hc).1
        rw [hn] at this
        cases this
      · exact h.listed.opened hx
    obtain ⟨g, hg⟩ := Option.isSome_iff_exists.mp (Std.TreeMap.mem_iff_isSome_getElem?.mp hopen)
    refine ⟨g.file.pageCount, (Task.Gives.state t).bind ?_⟩
    rw [if_neg hkept, hn]
    have hmounted : (Mounted.pageCount f).Gives t.mounted g.file.pageCount t.mounted :=
      (Mounted.openFile_known hg).bind (.pure _ _)
    exact hmounted.onPart

/-- A file that is seen can be deleted. -/
theorem deleteFile (hf : names f = some x) :
    ∃ t', (deleteFile f).Gives t () t' ∧ t'.Titled size (Function.update names f none) next := by
  obtain ⟨n, hn⟩ := h.pageCount_gives hf
  refine ⟨_, hn.bind (.change _ t), h.listed, h.pageSize, h.nextId, fun {g y} => ?_, fun hg hg' => ?_,
    fun {g y} hg => ?_, fun g hg => ?_, fun {g} hg => ?_, fun {g i d} hd => ?_⟩
  · rw [update_none_eq_some, ← h.visible, Visible, Visible, Operation.Over.mem_created_withoutFile,
      Operation.Over.mem_deleted_withoutFile]
    by_cases hgf : g = f
    · subst hgf
      -- a file that was added is none of the committed ones
      refine ⟨fun hg => (hg.elim (fun hc => hc.2 rfl) fun hn => hn.2 (.inr ⟨rfl, fun y hy => ?_⟩)).elim,
        fun hg => absurd rfl hg.1⟩
      exact (h.made hy).2 (h.listed.opened hn.1)
    · simp [hgf]
  · exact h.apart (update_none_eq_some.mp hg).2 (update_none_eq_some.mp hg').2
  · obtain ⟨hc, hne⟩ := Operation.Over.mem_created_withoutFile.mp hg
    refine (h.made hc).imp_left fun hcount => Std.TreeMap.mem_erase.mpr ⟨?_, hcount⟩
    simpa using Ne.symm hne
  · rcases Operation.Over.mem_deleted_withoutFile.mp hg with hg | ⟨rfl, hno⟩
    · exact h.gone g hg
    · rcases h.visible.mpr hf with hc | ⟨hx, -⟩
      · exact absurd hc (hno x)
      · exact h.listed.opened hx
  · rcases hg with hg | hg
    · exact h.reaches (.inl (Std.TreeMap.mem_of_mem_erase hg))
    · exact h.reaches (.inr hg)
  · have hold : (t.operation.withoutFile f).draft? g i = some d := hd
    rw [Operation.draft?, Operation.withoutFile, lookup_erase] at hold
    split at hold
    · cases hold
    · exact h.drafted hold

section

variable (hroom : next.toNat + 1 < UInt32.size)

include hroom

/-- A file is added under a free name. -/
theorem addFile (hfree : ∀ f, names f ≠ some x) : (Transaction.fileExists x).Gives t false t ∧
    ((Transaction.addFile x).start t).2.Titled size (Function.update names next (some x)) (next + 1) := by
  obtain ⟨b, hb, hiff⟩ := h.fileExists x
  obtain rfl : b = false := by
    rw [Bool.eq_false_iff, Ne, hiff]
    exact fun ⟨f, hf⟩ => hfree f hf
  rw [(addFile_free hb).eq]
  exact ⟨hb, h.withFile hroom hfree⟩

variable (hample : Tree.Ample size)

include hample

/-- A tree is made under a free name. -/
theorem createTree {tree : Tree} (hfree : ∀ f, names f ≠ some tree.fileName) : ∃ t',
    tree.create.Gives t (tree.attached next) t' ∧
      t'.Titled size (Function.update names next (some tree.fileName)) (next + 1) := by
  obtain ⟨hb, hadd⟩ := h.addFile hroom hfree
  obtain ⟨hdel, hdraft⟩ := h.next_idle
  obtain ⟨rfl⟩ := h.nextId
  obtain ⟨t', s, hg, -⟩ := Tree.exists_create hb hdel hdraft (h.pageSize.symm ▸ hample)
  have hlasts := Tree.create_lasts lasting tree hadd
  rw [hg.eq] at hlasts
  exact ⟨t', hg, hlasts⟩

/-- So is a size map. -/
theorem createSizes {m : SizeMap} (hfree : ∀ f, names f ≠ some m.fileName) : ∃ t',
    m.create.Gives t (m.attached next) t' ∧
      t'.Titled size (Function.update names next (some m.fileName)) (next + 1) := by
  obtain ⟨hb, hadd⟩ := h.addFile hroom hfree
  obtain ⟨hdel, hdraft⟩ := h.next_idle
  obtain ⟨rfl⟩ := h.nextId
  obtain ⟨rfl⟩ := h.pageSize
  obtain ⟨t', hg, -⟩ := SizeMap.exists_create hb hdel hdraft (Nat.le_trans (by decide) hample.1) hample.2
  have hlasts := SizeMap.create_lasts lasting m hadd
  rw [hg.eq] at hlasts
  exact ⟨t', hg, hlasts⟩

end

end

end Titled

end Transaction

/-! ## What is committed -/

namespace Mounted

variable {names : FileId → Option String} {m m' : Mounted}

/-- A volume whose catalog has some names, with its files open and their ids handed out. -/
structure Lists (names : FileId → Option String) (m : Mounted) : Prop where
  named : ∀ f : FileId, m.volume.catalog.names[f]? = names f
  opened : ∀ {f x}, names f = some x → f ∈ m.volume.files
  below : ∀ {f}, f ∈ m.volume.files → f < m.volume.catalog.nextId

namespace Lists

theorem congr (h : m.Lists names) (hv : m'.volume = m.volume) : m'.Lists names :=
  ⟨hv ▸ h.named, hv ▸ h.opened, hv ▸ h.below⟩

/-- A file is deleted, with its name. -/
theorem delete {id : FileId} (h : m.Lists names) (hg : (Mounted.delete id).Gives m () m') :
    m'.Lists (Function.update names id none) := by
  have hnamed (f : FileId) : (m.volume.catalog.names.erase id)[f]? = Function.update names id none f := by
    rw [lookup_erase, h.named, Function.update_apply]
  have hopened {f : FileId} {x : String} (hf : Function.update names id none f = some x) :
      f ∈ m.volume.files.erase id := by
    rw [Function.update_apply] at hf
    split at hf
    · cases hf
    · next hne => exact Std.TreeMap.mem_erase.mpr ⟨by simpa using Ne.symm hne, h.opened hf⟩
  have hbelow {f : FileId} (hf : f ∈ m.volume.files.erase id) : f < m.volume.catalog.nextId :=
    h.below (Std.TreeMap.mem_of_mem_erase hf)
  obtain ⟨g, m₁, h₁, hrest⟩ := Task.bind_gives hg
  obtain ⟨-, rfl⟩ := opened_of_openFile h₁
  obtain ⟨_, m₂, h₂, hrest⟩ := Task.bind_gives hrest
  obtain rfl := Task.gives_change h₂
  obtain ⟨_, _, h₃, hrest⟩ := Task.bind_gives hrest
  obtain ⟨rfl, rfl⟩ := (Task.Gives.state _).unique h₃
  dsimp only at hrest
  split at hrest
  · obtain ⟨_, m₃, h₄, hlast⟩ := Task.bind_gives hrest
    have hvolume := recatalog_gives h₄
    obtain ⟨d, -, rfl⟩ := Task.inPart_gives hlast
    have hthere : Lists (Function.update names id none) m₃ := by
      refine ⟨?_, ?_, ?_⟩ <;> rw [hvolume]
      · exact hnamed
      · exact hopened
      · exact hbelow
    exact hthere.congr rfl
  · next hno =>
    obtain ⟨d, -, rfl⟩ := Task.inPart_gives hrest
    have hsame : Function.update names id none = names := by
      rw [Function.update_eq_self_iff, ← h.named]
      simpa using hno
    refine ⟨fun f => ?_, hopened, hbelow⟩
    rw [hsame]
    exact h.named f

/-- A file is made under a name. -/
theorem create {id : FileId} {name : String} (h : m.Lists names) (hid : id ≠ FileId.none)
    (hg : (createWithId id name).Gives m () m') : m'.Lists (Function.update names id (some name)) := by
  obtain ⟨f, -, hvolume⟩ := createWithId_registers hg
  refine ⟨fun g => ?_, fun {g x} hg => ?_, fun {g} hg => ?_⟩
  · rw [hvolume]
    simp only [Catalog.insert, lookup_insert, Function.update_apply, h.named]
  · rw [hvolume]
    rw [Function.update_apply] at hg
    split at hg
    · next he => exact he ▸ Std.TreeMap.mem_insert_self
    · exact Std.TreeMap.mem_insert.mpr (.inr (h.opened hg))
  · rw [hvolume] at hg ⊢
    rcases Std.TreeMap.mem_insert.mp hg with he | hg
    · obtain rfl : id = g := by simpa using he
      exact Catalog.lt_nextId_insert _ hid name
    · exact UInt32.lt_of_lt_of_le (h.below hg) (Catalog.nextId_le_insert _ id name)

theorem installPage {id : FileId} {i : PageIndex} {page : Page} (h : m.Lists names)
    (hg : (Mounted.installPage id i page).Gives m () m') : m'.Lists names := by
  obtain ⟨f, _, h₁, hseal⟩ := Task.bind_gives hg
  obtain ⟨hf, rfl⟩ := opened_of_openFile h₁
  obtain ⟨stored, _, h₂, hwrite⟩ := Task.bind_gives hseal
  obtain ⟨-, rfl⟩ := Task.gives_ofChecked h₂
  obtain ⟨g, _, h₃, hlast⟩ := Task.bind_gives hwrite
  obtain ⟨d, -, rfl⟩ := Task.inPart_gives h₃
  obtain rfl := Task.gives_change hlast
  refine ⟨h.named, fun hx => Std.TreeMap.mem_insert.mpr (.inr (h.opened hx)), fun {k} hk => ?_⟩
  rcases Std.TreeMap.mem_insert.mp hk with he | hk
  · obtain rfl : id = k := by simpa using he
    exact h.below (Std.TreeMap.mem_iff_isSome_getElem?.mpr (hf ▸ rfl))
  · exact h.below hk

/-- Files are deleted one by one. -/
theorem deletes {ids : List FileId} (h : m.Lists names) (hg : (ids.forM Mounted.delete).Gives m () m') :
    m'.Lists fun f => if f ∈ ids then none else names f := by
  induction ids generalizing names m with
  | nil =>
    obtain ⟨-, rfl⟩ := Task.gives_pure hg
    simpa using h
  | cons id ids ih =>
    obtain ⟨_, m₁, h₁, hrest⟩ := Task.bind_gives hg
    have hend := ih (h.delete h₁) hrest
    have hsame : (fun f => if f ∈ ids then none else Function.update names id none f) =
        fun f => if f ∈ id :: ids then none else names f := by
      funext f
      simp only [Function.update_apply, List.mem_cons]
      split <;> split <;> simp_all
    rwa [hsame] at hend

/-- Files are made one by one, none of them twice under different names. -/
theorem creates {es : List (FileId × String)} (h : m.Lists names) (hids : ∀ e ∈ es, e.1 ≠ FileId.none)
    (hsame : ∀ f x y, (f, x) ∈ es → (f, y) ∈ es → x = y)
    (hg : (es.forM fun (file, name) => createWithId file name).Gives m () m') :
    ∃ names', m'.Lists names' ∧
      ∀ f x, names' f = some x ↔ (f, x) ∈ es ∨ (∀ y, (f, y) ∉ es) ∧ names f = some x := by
  induction es generalizing names m with
  | nil =>
    obtain ⟨-, rfl⟩ := Task.gives_pure hg
    exact ⟨names, h, by simp⟩
  | cons e es ih =>
    obtain ⟨id, name⟩ := e
    obtain ⟨_, m₁, h₁, hrest⟩ := Task.bind_gives hg
    obtain ⟨names', hend, hiff⟩ := ih (h.create (hids _ List.mem_cons_self) h₁)
      (fun e he => hids e (List.mem_cons_of_mem _ he))
      (fun f x y hx hy => hsame f x y (List.mem_cons_of_mem _ hx) (List.mem_cons_of_mem _ hy)) hrest
    refine ⟨names', hend, fun f x => ?_⟩
    rw [hiff, Function.update_apply]
    by_cases hf : f = id
    · subst hf
      have hname (y : String) (hy : (f, y) ∈ es) : name = y :=
        hsame f name y List.mem_cons_self (List.mem_cons_of_mem _ hy)
      constructor
      · rintro (hx | ⟨-, hx⟩)
        · exact .inl (List.mem_cons_of_mem _ hx)
        · rw [if_pos rfl] at hx
          exact .inl (Option.some.inj hx ▸ List.mem_cons_self)
      · rintro (hx | ⟨hno, -⟩)
        · rcases List.mem_cons.mp hx with he | hx
          · obtain rfl := (Prod.mk.inj he).2
            by_cases hmore : ∃ y, (f, y) ∈ es
            · obtain ⟨y, hy⟩ := hmore
              exact .inl (hname y hy ▸ hy)
            · exact .inr ⟨not_exists.mp hmore, if_pos rfl⟩
          · exact .inl hx
        · exact absurd List.mem_cons_self (hno name)
    · simp [hf]

/-- Pages are put in place one by one. -/
theorem installs {changes : List (FileId × PageIndex × Draft)} (h : m.Lists names)
    (hg : (changes.forM fun (file, index, d) => Mounted.installPage file index d.overlay.page).Gives m () m') :
    m'.Lists names := by
  induction changes generalizing m with
  | nil =>
    obtain ⟨-, rfl⟩ := Task.gives_pure hg
    exact h
  | cons c changes ih =>
    obtain ⟨_, m₁, h₁, hrest⟩ := Task.bind_gives hg
    exact ih (h.installPage h₁) hrest

end Lists

end Mounted

namespace Transaction.Titled

variable {size : Nat} {names : FileId → Option String} {next : FileId}

/-- When an operation is committed the catalog has the names that it saw. -/
theorem commit {e e' : Engine} {op : Operation} (h : Titled size names next ⟨e.mounted, op⟩)
    (hg : (Engine.commit op).Gives e () e') : e'.mounted.volume.Listed ∧
      ∀ f : FileId, e'.mounted.volume.catalog.names[f]? = names f := by
  suffices hend : e'.mounted.Lists names by
    refine ⟨⟨fun hf hg => ?_, fun hf => hend.opened ((hend.named _).symm.trans hf), hend.below⟩, hend.named⟩
    exact h.apart ((hend.named _).symm.trans hf) ((hend.named _).symm.trans hg)
  have hstart : e.mounted.Lists fun f => e.mounted.volume.catalog.names[f]? :=
    ⟨fun _ => rfl, h.listed.opened, h.listed.below⟩
  rcases Engine.commit_gives hg with ⟨hempty, rfl⟩ | ⟨-, e₁, m, hl, hi, hl'⟩
  · simp only [Operation.isEmpty, Bool.and_eq_true, List.isEmpty_iff,
      Std.TreeSet.isEmpty_iff_forall_not_mem] at hempty
    obtain ⟨⟨hcreated, hdeleted⟩, -⟩ := hempty
    have hsame : (fun f : FileId => e'.mounted.volume.catalog.names[f]?) = names := by
      refine funext fun f => Option.ext fun x => ?_
      rw [← h.visible, Visible, hcreated]
      simp [hdeleted f]
    exact hsame ▸ hstart
  · obtain ⟨_, m₁, h₁, hrest⟩ := Task.bind_gives hi
    obtain ⟨_, m₂, h₂, hrest⟩ := Task.bind_gives hrest
    obtain ⟨_, m₃, h₃, h₄⟩ := Task.bind_gives hrest
    have hdeleted := (hstart.congr hl.volume).deletes h₁
    obtain ⟨names', hcreated, hiff⟩ := hdeleted.creates
      (fun e he => FileId.ne_none_of_lt (h.reaches (.inl (h.made he).1)))
      (fun f x y hx hy => Option.some.inj ((h.visible.mp (.inl hx)).symm.trans (h.visible.mp (.inl hy)))) h₂
    have hsame : names' = names := by
      refine funext fun f => Option.ext fun x => ?_
      rw [hiff, ← h.visible, Visible]
      apply or_congr_right
      constructor
      · rintro ⟨-, hx⟩
        split at hx
        · cases hx
        · next hkept => exact ⟨hx, Std.TreeSet.mem_toList.not.mp hkept⟩
      · rintro ⟨hx, hkept⟩
        refine ⟨fun y hy => (h.made hy).2 (h.listed.opened hx), ?_⟩
        rw [if_neg (Std.TreeSet.mem_toList.not.mpr hkept)]
        exact hx
    rw [hsame] at hcreated
    have hinstalled := hcreated.installs h₃
    have hsynced : m.Lists names := by
      split at h₄
      · exact (Task.Keeps.forM fun f _ => Mounted.sync_keeps (P := Mounted.Lists names)
          (fun _ _ h => h.congr rfl) f).gives h₄ hinstalled
      · obtain ⟨-, rfl⟩ := Task.gives_pure h₄
        exact hinstalled
    exact hsynced.congr hl'.volume

end Transaction.Titled

end RefStore
