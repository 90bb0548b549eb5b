import RefStore.Proofs.Installs

/-!
# Publishing an operation

What an operation answers about files and pages just before it is committed is what the volume, and
every operation that begins afterwards, answers just after it. Sealing a page that was changed sets
its flags and its checksum; nothing else differs. Main statement: `Engine.Settled.publishes`.
-/

namespace RefStore

/-- Pages of one size that differ in their flags and checksums at most. -/
def Page.EqualButSeal (p q : Page) : Prop :=
  p.size = q.size ∧ ∀ k, k = 0 ∨ 6 ≤ k → p.toList[k]? = q.toList[k]?

theorem Page.Alike.equalButSeal {p q : Page} (h : p.Alike q) (hp : 8 ≤ p.size) : p.EqualButSeal q := by
  refine ⟨h.1, fun k hk => ?_⟩
  have hb : p.bytesAt k 1 = q.bytesAt k 1 := bytesAt_alike (Nat.le_trans (by decide) hp) h (by omega)
  have hfirst (page : Page) : page.toList[k]? = (page.bytesAt k 1)[0]? := by
    rw [getElem?_bytesAt]
    rfl
  rw [hfirst, hfirst, hb]

/-- What is answered about names, files and pages. -/
@[ext]
structure Answers where
  fileExists : String → Checked StorageError Bool
  openFile : String → Checked StorageError FileId
  pageCount : FileId → Checked StorageError PageIndex
  loadPage : FileId → PageIndex → Checked StorageError Page

/-- The same is answered, but that some pages differ in their seals. -/
structure Answers.Match (touched : FileId → PageIndex → Prop) (a b : Answers) : Prop where
  fileExists : ∀ name, a.fileExists name = b.fileExists name
  openFile : ∀ name, a.openFile name = b.openFile name
  pageCount : ∀ id, a.pageCount id = b.pageCount id
  loadPage : ∀ id i, a.loadPage id i = b.loadPage id i ∨ touched id i ∧
    ∃ p q, a.loadPage id i = .ok p ∧ b.loadPage id i = .ok q ∧ p.EqualButSeal q

/-- What is committed. -/
def Mounted.answers (m : Mounted) : Answers where
  fileExists name := .ok (m.volume.idOf? name).isSome
  openFile name := ((findFile name).start m).1
  pageCount id := ((Mounted.pageCount id).start m).1
  loadPage id i := ((Mounted.loadPage id i).start m).1

namespace Transaction

/-- What an operation sees. -/
def answers (t : Transaction) : Answers where
  fileExists name := ((fileExists name).start t).1
  openFile name := ((openFile name).start t).1
  pageCount id := ((pageCount id).start t).1
  loadPage id i := ((loadPage id i).start t).1

/-- A file that the operation added, or that is committed and was not deleted. -/
def Visible (t : Transaction) (id : FileId) (name : String) : Prop :=
  (id, name) ∈ t.operation.created ∨
    t.mounted.volume.catalog.names[id]? = some name ∧ id ∉ t.operation.deleted

/-- A page that the operation changed or appended. -/
def Touches (t : Transaction) (id : FileId) (i : PageIndex) : Prop :=
  ∃ d, (id, i, d) ∈ t.operation.changes

end Transaction

namespace Mounted

variable {m m' : Mounted} {size : Nat} {s s' : Stock} {op : Operation}
  {done : List (FileId × PageIndex × Draft)}

/-- A volume without files. -/
theorem Serves.ofEmpty {m : Mounted} {logNode : Nat} (hroom : 8 ≤ m.volume.pageSize)
    (hc : m.volume.catalog.names = ∅) (hf : m.volume.files = ∅) (hlog : logNode < m.disk.nextNode) :
    m.Serves m.volume.pageSize ⟨fun _ => none, fun _ => [], logNode, []⟩ := by
  have hno {f : FileId} {x : OpenFile} (hx : m.volume.files[f]? = some x) : False := by
    rw [hf] at hx
    simp at hx
  refine ⟨hroom, rfl, ⟨fun f => ?_, nofun⟩, nofun, nofun, fun {f} _ => ?_, fun hx => (hno hx).elim,
    fun hx => (hno hx).elim, hlog⟩
  · rw [hc]
    simp
  · rw [hf]
    simp

/-- What the log has on the disk is of no account for a volume. -/
theorem Serves.logged {e e' : Engine} (h : e.mounted.Serves size s)
    (hlog : e.journal.log.node = s.logNode) (hl : Engine.Logged e e') : e'.mounted.Serves size s := by
  obtain ⟨hv, -, c, hr⟩ := hl
  have hs := h.onDisk (.ofRewrites hr _) fun hf he => h.log hf (hlog ▸ (Option.some.inj he).symm)
  rwa [← hv] at hs

/-- An operation without changes is carried out as it is. -/
theorem Serves.filled (h : m.Serves size s) (he : op.isEmpty = true) :
    Filled size s s op op.changes m m := by
  simp only [Operation.isEmpty, Bool.and_eq_true, List.isEmpty_iff,
    Std.TreeSet.isEmpty_iff_forall_not_mem] at he
  obtain ⟨⟨hcreated, hdeleted⟩, hchanges⟩ := he
  have hsees (f : FileId) (x : String) : s.names f = some x ↔ op.Sees s f x := by
    simp [Operation.Sees, hcreated, hdeleted f]
  refine ⟨h, rfl, hsees, fun f x hf => ?_, by simp [hchanges], fun _ _ _ _ _ _ => rfl⟩
  rw [hchanges, Stock.held, (hsees f x).mpr hf]
  exact .start f _

theorem shown_congr {f g : OpenFile} {id : FileId} {i : PageIndex} (hf : m.volume.files[id]? = some f)
    (hg : m'.volume.files[id]? = some g) (h : m'.glance id i = m.glance id i) (p : Page) :
    g.shown i p = f.shown i p := by
  rw [glance, glance, hf, hg, Option.map_some, Option.map_some, Option.some.injEq, Prod.mk.injEq] at h
  rw [OpenFile.shown, OpenFile.shown, h.1, h.2]

end Mounted

namespace Transaction.Over

open Mounted

variable {m' : Mounted} {size : Nat} {s s' : Stock} {t : Transaction}

/-- A page that an operation has left alone is loaded as before. -/
theorem loadPage_same (h : t.Over size s)
    (hf : Filled size s s' t.operation t.operation.changes t.mounted m') {id : FileId} {name : String}
    {pages : List Page} {i : PageIndex} (hs : t.operation.Sees s id name)
    (hp : t.operation.Drafts id size (s.held id) pages) (hlt : i.toNat < pages.length)
    (hno : ∀ d, (id, i, d) ∉ t.operation.changes) :
    t.answers.loadPage id i = m'.answers.loadPage id i := by
  have hbase : i.toNat < (s.held id).length := by
    by_contra hle
    obtain ⟨e, he⟩ := hp.change_of_le hlt (Nat.le_of_not_lt hle)
    exact hno e he
  -- the file is a committed one that was not deleted
  obtain ⟨x, hx⟩ : ∃ x, s.names id = some x := by
    rw [← Option.isSome_iff_exists]
    by_contra hnone
    rw [Stock.held, if_neg hnone] at hbase
    exact Nat.not_lt_zero _ hbase
  have hheld : s.held id = s.pages id := by
    rw [Stock.held, hx]
    rfl
  have hkept : id ∉ t.operation.deleted := hp.kept
  have hglance := hf.glance id i x hx hkept hno
  rw [hheld] at hbase
  obtain ⟨g, hg, -, -⟩ := hf.serves.file ((hf.names id name).mpr hs)
  have hstaged := (hf.pages id name hs).kept i hno (hheld ▸ hbase)
  rw [hheld, List.getElem?_eq_getElem hbase] at hstaged
  obtain ⟨m₂, hload, -⟩ := hf.serves.loadPage_start hg hstaged
  have hafter : m'.answers.loadPage id i = g.shown i (s.pages id)[i.toNat] := congrArg Prod.fst hload
  rw [hafter]
  cases hd : t.operation.draft? id i with
  | none =>
    obtain ⟨f, hfile, heq, hbefore⟩ := h.loadPage_none hp hs hd (List.getElem?_eq_getElem hlt)
    rw [List.getElem?_eq_getElem hbase] at heq
    rw [Option.some.inj heq, shown_congr hfile hg hglance]
    exact hbefore
  | some d =>
    -- a draft that is no change shows the committed page, and that page is in memory
    obtain ⟨happ, hpage⟩ := hp.page_of_unchanged hd (hno d)
    rw [hheld, List.getElem?_eq_getElem hbase] at hpage
    obtain ⟨y, hy⟩ := warm_iff_glance.mp (h.warm hd happ)
    obtain ⟨g', hg', hwarm⟩ := warm_iff_glance.mpr ⟨y, hglance.trans hy⟩
    rw [hg] at hg'
    obtain rfl := Option.some.inj hg'
    rw [OpenFile.shown, if_pos hwarm, Option.some.inj hpage]
    exact congrArg Prod.fst (h.loadPage_some hp hs hd).eq

/-- A page that an operation has changed is in memory, with a seal. -/
theorem loadPage_changed (h : t.Over size s)
    (hf : Filled size s s' t.operation t.operation.changes t.mounted m') {id : FileId} {name : String}
    {pages : List Page} {i : PageIndex} {d : Draft} (hs : t.operation.Sees s id name)
    (hp : t.operation.Drafts id size (s.held id) pages) (hd : (id, i, d) ∈ t.operation.changes) :
    ∃ p q, t.answers.loadPage id i = .ok p ∧ m'.answers.loadPage id i = .ok q ∧ p.EqualButSeal q := by
  obtain ⟨-, -, ht, hsize⟩ := hp.change hd
  have hroom : 8 ≤ d.overlay.page.size := by
    rw [Overlay.size_page ht, hsize]
    exact h.serves.room
  obtain ⟨g, hg, hwarm⟩ := hf.warm id i d hd
  obtain ⟨m₂, hload, -⟩ := hf.serves.loadPage_start hg ((hf.pages id name hs).page i d hd)
  rw [OpenFile.shown, if_pos hwarm] at hload
  have hbefore := h.loadPage_some hp hs (Operation.mem_changes.mp hd).1
  exact ⟨_, _, congrArg Prod.fst hbefore.eq, congrArg Prod.fst hload,
    (Page.alike_withSeal (Nat.le_trans (by decide) hroom)).equalButSeal hroom⟩

/-- With an operation carried out, the volume answers as the operation did. -/
theorem answers_match (h : t.Over size s)
    (hf : Filled size s s' t.operation t.operation.changes t.mounted m') :
    t.answers.Match t.Touches m'.answers := by
  have hlen {id : FileId} {name : String} {pages : List Page} (hs : t.operation.Sees s id name)
      (hp : t.operation.Drafts id size (s.held id) pages) : (s'.pages id).length = pages.length := by
    obtain ⟨_, _, _, hfile⟩ := hf.serves.file ((hf.names id name).mpr hs)
    exact (hf.pages id name hs).length_eq hp hfile.length_lt
  have hnone {id : FileId} (hno : ¬ ∃ name, t.operation.Sees s id name) : s'.names id = none := by
    rw [Option.eq_none_iff_forall_ne_some]
    exact fun x hx => hno ⟨x, (hf.names id x).mp hx⟩
  constructor
  case fileExists =>
    intro name
    obtain ⟨b, hb, hiff⟩ := h.fileExists name
    have hafter : b = (m'.volume.idOf? name).isSome := by
      rw [Bool.eq_iff_iff, hiff, Option.isSome_iff_exists]
      exact exists_congr fun id => (hf.names id name).symm.trans hf.serves.idOf?_eq_some.symm
    exact (congrArg Prod.fst hb.eq).trans (congrArg Except.ok hafter)
  case openFile =>
    intro name
    by_cases hs : ∃ id, t.operation.Sees s id name
    · obtain ⟨id, hs⟩ := hs
      have hafter := hf.serves.findFile ((hf.names id name).mpr hs)
      exact (congrArg Prod.fst (h.openFile hs).eq).trans (congrArg Prod.fst hafter.eq).symm
    · have hafter := hf.serves.findFile_none fun id hid => hs ⟨id, (hf.names id name).mp hid⟩
      exact (congrArg Prod.fst (h.openFile_none (not_exists.mp hs))).trans (congrArg Prod.fst hafter).symm
  case pageCount =>
    intro id
    by_cases hs : ∃ name, t.operation.Sees s id name
    · obtain ⟨name, hs⟩ := hs
      obtain ⟨pages, hp⟩ := h.operation.drafts hs
      have hafter := hf.serves.pageCount ((hf.names id name).mpr hs)
      rw [hlen hs hp] at hafter
      exact (congrArg Prod.fst (h.pageCount hp hs).eq).trans (congrArg Prod.fst hafter.eq).symm
    · have hafter := hf.serves.pageCount_none (hnone hs)
      exact (congrArg Prod.fst (h.pageCount_none (not_exists.mp hs))).trans (congrArg Prod.fst hafter).symm
  case loadPage =>
    intro id i
    by_cases hs : ∃ name, t.operation.Sees s id name
    swap
    · have hafter := hf.serves.loadPage_none (hnone hs) i
      exact .inl ((congrArg Prod.fst (h.loadPage_unseen (not_exists.mp hs) i)).trans
        (congrArg Prod.fst hafter).symm)
    obtain ⟨name, hs⟩ := hs
    obtain ⟨pages, hp⟩ := h.operation.drafts hs
    by_cases hlt : i.toNat < pages.length
    swap
    · obtain ⟨g, hg, -, -⟩ := hf.serves.file ((hf.names id name).mpr hs)
      have hafter := hf.serves.loadPage_outside hg (i := i) (by rw [hlen hs hp]; exact Nat.le_of_not_lt hlt)
      rw [hlen hs hp] at hafter
      exact .inl ((congrArg Prod.fst (h.loadPage_outside hp hs (Nat.le_of_not_lt hlt))).trans
        (congrArg Prod.fst hafter).symm)
    by_cases hc : ∃ d, (id, i, d) ∈ t.operation.changes
    · obtain ⟨d, hd⟩ := hc
      exact .inr ⟨⟨d, hd⟩, h.loadPage_changed hf hs hp hd⟩
    · exact .inl (h.loadPage_same hf hs hp hlt (not_exists.mp hc))

end Transaction.Over

namespace Mounted

/-- An operation that begins sees what is committed. -/
theorem Serves.answers_none {m : Mounted} {size : Nat} {s : Stock} (h : m.Serves size s) :
    (⟨m, .none⟩ : Transaction).answers = m.answers := by
  have hmatch := (Transaction.Over.begun h 0).answers_match (h.filled rfl)
  have hpage (id : FileId) (i : PageIndex) :
      (⟨m, .none⟩ : Transaction).answers.loadPage id i = m.answers.loadPage id i :=
    (hmatch.loadPage id i).resolve_right fun ⟨⟨_, hd⟩, _⟩ => List.not_mem_nil hd
  exact Answers.ext (funext hmatch.fileExists) (funext hmatch.openFile) (funext hmatch.pageCount)
    (funext₂ hpage)

end Mounted

namespace Engine

open Mounted

variable {e e' : Engine} {size : Nat} {s : Stock} {op : Operation} {id : OperationId} {t : Transaction}

/-- An engine between operations. Its volume serves the files that are committed, and the log is none of
them. -/
def Settled (e : Engine) : Prop :=
  ∃ size s, e.mounted.Serves size s ∧ e.journal.log.node = s.logNode

/-- A commit that succeeds carries the operation out. -/
theorem commit_filled (hop : op.Over size s) (h : e.mounted.Serves size s)
    (hlog : e.journal.log.node = s.logNode) (hg : (commit op).Gives e () e') :
    (∃ s', Filled size s s' op op.changes e.mounted e'.mounted) ∧ e'.journal.log = e.journal.log := by
  rcases commit_gives hg with ⟨hempty, rfl⟩ | ⟨-, e₁, m, hl, hi, hl'⟩
  · exact ⟨⟨s, h.filled hempty⟩, rfl⟩
  · obtain ⟨s', hf⟩ := install_gives_filled hop (h.logged hlog hl) hi
    have hlog' : e₁.journal.log.node = s'.logNode := by rw [hl.log, hf.logNode, hlog]
    have hs' := hf.serves.logged (e := { e₁ with mounted := m }) hlog' hl'
    have hv : e'.mounted.volume = m.volume := hl'.volume
    refine ⟨⟨s', hs', hf.logNode, hf.names, hf.pages, fun f i d hd => ?_, fun f i x hx hd hno => ?_⟩,
      hl'.log.trans hl.log⟩
    · rw [Warm, hv]
      exact hf.warm f i d hd
    · rw [glance, hv]
      refine (hf.glance f i x hx hd hno).trans ?_
      rw [glance, glance, hl.volume]

/-- An engine with an empty log on an empty volume. -/
def blank : Engine :=
  ⟨⟨{ Disk.empty with nextNode := 1 }, ⟨.top, 1024, 1, .empty, ∅⟩⟩, ⟨⟨0, false⟩, 1, false⟩⟩

namespace Settled

/-- A volume without files is settled. -/
theorem ofEmpty (hroom : 8 ≤ e.mounted.volume.pageSize) (hc : e.mounted.volume.catalog.names = ∅)
    (hf : e.mounted.volume.files = ∅) (hlog : e.journal.log.node < e.mounted.disk.nextNode) :
    e.Settled :=
  ⟨_, _, .ofEmpty hroom hc hf hlog, rfl⟩

/-- Nothing is lost when an operation is given up. -/
theorem giveUp (h : e.Settled) (ht : Edits e.mounted id t) : { e with mounted := t.mounted }.Settled := by
  obtain ⟨size, s, hs, hlog⟩ := h
  exact ⟨size, s, (ht.over hs).serves, hlog⟩

theorem commit (h : e.Settled) (ht : Edits e.mounted id t)
    (hg : (Engine.commit t.operation).Gives { e with mounted := t.mounted } () e') : e'.Settled := by
  obtain ⟨size, s, hs, hlog⟩ := h
  have hover := ht.over hs
  obtain ⟨⟨s', hf⟩, hsame⟩ := commit_filled (e := { e with mounted := t.mounted }) hover.operation hover.serves hlog hg
  exact ⟨size, s', hf.serves, by rw [hsame, hf.logNode]; exact hlog⟩

/-- At every moment of an operation a name is known if and only if the file with that name can be
opened, and at most one visible file carries it. If the operation is committed, the volume and the
operations that begin answer as it did, but for the seals of pages that it touched. -/
theorem publishes (h : e.Settled) (ht : Edits e.mounted id t) :
    (∀ name, t.answers.fileExists name = .ok true ↔ ∃ f, t.answers.openFile name = .ok f) ∧
    (∀ name f g, t.Visible f name → t.Visible g name → f = g) ∧
    ∀ e', (Engine.commit t.operation).Gives { e with mounted := t.mounted } () e' →
      t.answers.Match t.Touches e'.mounted.answers ∧
      t.answers.Match t.Touches (⟨e'.mounted, .none⟩ : Transaction).answers := by
  obtain ⟨size, s, hs, hlog⟩ := h
  have hover := ht.over hs
  have hvisible {f : FileId} {name : String} : t.Visible f name ↔ t.operation.Sees s f name := by
    rw [Transaction.Visible, hover.serves.catalog.name]
    exact Iff.rfl
  refine ⟨fun name => ?_, fun name f g hf hg => ?_, fun e' hg => ?_⟩
  · obtain ⟨b, hb, hiff⟩ := hover.fileExists name
    have hexists : t.answers.fileExists name = .ok b := congrArg Prod.fst hb.eq
    rw [hexists, Except.ok.injEq, hiff]
    constructor
    · rintro ⟨f, hf⟩
      exact ⟨f, congrArg Prod.fst (hover.openFile hf).eq⟩
    · rintro ⟨f, hf⟩
      by_contra hno
      have := (congrArg Prod.fst (hover.openFile_none (not_exists.mp hno))).symm.trans hf
      cases this
  · exact hover.operation.sees_unique hs.inj (hvisible.mp hf) (hvisible.mp hg)
  · obtain ⟨⟨s', hf⟩, -⟩ := commit_filled (e := { e with mounted := t.mounted }) hover.operation hover.serves hlog hg
    have hmatch := hover.answers_match hf
    exact ⟨hmatch, hf.serves.answers_none ▸ hmatch⟩

/-- A file that is added to an empty volume is found under its name after the commit. -/
theorem openFile_after_addFile : ∃ (e : Engine) (t : Transaction) (e' : Engine), e.Settled ∧
    Edits e.mounted 1 t ∧ t.Visible 0 "a" ∧
    (Engine.commit t.operation).Gives { e with mounted := t.mounted } () e' ∧
    e'.mounted.answers.openFile "a" = .ok 0 := by
  have hs : blank.Settled := .ofEmpty (by decide) rfl rfl (by decide)
  have ht := Edits.request (@Edits.begun blank.mounted 1) (.addFile "a")
    (show (0 : FileId) ≠ FileId.none by decide)
  obtain ⟨t, heq⟩ : ∃ t, t = ((Request.addFile "a").run.start ⟨blank.mounted, .fresh 1⟩).2 := ⟨_, rfl⟩
  have hvisible : (0, "a") ∈ t.operation.created := by
    rw [heq]
    decide +kernel
  have hbefore : t.answers.openFile "a" = .ok 0 := by
    rw [heq]
    decide +kernel
  have hok : ((Engine.commit t.operation).start { blank with mounted := t.mounted }).1.isOk := by
    rw [heq]
    decide +kernel
  rw [← heq] at ht
  rcases hr : (Engine.commit t.operation).start { blank with mounted := t.mounted } with ⟨_ | _, e'⟩
  · rw [hr] at hok
    cases hok
  · obtain ⟨hmatch, -⟩ := (hs.publishes ht).2.2 e' hr
    exact ⟨blank, t, e', hs, ht, .inl hvisible, hr, (hmatch.openFile "a").symm.trans hbefore⟩

end Settled

end Engine

end RefStore
