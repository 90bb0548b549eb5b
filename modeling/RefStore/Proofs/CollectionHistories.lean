import RefStore.Proofs.CollectionCalls
import RefStore.Proofs.Openings

/-!
# Histories of collections

A history of a store: it is opened on an empty directory, and operations on its collections are
committed or rolled back. In every history the slots of the collections that are alive count their
entries. Main statement: `History.rests`.
-/

namespace RefStore

open Collection (Roll Counted Action)

namespace Collection

/-- The actions of an operation that succeeded so far, one after another. -/
inductive Progress (roll₀ : Roll) (n₀ : Nat) (w₀ : Workspace) : Roll → Nat → Workspace → Prop where
  | nothing : Progress roll₀ n₀ w₀ roll₀ n₀ w₀
  | action {roll n w f w'} (before : Progress roll₀ n₀ w₀ roll n w) (a : Action) (fair : a.Fair roll)
      (room : a.HasRoom w) (run : a.run.Gives w f w') : Progress roll₀ n₀ w₀ (f roll) (n + 1) w'

/-- An operation that passes on every error: its task ends by itself, or with the first action that
fails. -/
inductive Ends (roll₀ : Roll) (n₀ : Nat) (w₀ : Workspace) :
    Checked CollectionError Unit → Roll → Nat → Workspace → Prop where
  | byItself {roll n w} (progress : Progress roll₀ n₀ w₀ roll n w) (result : Checked CollectionError Unit) :
      Ends roll₀ n₀ w₀ result roll n w
  | byAction {roll n w cause w'} (progress : Progress roll₀ n₀ w₀ roll n w) (a : Action) (fair : a.Fair roll)
      (room : a.HasRoom w) (run : a.run.start w = (.error cause, w')) :
      Ends roll₀ n₀ w₀ (.error cause) roll (n + 1) w'

/-- A store that was opened on an empty directory, its collections after any number of operations, and
the number of their actions. A fault ends the history. -/
inductive History (directory : Path) : Store → Roll → Nat → Prop where
  | opened {settings disk d st report disk'} (empty : Disk.OffersEmpty directory disk d)
      (opening : Store.open settings directory disk = (.ok (st, report), disk')) :
      History directory st .empty 0
  | committed {st roll n op e roll' n' st'} (before : History directory st roll n)
      (started : Engine.start.Gives st.engine op e) (t : Task Workspace CollectionError Unit)
      (ends : Ends roll n (.begun st e op) (t.start (.begun st e op)).1 roll' n'
        (t.start (.begun st e op)).2)
      (run : (Store.atomically t).Gives st () st') : History directory st' roll' n'
  | rolledBack {st roll n op e roll' n' cause st'} (before : History directory st roll n)
      (started : Engine.start.Gives st.engine op e) (t : Task Workspace CollectionError Unit)
      (ends : Ends roll n (.begun st e op) (t.start (.begun st e op)).1 roll' n'
        (t.start (.begun st e op)).2)
      (run : (Store.atomically t).start st = (.error (.error cause), st')) : History directory st' roll n'

end Collection

variable {size n n' : Nat} {s : Stock} {shelves : Shelves} {roll roll' roll₀ : Roll} {st st' : Store}
  {e : Engine} {op : Operation} {w w' : Workspace} {p : CollectionPointer} {id : StorageId} {sh : Shelf}

/-! ## Reading a size -/

namespace Workspace

/-- The size of a collection is the number of its entries. -/
def SizeCounts (w : Workspace) (c : Collection) : Prop :=
  ∃ k es, c.size.Gives w k w ∧ c.entries.Gives w es w ∧ k.toInt = es.length

section

variable (h : Tidy size s (Part.get w) w.store.registry shelves roll n) {c : Collection}
  (hid : shelves c.storage = some sh)

include h hid

/-- On its shelf a collection finds its entries, and the number in its slot. -/
theorem entries_gives :
    c.entries.Gives w ((Tree.ownEntries c.id sh.entries).map fun e => (e.key.record, e.value)) w := by
  have hst := h.shelved.stored hid
  have hscan := Tree.scan_finds (h.shelved.filed.attached hst).1 h.shelved.ample h.shelved.ready.pageSize
    (h.shelved.stands hid).tree (.closed (Key.range c.id).1 (Key.range c.id).2) none
  rw [Tree.limited_none] at hscan
  exact (storageAt_gives hst).bind ((Tree.onTree_gives hscan).bind (.pure _ w))

theorem size_gives {k : Int32} (hk : sh.numbers[c.pointer.slot.toNat]? = some k) (h0 : 0 ≤ k) : c.size.Gives w k w := by
  have hst := h.shelved.stored hid
  have hcount := SizeMap.count_finds (h.shelved.filed.attached hst).2 h.shelved.ample h.shelved.ready.pageSize
    (h.shelved.stands hid).sizes hk h0
  exact (storageAt_gives hst).bind (hcount.mapError _).onPart

end

/-- A collection that is alive is found by its pointer, there is only one handle to it, and its size is
the number of its entries. -/
theorem sizeCounts_of_live (h : Tidy size s (Part.get w) w.store.registry shelves roll n)
    (hp : p ∈ roll.live) : ∃ c : Collection, c.pointer = p ∧ (∀ c' ∈ roll.handles, c'.pointer = p → c' = c) ∧
      (Store.loadCollection p).Gives w.store c w.store ∧ w.SizeCounts c := by
  obtain ⟨hpp, id, sh, hid, hf, k, hk, hcount⟩ := h.counted.live p hp
  have h0 : (0 : Int32) ≤ k := by
    rw [Int32.le_iff_toInt_le, hcount]
    exact Int.natCast_nonneg _
  refine ⟨⟨id, p⟩, rfl, fun c' hc' hcp => ?_, Store.loadCollection_gives h hpp hid hf, k, _,
    size_gives h hid hk h0, entries_gives h hid, ?_⟩
  · obtain ⟨x, hx, hxf⟩ := h.exists_shelf hc' (hcp ▸ hp)
    have hi : c'.storage = id := h.knows.sole hx hid (hxf.trans ((congrArg _ hcp).trans hf.symm))
    cases c'
    cases hi
    cases hcp
    rfl
  · rw [List.length_map, Entries.length_ownEntries, hcount]
    rfl

end Workspace

namespace Store

/-- The size of a collection is the number of its entries, as a view of the store shows them. -/
def SizeCounts (st : Store) (c : Collection) : Prop :=
  ∃ k es, (view c.size).Gives st k st ∧ (view c.entries).Gives st es st ∧ k.toInt = es.length

theorem view_gives {α : Type} {t : Task Workspace CollectionError α} {a : α}
    (hu : st.engine.journal.broken = false)
    (h : t.Gives ⟨st, .none, []⟩ a ⟨st, .none, []⟩) : (view t).Gives st a st := by
  rw [Task.Gives, view_start hu, h.eq]

theorem view_refuses {α : Type} (t : Task Workspace CollectionError α)
    (hu : st.engine.journal.broken = true) :
    (view t).start st = (refuse (.storage .recoveryRequired), st) := by
  have hcheck : (liftM Engine.checkUsable : Task Store CollectionError Unit).start st =
      (refuse (.storage .recoveryRequired), st) := by
    show (((Engine.checkUsable.start st.engine).1.mapError CollectionError.storage,
      { st with engine := (Engine.checkUsable.start st.engine).2 }) : Checked CollectionError Unit × Store) = _
    rw [Engine.checkUsable_refuses hu]
    rfl
  rw [view, Task.start_bind, hcheck]
  rfl

/-! ## Operations -/

/-- A store that was opened on an empty directory has no collections. -/
theorem Rests.opened {settings : Settings} {directory : Path} {disk d disk' : Disk}
    {report : RecoveryReport} (h : Disk.OffersEmpty directory disk d)
    (ho : Store.open settings directory disk = (.ok (st, report), disk')) :
    ∃ s, Tidy settings.pageSize s ⟨st.engine.mounted, .none⟩ st.registry (fun _ => none) .empty 0 ∧
      st.engine.journal.log.node = s.logNode := by
  obtain ⟨hvalid, hregistry, hvolume, -, hlog⟩ := open_gives h ho
  have hv : st.engine.mounted.volume = _ := hvolume
  have hample := Tree.Ample.ofSettings hvalid
  have hroom : 8 ≤ st.engine.mounted.volume.pageSize := by
    rw [hv]
    exact Nat.le_trans (by decide) hample.1
  have hs := Mounted.Serves.ofEmpty hroom (by rw [hv]; rfl) (by rw [hv]) hlog
  have hsize : st.engine.mounted.volume.pageSize = settings.pageSize := congrArg Volume.pageSize hv
  rw [hsize] at hs
  refine ⟨_, ⟨⟨.begun hs nofun 0, hample, ?_, nofun, nofun, ?_⟩, ?_, ?_⟩, rfl⟩
  · rw [hregistry]
    exact .empty _
  · rintro f x (hc | ⟨hn, -⟩)
    · cases hc
    · cases hn
  · rw [hregistry]
    exact .empty
  · rw [hregistry]
    exact .empty

/-- An operation begins with what the store has. -/
theorem begun_inHand (h : Tidy size s ⟨st.engine.mounted, .none⟩ st.registry shelves roll n)
    (hlog : st.engine.journal.log.node = s.logNode) (started : Engine.start.Gives st.engine op e) :
    (Workspace.begun st e op).InHand size s roll shelves roll n := by
  obtain ⟨-, rfl, rfl⟩ := Engine.start_eq started
  obtain ⟨hshelved, hknows, hcounted⟩ := h
  exact ⟨⟨hshelved.later hshelved.ready.based.serves rfl hshelved.filed id (Nat.le_refl n) _,
    hknows, hcounted⟩, ⟨shelves, hshelved, hknows, hcounted⟩, hlog⟩

/-- After a commit the store has what the operation had. -/
theorem committed_tidy {α : Type} {a b : α} (h : w.InHand size s roll₀ shelves roll n)
    (hf : w.finish (.ok a) = (.ok b, st')) :
    ∃ s', Tidy size s' ⟨st'.engine.mounted, .none⟩ st'.registry shelves roll n ∧
      st'.engine.journal.log.node = s'.logNode ∧ st'.registry = w.store.registry := by
  rw [Workspace.finish] at hf
  dsimp only at hf
  split at hf
  · next e' hg =>
    cases hf
    obtain ⟨s', hlog, hshelved⟩ := h.now.shelved.commit h.back.log hg
    exact ⟨s', ⟨hshelved, h.now.knows, h.now.counted⟩, hlog, rfl⟩
  · cases hf

/-- After an operation that failed the store has what it had before. -/
theorem Rests.rolledBack {result : Checked CollectionError Unit} {cause : CollectionError}
    (h : w.rollback.Rests size s roll₀ n) (hf : w.finish result = (.error (.error cause), st'))
    (hu : st'.engine.journal.broken = false) : st'.Rests size s roll₀ n := by
  cases result with
  | error cause =>
    cases hf
    exact h
  | ok a =>
    rw [Workspace.finish] at hf
    dsimp only at hf
    split at hf
    · cases hf
    · next c e' hg =>
      cases c with
      | fault kind => cases hf
      | error c =>
        cases hf
        have hl := Engine.commit_fails hg hu
        obtain ⟨⟨shelves, hshelved, hknows, hcounted⟩, hlog⟩ := h
        have hs := Mounted.Serves.logged hshelved.ready.based.serves hlog hl
        have hfiled := hshelved.filed
        refine ⟨⟨shelves, hshelved.later hs (congrArg Volume.files hl.volume) ?_ id (Nat.le_refl n) 0, hknows,
          hcounted⟩, (congrArg Log.node hl.log).trans hlog⟩
        show Filed e'.mounted.volume.catalog.nextId _
        rw [hl.volume]
        exact hfiled

end Store

namespace Collection

theorem Progress.inHand {w₀ : Workspace} {n₀ : Nat} (h : Progress roll₀ n₀ w₀ roll n w)
    (hw : w₀.InHand size s roll₀ shelves roll₀ n₀) (hn : n < 2 ^ 61) :
    ∃ shelves', w.InHand size s roll₀ shelves' roll n := by
  induction h with
  | nothing => exact ⟨shelves, hw⟩
  | action before a fair room run ih =>
    obtain ⟨shelves', h⟩ := ih (Nat.lt_of_succ_lt hn)
    exact (a.run_ends h fair room hn).of_gives run

theorem Ends.rests {w₀ : Workspace} {n₀ : Nat} {result : Checked CollectionError Unit}
    (h : Ends roll₀ n₀ w₀ result roll n w) (hw : w₀.InHand size s roll₀ shelves roll₀ n₀) (hn : n < 2 ^ 61) :
    w.rollback.Rests size s roll₀ n ∧
      (result.isOk = true → ∃ shelves', w.InHand size s roll₀ shelves' roll n) := by
  cases h with
  | byItself progress result =>
    obtain ⟨shelves', h⟩ := progress.inHand hw hn
    exact ⟨h.back, fun _ => ⟨shelves', h⟩⟩
  | byAction progress a fair room run =>
    obtain ⟨shelves', h⟩ := progress.inHand hw (Nat.lt_of_succ_lt hn)
    exact ⟨((a.run_ends h fair room hn).of_error run).mono (Nat.le_succ _), nofun⟩

theorem Progress.le {w₀ : Workspace} {n₀ : Nat} (h : Progress roll₀ n₀ w₀ roll n w) : n₀ ≤ n := by
  induction h with
  | nothing => exact Nat.le_refl _
  | action before a fair room run ih => exact Nat.le_succ_of_le ih

theorem Ends.le {w₀ : Workspace} {n₀ : Nat} {result : Checked CollectionError Unit}
    (h : Ends roll₀ n₀ w₀ result roll n w) : n₀ ≤ n := by
  cases h with
  | byItself progress => exact progress.le
  | byAction progress => exact Nat.le_succ_of_le progress.le

namespace History

variable {directory : Path}

/-- In every history the slots count the entries. -/
theorem rests (h : History directory st roll n) (hn : n < 2 ^ 61)
    (hu : st.engine.journal.broken = false) : ∃ size s, st.Rests size s roll n := by
  induction h with
  | opened empty opening =>
    obtain ⟨s, htidy, hlog⟩ := Store.Rests.opened empty opening
    exact ⟨_, s, ⟨_, htidy⟩, hlog⟩
  | committed before started t ends run ih =>
    obtain ⟨size, s, ⟨shelves, htidy⟩, hlog⟩ :=
      ih (Nat.lt_of_le_of_lt ends.le hn) (Engine.start_eq started).1
    obtain ⟨-, hdone⟩ := ends.rests (Store.begun_inHand htidy hlog started) hn
    obtain ⟨hresult, hfinish⟩ := finish_of_gives started run
    obtain ⟨shelves', h⟩ := hdone (by rw [hresult]; rfl)
    obtain ⟨s', htidy', hlog', -⟩ := Store.committed_tidy h hfinish
    exact ⟨size, s', ⟨shelves', htidy'⟩, hlog'⟩
  | rolledBack before started t ends run ih =>
    obtain ⟨size, s, ⟨shelves, htidy⟩, hlog⟩ :=
      ih (Nat.lt_of_le_of_lt ends.le hn) (Engine.start_eq started).1
    obtain ⟨hback, -⟩ := ends.rests (Store.begun_inHand htidy hlog started) hn
    have hfinish := (start_atomically started t).symm.trans run
    exact ⟨size, s, hback.rolledBack hfinish hu⟩

end History

end Collection

end RefStore
