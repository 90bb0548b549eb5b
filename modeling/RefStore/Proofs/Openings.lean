import RefStore.Proofs.OpenWork
import RefStore.Proofs.Places

/-!
# Opening an empty directory

A store that is opened on a directory without entries has no files, and nothing is recovered. Its log
is a new file. Main statement: `Store.open_gives`.
-/

namespace RefStore

namespace Disk

variable {d d' : Disk} {dir : Path} {place : Location} {name : String}

/-- A directory without entries, which is made if need be. -/
def OffersEmpty (dir : Path) (disk d : Disk) : Prop :=
  (makeDirectories dir).Gives disk () d ∧ (list dir).Gives d [] d

theorem locateDirectory_gives {path : Path} (h : (locateDirectory path).Gives d place d') :
    d = d' ∧ d.Leads path place := by
  obtain ⟨⟨place', e⟩, _, h₁, h⟩ := Task.bind_gives h
  obtain ⟨rfl, hr, he⟩ := locate_gives h₁
  cases e with
  | none => exact absurd h Task.not_gives_refuse
  | some e =>
    cases e with
    | file k => exact absurd h Task.not_gives_refuse
    | directory =>
      obtain ⟨rfl, rfl⟩ := Task.gives_pure h
      exact ⟨rfl, hr, he.symm⟩

/-- To list a directory does not change the disk. -/
theorem list_keeps (path : Path) (P : Disk → Prop) : (list path).Keeps P := by
  have hlocate : (locateDirectory path).Keeps P := by
    refine .bind (locate_keeps P path) fun r => ?_
    rcases r with ⟨place, _ | _ | k⟩
    · exact .refuse _
    · exact .pure _
    · exact .refuse _
  exact .bind hlocate fun _ => .bind .state fun _ => .pure _

/-- The path leads to a place, and nothing stands there under any name. -/
theorem OffersEmpty.leads {disk : Disk} (h : OffersEmpty dir disk d) :
    ∃ place, d.Leads dir place ∧ ∀ name : String, d.entries[place ++ [name]]? = none := by
  obtain ⟨place, _, hlocate, hlist⟩ := Task.bind_gives h.2
  obtain ⟨rfl, hleads⟩ := locateDirectory_gives hlocate
  obtain ⟨_, _, hstate, hend⟩ := Task.bind_gives hlist
  obtain ⟨rfl, rfl⟩ := (Task.Gives.state d).unique hstate
  have hnil := (Task.gives_pure hend).1.symm
  rw [List.filterMap_eq_nil_iff] at hnil
  refine ⟨place, hleads, fun name => Option.eq_none_iff_forall_ne_some.mpr fun e he => ?_⟩
  have := hnil _ (Std.TreeMap.mem_toList_iff_getElem?_eq_some.mpr he)
  simp at this

/-- Nothing stands under a name in such a directory. -/
theorem OffersEmpty.lookup?_join {disk : Disk} (h : OffersEmpty dir disk d) (hn : Path.Plain name) :
    d.lookup? (dir.join name) = none := by
  obtain ⟨place, hleads, hnone⟩ := h.leads
  by_cases hu : (dir.join name).isUsable = true
  · rw [lookup?, hleads.join hn hu]
    dsimp only
    rw [entryAt?, if_neg (by simp)]
    exact hnone name
  · rw [lookup?, resolve, if_neg hu]
    rfl

/-- An empty disk has room for a directory. -/
theorem exists_offersEmpty : ∃ d, OffersEmpty ⟨["d"]⟩ empty d := by
  obtain ⟨d, hmade⟩ : ∃ d, (makeDirectories ⟨["d"]⟩).start empty = (.ok (), d) := by
    have hok : ((makeDirectories ⟨["d"]⟩).start empty).1.isOk = true := by decide +kernel
    rcases hr : (makeDirectories ⟨["d"]⟩).start empty with ⟨_ | _, d⟩
    · rw [hr] at hok
      cases hok
    · exact ⟨d, rfl⟩
  have hnone : ((list ⟨["d"]⟩).start ((makeDirectories ⟨["d"]⟩).start empty).2).1 = .ok [] := by
    decide +kernel
  rw [hmade] at hnone
  exact ⟨d, hmade, Prod.ext hnone (list_keeps _ (· = d) d rfl)⟩

end Disk

namespace Store

variable {directory : Path} {disk disk' d : Disk} {settings : Settings} {s : Store}
  {report : RecoveryReport}

theorem plain_catalog : Path.Plain Catalog.fileName := by constructor <;> decide

theorem plain_log : Path.Plain Log.fileName := by constructor <;> decide

/-- There is no file to open. -/
theorem mount_volume {pageSize poolPages : Nat} {v : Volume} (h : Disk.OffersEmpty directory disk d)
    (hm : (Volume.mount directory pageSize poolPages).Gives disk v disk') :
    v = ⟨directory, pageSize, poolPages, .empty, ∅⟩ ∧ disk' = d := by
  obtain ⟨_, d₁, h₁, hloaded⟩ := Task.bind_gives hm
  obtain ⟨-, rfl⟩ := h.1.unique (Task.embed_gives h₁)
  obtain ⟨c, d₂, h₂, hopened⟩ := Task.bind_gives hloaded
  have hload : (Catalog.load directory).Gives d .empty d :=
    (Disk.exists?_false (h.lookup?_join plain_catalog)).embed.bind (.pure _ d)
  obtain ⟨rfl, rfl⟩ := hload.unique h₂
  obtain ⟨files, d₃, h₃, hpooled⟩ := Task.bind_gives hopened
  have hnames : Catalog.empty.names.toList = [] := rfl
  rw [hnames, List.foldlM_nil] at h₃
  obtain ⟨rfl, rfl⟩ := Task.gives_pure h₃
  obtain ⟨_, d₄, h₄, hend⟩ := Task.bind_gives hpooled
  obtain ⟨-, rfl⟩ := Task.gives_ofChecked h₄
  exact Task.gives_pure hend

/-- The log is a new file, and nothing is recovered. -/
theorem journal_open {v : Volume} {syncs : Bool} {m : Mounted} {journal : Journal}
    (h : Disk.OffersEmpty v.directory disk d)
    (hj : (Journal.open syncs).Gives ⟨d, v⟩ (journal, report) m) :
    m.volume = v ∧ journal.broken = false ∧ journal.log.node < m.disk.nextNode := by
  obtain ⟨_, _, h₀, hj⟩ := Task.bind_gives hj
  obtain ⟨rfl, rfl⟩ := (Task.Gives.state _).unique h₀
  obtain ⟨log, m₁, h₁, hj⟩ := Task.bind_gives hj
  obtain ⟨d₁, hlog, rfl⟩ := Task.inPart_gives h₁
  obtain ⟨node, d₂, hnode, hlog⟩ := Task.bind_gives hlog
  obtain ⟨rfl, rfl⟩ := Task.gives_pure hlog
  obtain ⟨b, d₃, h₂, h₃⟩ := Task.bind_gives (Task.embed_gives hnode)
  obtain ⟨rfl, rfl⟩ := (Disk.exists?_false (h.lookup?_join plain_log)).unique h₂
  rw [if_neg Bool.false_ne_true] at h₃
  obtain ⟨hk, hnext, -⟩ := Disk.createFile_gives h₃
  have hempty := Disk.createFile_empty h₃
  obtain ⟨r, m₂, h₄, hj⟩ := Task.bind_gives hj
  obtain ⟨he, rfl⟩ := Task.gives_pure hj
  cases he
  have hscan : (Log.scan ⟨node, syncs⟩).Gives d₁ ⟨[], false⟩ d₁ := by
    have hread : (Disk.readAll node).Gives d₁ Contents.empty.block d₁ := by
      refine (Task.Gives.state d₁).bind ?_
      rw [hempty]
      exact .pure _ d₁
    have hnil : LogScan.ofBytes (Block.toList Contents.empty.block) = ⟨[], false⟩ := by
      rw [Contents.toList_block, Contents.toList_empty, LogScan.ofBytes, if_pos rfl]
    rw [← hnil]
    exact hread.embed.bind (.pure _ d₁)
  have hrun : (Recovery.run ⟨node, syncs⟩).Gives ⟨d₁, v⟩ ⟨0, 0, 0, 0, false⟩ ⟨d₁, v⟩ :=
    hscan.inPart.bind (.pure _ _)
  obtain ⟨-, rfl⟩ := hrun.unique h₄
  exact ⟨rfl, rfl, by simp only [hk, hnext]; exact Nat.lt_succ_self _⟩

theorem checkUsable_gives (hu : s.engine.journal.broken = false) :
    (liftM Engine.checkUsable : Task Store CollectionError Unit).Gives s () s := (Engine.checkUsable_gives hu).inPart

/-- A view is a task in a workspace without an operation. -/
theorem view_start {α : Type} (hu : s.engine.journal.broken = false) (t : Task Workspace CollectionError α) :
    (view t).start s = ((t.start ⟨s, .none, []⟩).1, (t.start ⟨s, .none, []⟩).2.store) := by
  rw [view, (checkUsable_gives hu).start_bind]
  rfl

/-- No cluster is loaded from a volume without files. -/
theorem loadExisting_gives (hr : s.registry.prohibited = false) (hc : s.volume.catalog = .empty)
    (hu : s.engine.journal.broken = false) : loadExisting.Gives s [] s := by
  have hnames : s.volume.catalog.names.values = [] := by
    rw [hc]
    rfl
  refine (checkAccess_of_allowed hr).bind ((Task.Gives.state s).bind ?_)
  dsimp only
  rw [hnames]
  refine Task.Gives.bind (.pure [] s) ((checkUsable_gives hu).bind ?_)
  rw [List.mergeSort_nil]
  exact Task.Gives.bind (.pure () s) (.pure [] s)

/-- A store that is opened on an empty directory is empty. -/
theorem open_gives (h : Disk.OffersEmpty directory disk d)
    (ho : Store.open settings directory disk = (.ok (s, report), disk')) :
    settings.validate = .ok () ∧ s.registry = .empty ∧
      s.volume = ⟨directory, settings.pageSize, settings.poolPages, .empty, ∅⟩ ∧
      s.engine.journal.broken = false ∧ s.engine.journal.log.node < s.disk.nextNode := by
  obtain ⟨hv, s₀, _, found, hm, hl⟩ := Collection.open_cases ho
  rw [mount] at hm
  split at hm
  · cases hm
  · next v d₁ hvolume =>
    obtain ⟨rfl, rfl⟩ := mount_volume h hvolume
    split at hm
    · cases hm
    · next journal r₁ m hj =>
      cases hm
      obtain ⟨hv', hu, hlt⟩ := journal_open
        (v := ⟨directory, settings.pageSize, settings.poolPages, .empty, ∅⟩) h hj
      have hs₀ : (⟨⟨m, journal⟩, .empty⟩ : Store).volume.catalog = .empty := congrArg Volume.catalog hv'
      obtain ⟨-, rfl⟩ := (loadExisting_gives rfl hs₀ hu).unique hl
      exact ⟨hv, rfl, hv', hu, hlt⟩

end Store

end RefStore
