import RefStore.Proofs.DataNames
import RefStore.Proofs.Maps
import RefStore.Proofs.Openings
import RefStore.Proofs.Reopenings

/-!
# The engine of an empty directory

A directory is made on a sound disk, nothing stands in it, and the log is the first file there. Main
statement: `Store.mount_empty`, the engine of a store that is mounted on it has no files.
-/

namespace RefStore

theorem Task.Keeps.forIn {σ ε α : Type} {P : σ → Prop} {xs : List α}
    {f : α → PUnit → Task σ ε (ForInStep PUnit)} (h : ∀ x ∈ xs, (f x ⟨⟩).Keeps P) :
    (forIn xs ⟨⟩ f).Keeps P := by
  induction xs with
  | nil => exact .pure _
  | cons x xs ih =>
    rw [List.forIn_cons]
    refine (h x List.mem_cons_self).bind fun step => ?_
    cases step with
    | done u => exact .pure u
    | yield u => exact ih fun y hy => h y (List.mem_cons_of_mem _ hy)

namespace Disk

variable {disk d : Disk} {dir : Path} {place : Location} {name : String}

theorem Sound.addDirectory (h : d.Sound) (place : Location) : (d.effect (.addDirectory place)).Sound := by
  have hold {q : Location} {n : Nat} (hq : (d.effect (.addDirectory place)).entries[q]? = some (.file n)) :
      d.entries[q]? = some (.file n) := by
    rw [effect, lookup_insert] at hq
    split at hq
    · cases hq
    · exact hq
  exact ⟨fun hq => h.lt (hold hq), fun hq hq' => h.inj (hold hq) (hold hq')⟩

/-- No file is made on the way to a directory. -/
theorem makeDirectories_keeps (dir : Path) :
    (makeDirectories dir).Keeps fun d => d.Sound ∧ d.outage = none := by
  have hperform (place : Location) : (perform (.addDirectory place)).Keeps fun d => d.Sound ∧ d.outage = none := by
    rintro d ⟨hs, hlive⟩
    rw [perform, Task.start_ofStep, hlive]
    exact ⟨hs.addDirectory place, hlive⟩
  refine .guarded (.refuse _) (.bind (.forIn fun stage _ => .bind .state fun d => ?_) fun _ => .pure _)
  split
  · exact .bind (.bind (locateNew_keeps _ _) hperform) fun _ => .pure _
  · exact .pure _

/-- Nothing stands in such a directory. -/
theorem OffersEmpty.houses (h : OffersEmpty dir disk d) (hs : disk.Sound) (hlive : disk.outage = none) :
    d.outage = none ∧ ∃ place, d.Houses dir place ∧ ∀ name, d.node? place name = none := by
  obtain ⟨hsound, hout⟩ := (makeDirectories_keeps dir).gives h.1 ⟨hs, hlive⟩
  obtain ⟨place, hleads, hnone⟩ := h.leads
  refine ⟨hout, place, { hleads, hsound with files := fun name => ?_ }, fun name => ?_⟩
  · rw [hnone]
    exact nofun
  · rw [node?, hnone]

end Disk

/-- Nothing is kept but an empty log. -/
def Stock.empty (logNode : Nat) : Stock := ⟨fun _ => none, fun _ => [], logNode, []⟩

/-- A new log in a directory without entries. -/
theorem Disk.Houses.stocks_empty {d : Disk} {dir : Path} {place : Location} (h : d.Houses dir place)
    (hnone : ∀ name, d.node? place name = none) (size : Nat) :
    (d.effect (.addFile (place ++ [Log.fileName]))).Stocks dir place size (.empty d.nextNode) where
  houses := h.addFile (hnone _)
  catalog := by
    refine ⟨.empty, ?_, fun _ => Std.TreeMap.getElem?_emptyc, nofun⟩
    rw [Disk.bytes?_addFile h, if_neg (by decide), Disk.bytes?, hnone]
    rfl
  file := nofun
  logNode := by rw [Disk.node?_addFile, if_pos rfl]; rfl
  log := by rw [Disk.bytes?_addFile h, if_pos rfl]; rfl
  sane := ⟨nofun, nofun, nofun, nofun⟩

/-- There is no log, and a new one has nothing to recover. -/
theorem Journal.open_new {d : Disk} {v : Volume} {place : Location} {m : Mounted} {s : Stock}
    (h : d.Houses v.directory place) (hlive : d.outage = none) (hf : v.directory.Fits Log.fileName)
    (hnone : d.node? place Log.fileName = none)
    (hm : Mounted.Mirrors v.directory place v.pageSize s ⟨d.effect (.addFile (place ++ [Log.fileName])), v⟩)
    (hnode : s.logNode = d.nextNode) (hempty : s.log = []) {syncs : Bool} {journal : Journal}
    {report : RecoveryReport} (hj : (Journal.open syncs).Gives ⟨d, v⟩ (journal, report) m) :
    m = ⟨d.effect (.addFile (place ++ [Log.fileName])), v⟩ ∧ journal = ⟨⟨d.nextNode, syncs⟩, 1, false⟩ := by
  have hexists : (Disk.exists? (v.directory.join Log.fileName)).Gives d false d := by
    have := Disk.exists_start h hf
    rwa [hnone] at this
  have hcreate : (Disk.createFile (v.directory.join Log.fileName)).Gives d d.nextNode
      (d.effect (.addFile (place ++ [Log.fileName]))) :=
    (Disk.createFile_survives h hf hnone (fun _ _ => trivial : ∀ d', _ → True)).gives_of_live hlive hlive
  have hopen : (Log.open (v.directory.join Log.fileName) syncs).Gives d ⟨d.nextNode, syncs⟩
      (d.effect (.addFile (place ++ [Log.fileName]))) :=
    .bind (.embed (.bind hexists hcreate)) (.pure _ _)
  have hrun : (Recovery.run ⟨d.nextNode, syncs⟩).Gives ⟨d.effect (.addFile (place ++ [Log.fileName])), v⟩
      ⟨0, 0, 0, 0, false⟩ ⟨d.effect (.addFile (place ++ [Log.fileName])), v⟩ := by
    have hidle : (Recovery.run ⟨d.nextNode, syncs⟩).Survives _ (fun _ => True) _ _ :=
      Recovery.run_idle hm hnode.symm hempty
    exact hidle.gives_of_live hlive hlive
  have hall : (Journal.open syncs).Gives ⟨d, v⟩ (⟨⟨d.nextNode, syncs⟩, 1, false⟩, ⟨0, 0, 0, 0, false⟩)
      ⟨d.effect (.addFile (place ++ [Log.fileName])), v⟩ :=
    .bind (.state _) (.bind (hopen.inPart (σ := Mounted) (s := ⟨d, v⟩)) (.bind hrun (.pure _ _)))
  obtain ⟨he, rfl⟩ := hall.unique hj
  cases he
  exact ⟨rfl, rfl⟩

/-- The engine of a store that is mounted on an empty directory has no files, on the disk or in memory. -/
theorem Store.mount_empty {disk d disk' : Disk} {dir : Path} {size pool : Nat} {syncs : Bool} {s : Store}
    {report : RecoveryReport} (h : Disk.OffersEmpty dir disk d) (hs : disk.Sound)
    (hlive : disk.outage = none) (hf : dir.Fits Log.fileName)
    (hm : mount dir size pool syncs disk = (.ok (s, report), disk')) :
    ∃ place node, s.engine.Rests dir place size (.empty node) ∧
      s.volume = ⟨dir, size, pool, .empty, ∅⟩ ∧ s.engine.journal = ⟨⟨node, syncs⟩, 1, false⟩ := by
  rw [mount] at hm
  split at hm
  · cases hm
  · next v d₁ hvolume =>
    obtain ⟨rfl, rfl⟩ := mount_volume h hvolume
    split at hm
    · cases hm
    · next journal r m hj =>
      cases hm
      obtain ⟨hout, place, hhouses, hnone⟩ := h.houses hs hlive
      have hno {f : FileId} {x : String} (hx : (Stock.empty d₁.nextNode).names f = some x) : False := by
        cases hx
      have hmirrors : Mounted.Mirrors dir place size (.empty d₁.nextNode)
          ⟨d₁.effect (.addFile (place ++ [Log.fileName])), ⟨dir, size, pool, .empty, ∅⟩⟩ :=
        ⟨hhouses.stocks_empty hnone size, rfl, rfl, ⟨fun _ => Std.TreeMap.getElem?_emptyc, fun hx => (hno hx).elim⟩,
          fun hx => (hno hx).elim, fun _ => Std.TreeMap.getElem?_emptyc⟩
      obtain ⟨rfl, rfl⟩ := Journal.open_new (v := ⟨dir, size, pool, .empty, ∅⟩) hhouses hout hf (hnone _)
        hmirrors rfl rfl hj
      exact ⟨place, d₁.nextNode, ⟨hmirrors, rfl, rfl, hout⟩, rfl, rfl⟩

end RefStore
