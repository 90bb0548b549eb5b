import RefStore.Proofs.Maps
import RefStore.Proofs.Recoveries
import RefStore.Store

/-!
# Opening a directory again

A directory that keeps a stock is mounted with the files of the stock, and its log is recovered. Opening
may be cut off by an outage and tried again. Main statements: `Store.mount_redoes`, `Store.mount_drops`.
-/

namespace RefStore

theorem Task.forIn_gives {σ ε α : Type} {xs : List α} {f : α → PUnit → Task σ ε (ForInStep PUnit)} {s : σ}
    (h : ∀ x ∈ xs, (f x ⟨⟩).Gives s (.yield ⟨⟩) s) : (forIn xs ⟨⟩ f).Gives s ⟨⟩ s := by
  induction xs with
  | nil => exact .pure _ s
  | cons x xs ih =>
    rw [List.forIn_cons]
    exact (h x List.mem_cons_self).bind (ih fun y hy => h y (List.mem_cons_of_mem _ hy))

namespace Disk

variable {d : Disk} {dir : Path} {place : Location} {size : Nat} {t : Stock} {cut : Disk → Prop}

/-- There is nothing to make on the way to a directory. -/
theorem makeDirectories_survives (h : d.Leads dir place) : (makeDirectories dir).Survives d cut () d := by
  refine .ofReads fun o => ?_
  have ho : (withOutage o d).Leads dir place := h.mono fun _ hq => hq
  have hloop : (makeDirectories dir).Gives (withOutage o d) () (withOutage o d) := by
    rw [makeDirectories, if_neg (by simp [h.usable])]
    refine Task.Gives.bind (Task.forIn_gives fun stage hstage => ?_) (.pure () _)
    refine (Task.Gives.state _).bind ?_
    rw [leads_chain ho hstage]
    exact .pure _ _
  exact hloop

end Disk

namespace Catalog

variable {d : Disk} {dir : Path} {place : Location} {size : Nat} {t : Stock} {cut : Disk → Prop}

theorem load_survives (h : d.Houses dir place) (hf : dir.Fits fileName) {c : Catalog}
    (hc : ofStored (d.bytes? place fileName) = .ok c) : (load dir).Survives d cut c d := by
  refine .ofReads fun o => ?_
  have ho : (withOutage o d).Houses dir place := h.withOutage o
  have hnode : (withOutage o d).node? place fileName = d.node? place fileName := rfl
  have hexists : (Disk.exists? (dir.join fileName)).Gives (withOutage o d)
      (d.node? place fileName).isSome (withOutage o d) := hnode ▸ Disk.exists_start ho hf
  rw [Disk.bytes?] at hc
  have hload : (load dir).Gives (withOutage o d) c (withOutage o d) := by
    refine Task.Gives.bind hexists.embed ?_
    cases hn : d.node? place fileName with
    | none =>
      rw [hn] at hc
      cases hc
      exact .pure _ _
    | some n =>
      rw [hn, Option.map_some] at hc
      have hopen : (Disk.openFile (dir.join fileName)).Gives (withOutage o d) n (withOutage o d) :=
        Disk.openFile_start ho hf (hnode.trans hn)
      have hread : (Disk.readAll n).Gives (withOutage o d) (d.content n).block (withOutage o d) :=
        (Task.Gives.state _).bind (.pure _ _)
      refine .bind hopen.embed (.bind hread.embed ?_)
      have hdecode : decode (Block.toList (d.content n).block) = .ok c := by
        rw [Contents.toList_block]
        exact hc
      rw [hdecode]
      exact .pure _ _
  exact hload

end Catalog

namespace Volume

variable {d : Disk} {dir : Path} {place : Location} {size : Nat} {t : Stock} {cut : Disk → Prop}
  {names : FileId → Option String} {pages : FileId → List Page} {name : String}

theorem openNamed_survives (h : d.Houses dir place) (hs : 0 < size) (hf : dir.Fits name) {n : Nat} {ps : List Page}
    (hp : d.Paged place name n size ps) (id : FileId) (files : Std.TreeMap FileId OpenFile) :
    (mount.openNamed dir size files (id, name)).Survives d cut
      (files.insert id ⟨name, .handle dir name n size ps, ∅⟩) d := by
  refine .ofReads fun o => ?_
  have ho : (withOutage o d).Houses dir place := h.withOutage o
  have hpo : (withOutage o d).Paged place name n size ps := ⟨hp.node, hp.bytes, hp.sizes⟩
  have hexists : (Disk.exists? (dir.join name)).Gives (withOutage o d) true (withOutage o d) := by
    rw [Task.Gives, Disk.exists_start ho hf, hpo.node]
    rfl
  have hopen : (PagedFile.open (dir.join name) size).Gives (withOutage o d)
      (.handle dir name n size ps) (withOutage o d) := PagedFile.open_start ho hf hpo hs
  have hall : (mount.openNamed dir size files (id, name)).Gives (withOutage o d)
      (files.insert id ⟨name, .handle dir name n size ps, ∅⟩) (withOutage o d) :=
    hexists.embed.bind (hopen.embed.bind (.pure _ _))
  exact hall

/-- Files that can be opened. -/
def Holds (d : Disk) (dir : Path) (place : Location) (size : Nat) (names : FileId → Option String)
    (pages : FileId → List Page) : Prop :=
  ∀ id name, names id = some name → dir.Fits name ∧ ∃ n, d.Paged place name n size (pages id)

/-- All files of a list are opened, the ones before stay open. -/
theorem openAll_survives (h : d.Houses dir place) (hs : 0 < size) (hfile : Holds d dir place size names pages)
    {l : List (FileId × String)} (hl : ∀ e ∈ l, names e.1 = some e.2) (files : Std.TreeMap FileId OpenFile) :
    ∃ files' : Std.TreeMap FileId OpenFile, (l.foldlM (mount.openNamed dir size) files).Survives d cut files' d ∧
      (∀ e ∈ l, ∃ n, files'[e.1]? = some ⟨e.2, .handle dir e.2 n size (pages e.1), ∅⟩ ∧
        d.node? place e.2 = some n) ∧
      ∀ f, f ∉ l.map Prod.fst → files'[f]? = files[f]? := by
  induction l generalizing files with
  | nil => exact ⟨files, .pure files d, by simp, fun _ _ => rfl⟩
  | cons e l ih =>
    obtain ⟨id, name⟩ := e
    have hid := hl _ List.mem_cons_self
    obtain ⟨hf, n, hp⟩ := hfile id name hid
    have hopen : (mount.openNamed dir size files (id, name)).Survives d cut _ d :=
      openNamed_survives h hs hf hp id files
    obtain ⟨files', hrest, hin, hout⟩ := ih (fun e he => hl e (List.mem_cons_of_mem _ he))
      (files.insert id ⟨name, .handle dir name n size (pages id), ∅⟩)
    refine ⟨files', by rw [List.foldlM_cons]; exact hopen.bind hrest, fun e he => ?_, fun f hf => ?_⟩
    · rcases List.mem_cons.mp he with rfl | he
      · by_cases hmem : id ∈ l.map Prod.fst
        · -- a list with an id twice has the same name for it
          obtain ⟨⟨id', name'⟩, he', rfl⟩ := List.mem_map.mp hmem
          have hname : name = name' :=
            Option.some.inj (hid.symm.trans (hl _ (List.mem_cons_of_mem _ he')))
          rw [hname]
          exact hin _ he'
        · exact ⟨n, (hout id hmem).trans Std.TreeMap.getElem?_insert_self, hp.node⟩
      · exact hin e he
    · rw [List.map_cons, List.mem_cons, not_or] at hf
      rw [hout f hf.2, lookup_insert_of_ne hf.1]

/-- The files of the stored catalog are opened, and no others. -/
theorem mount_opens (h : d.Houses dir place) (hs : 0 < size) (hf : dir.Fits Catalog.fileName) {pool : Nat}
    (hp : 0 < pool) {c : Catalog} (hc : Catalog.ofStored (d.bytes? place Catalog.fileName) = .ok c)
    (hlists : c.Lists names) (hfile : Holds d dir place size names pages) :
    ∃ files : Std.TreeMap FileId OpenFile, (mount dir size pool).Survives d cut ⟨dir, size, pool, c, files⟩ d ∧
      (∀ {id name}, names id = some name → ∃ n,
        files[id]? = some ⟨name, .handle dir name n size (pages id), ∅⟩ ∧ d.node? place name = some n) ∧
      ∀ {id}, names id = none → files[id]? = none := by
  have hmem {e : FileId × String} : e ∈ c.names.toList ↔ names e.1 = some e.2 := by
    rw [← hlists.name, Std.TreeMap.mem_toList_iff_getElem?_eq_some]
  obtain ⟨files, hopen, hin, hout⟩ := openAll_survives (l := c.names.toList) h hs hfile (fun _ he => hmem.mp he) ∅
  have hpool : (Pool.create size pool : Checked StorageError Pool) = .ok ⟨size, pool, [], 0⟩ :=
    if_pos ⟨hp, hs⟩
  refine ⟨files, ?_, fun {id name} hid => hin (id, name) (hmem.mpr hid), fun {id} hid => ?_⟩
  · exact .bind (Disk.makeDirectories_survives h.toLeads).embed (.bind
      (Catalog.load_survives h hf hc) (.bind hopen (.bind (.ofChecked hpool d) (.pure _ d))))
  · have hno : id ∉ c.names.toList.map Prod.fst := fun hm => by
      obtain ⟨e, he, rfl⟩ := List.mem_map.mp hm
      rw [hmem.mp he] at hid
      cases hid
    exact (hout id hno).trans Std.TreeMap.getElem?_emptyc

/-- A mounted volume has the files of the stock that the disk keeps. -/
theorem mount_survives (h : d.Stocks dir place size t) (hs : 0 < size) (hf : dir.Fits Catalog.fileName)
    {pool : Nat} (hp : 0 < pool) : ∃ v, (mount dir size pool).Survives d cut v d ∧
      Mounted.Mirrors dir place size t ⟨d, v⟩ := by
  obtain ⟨c, hc, hlists⟩ := h.catalog
  obtain ⟨files, hmount, hin, hout⟩ := mount_opens h.houses hs hf hp hc hlists
    fun id name hid => ⟨(h.sane.named hid).2, h.file hid⟩
  refine ⟨_, hmount, h, rfl, rfl, hlists, fun hid => ?_, hout⟩
  obtain ⟨n, hfile, hn⟩ := hin hid
  exact ⟨n, ∅, hfile, hn, by simp⟩

end Volume

/-- The log stands under its name. -/
theorem Journal.open_survives {m m' : Mounted} {dir : Path} {place : Location} {size : Nat} {t : Stock}
    {cut : Disk → Prop} (h : m.Mirrors dir place size t) (hf : dir.Fits Log.fileName) {syncs : Bool}
    {r : RecoveryReport} (hrun : (Recovery.run ⟨t.logNode, syncs⟩).Survives m cut r m') :
    (Journal.open syncs).Survives m cut (⟨⟨t.logNode, syncs⟩, 1, false⟩, r) m' := by
  have hopen : (Log.open (dir.join Log.fileName) syncs).Survives m.disk cut ⟨t.logNode, syncs⟩ m.disk := by
    refine .ofReads fun o => ?_
    have ho : (withOutage o m.disk).Houses dir place := h.stocks.houses.withOutage o
    have hn : (withOutage o m.disk).node? place Log.fileName = some t.logNode := h.stocks.logNode
    have hexists : (Disk.exists? (dir.join Log.fileName)).Gives (withOutage o m.disk) true
        (withOutage o m.disk) := by
      rw [Task.Gives, Disk.exists_start ho hf, hn]
      rfl
    have hfile : (Disk.openFile (dir.join Log.fileName)).Gives (withOutage o m.disk) t.logNode
        (withOutage o m.disk) := Disk.openFile_start ho hf hn
    have hlog : (Log.open (dir.join Log.fileName) syncs).Gives (withOutage o m.disk) ⟨t.logNode, syncs⟩
        (withOutage o m.disk) := (hexists.bind hfile).embed.bind (.pure _ _)
    exact hlog
  refine .state (fun o => rfl) ?_
  dsimp only
  rw [h.directory]
  exact .bind hopen.inPart (.bind hrun (.pure _ m'))

namespace Store

variable {d : Disk} {dir : Path} {place : Location} {size pool : Nat} {syncs : Bool} {s t : Stock}
  {op : Operation} {cut : Disk → Prop}

/-- An opening that survives leaves a disk as it says, whether it was cut off or not. -/
theorem mount_outcome {v : Volume} {m : Mounted} {j : Journal} {r : RecoveryReport}
    (hv : (Volume.mount dir size pool).Survives d cut v d)
    (hj : (Journal.open syncs).Survives ⟨d, v⟩ cut (j, r) m) (hend : cut m.disk.restart) :
    (∀ o, cut (mount dir size pool syncs (withOutage o d)).2.restart) ∧
    (d.outage = none → mount dir size pool syncs d =
      (.ok (⟨⟨withOutage none m, j⟩, .empty⟩, r), (withOutage none m).disk)) := by
  refine ⟨fun o => ?_, fun hlive => ?_⟩
  · rcases hv o with ⟨o₁, -, hok⟩ | ⟨-, cause, z, herror, -, hcut⟩
    · have hsame : (⟨withOutage o₁ d, v⟩ : Mounted) = withOutage o₁ ⟨d, v⟩ := rfl
      rcases hj o₁ with ⟨o₂, -, hok'⟩ | ⟨-, cause, z, herror, -, hcut⟩
      · rw [mount, hok]
        dsimp only
        rw [hsame, hok']
        exact hend
      · rw [mount, hok]
        dsimp only
        rw [hsame, herror]
        exact hcut
    · rw [mount, herror]
      exact hcut
  · rw [mount, (hv.gives hlive).eq]
    dsimp only
    have hsame : (⟨withOutage none d, v⟩ : Mounted) = (⟨d, v⟩ : Mounted) := by
      rw [withOutage_eq_self (show (OnDisk.disk d).outage = none from hlive)]
    rw [hsame, (hj.gives hlive).eq]

/-- A disk on which opening gives a store with some files, and which stays so when opening is cut off. -/
structure Recovers (dir : Path) (place : Location) (size : Nat) (keep : Disk → Prop) (goal : Stock → Prop)
    (d : Disk) : Prop where
  cut : ∀ {pool : Nat} (syncs : Bool) (o : Option Outage), 0 < pool →
    keep (mount dir size pool syncs (withOutage o d)).2.restart
  gives : ∀ {pool : Nat} (syncs : Bool), 0 < pool → d.outage = none → ∃ st r t,
    mount dir size pool syncs d = (.ok (st, r), st.disk) ∧ st.engine.Rests dir place size t ∧ goal t

theorem recovers_of_run (h : d.Stocks dir place size t) (hs : 0 < size) (hc : dir.Fits Catalog.fileName)
    (hl : dir.Fits Log.fileName) {keep : Disk → Prop} {goal : Stock → Prop}
    (hrun : ∀ (m : Mounted) (log : Log), m.Mirrors dir place size t → log.node = t.logNode →
      ∃ r m' t', (Recovery.run log).Survives m keep r m' ∧ m'.Mirrors dir place size t' ∧ t'.log = [] ∧
        t'.logNode = t.logNode ∧ keep m'.disk.restart ∧ goal t') : Recovers dir place size keep goal d := by
  have hall {pool : Nat} (syncs : Bool) (hp : 0 < pool) : ∃ v m' t' r,
      (Volume.mount dir size pool).Survives d keep v d ∧
      (Journal.open syncs).Survives ⟨d, v⟩ keep (⟨⟨t.logNode, syncs⟩, 1, false⟩, r) m' ∧
      keep m'.disk.restart ∧ m'.Mirrors dir place size t' ∧ t'.log = [] ∧ t'.logNode = t.logNode ∧ goal t' := by
    obtain ⟨v, hv, hm⟩ := Volume.mount_survives h hs hc hp
    obtain ⟨r, m', t', hrun, hm', hlog, hnode, hkeep, hgoal⟩ := hrun ⟨d, v⟩ ⟨t.logNode, syncs⟩ hm rfl
    exact ⟨v, m', t', r, hv, Journal.open_survives hm hl hrun, hkeep, hm', hlog, hnode, hgoal⟩
  refine ⟨fun syncs o hp => ?_, fun syncs hp hlive => ?_⟩
  · obtain ⟨v, m', t', r, hv, hj, hkeep, -⟩ := hall syncs hp
    exact (mount_outcome hv hj hkeep).1 o
  · obtain ⟨v, m', t', r, hv, hj, hkeep, hm', hlog, hnode, hgoal⟩ := hall syncs hp
    exact ⟨_, r, t', (mount_outcome hv hj hkeep).2 hlive,
      ⟨hm'.withOutage none, hnode.symm, hlog, rfl⟩, hgoal⟩

/-- What is in the log whole is done over. -/
theorem mount_redoes (h : d.Redoes dir place size s op) (hop : op.Over size s) (hs : 8 ≤ size)
    (hlt : size < 4294967296) (hfits : op.Fits dir size) (hrec : ∀ r ∈ op.records, r.Encodable)
    (hc : dir.Fits Catalog.fileName) (hl : dir.Fits Log.fileName) :
    Recovers dir place size (Disk.Redoes dir place size s op) (op.Complete size s) d := by
  rcases h with ⟨t, ht, hlog, hu⟩ | ⟨t, ht, hlog, hcomplete⟩
  · refine recovers_of_run ht (by omega) hc hl fun m log hm hnode => ?_
    obtain ⟨r, m', t', hrun, hm', hlog', hnode', hcomplete⟩ :=
      Recovery.run_redoes ⟨t, hm, hlog, hu⟩ (hnode.trans hu.logNode) hop hs hlt hfits hrec
    exact ⟨r, m', t', hrun, hm', hlog', hnode'.trans hu.logNode.symm,
      .inr ⟨t', hm'.stocks.restart, hlog', hcomplete⟩, hcomplete⟩
  · refine recovers_of_run ht (by omega) hc hl fun m log hm hnode => ?_
    exact ⟨_, m, t, Recovery.run_idle hm hnode hlog, hm, hlog, rfl,
      .inr ⟨t, hm.stocks.restart, hlog, hcomplete⟩, hcomplete⟩

/-- What is in the log in part is dropped. -/
theorem mount_drops (h : d.Drops dir place size s op) (hs : 0 < size)
    (hrec : ∀ r ∈ op.records, r.Encodable) (hc : dir.Fits Catalog.fileName) (hl : dir.Fits Log.fileName) :
    Recovers dir place size (Disk.Drops dir place size s op) (· = s.withLog []) d := by
  obtain ⟨k, hk, ht⟩ := h
  refine recovers_of_run ht hs hc hl fun m log hm hnode => ?_
  obtain ⟨r, m', hrun, hm'⟩ := Recovery.run_drops hm hk hnode hrec
  exact ⟨r, m', _, hrun, hm', rfl, rfl, ⟨0, Nat.zero_lt_of_lt hk, hm'.stocks.restart⟩, rfl⟩

/-- A disk after any number of openings, each cut off anywhere or not, the last of which is over. -/
inductive Reopens (dir : Path) (size : Nat) (d : Disk) : Disk → Prop where
  | none : Reopens dir size d d
  | again {d' : Disk} (before : Reopens dir size d d') {pool : Nat} (room : 0 < pool) (syncs : Bool)
      (o : Option Outage) : Reopens dir size d (mount dir size pool syncs (withOutage o d')).2.restart

theorem Reopens.keeps {d' : Disk} {keep : Disk → Prop} {goal : Stock → Prop} (h : Reopens dir size d d')
    (hd : keep d) (hall : ∀ d, keep d → Recovers dir place size keep goal d) : keep d' := by
  induction h with
  | none => exact hd
  | again before room syncs o ih => exact (hall _ ih).cut syncs o room

theorem Reopens.live {d' : Disk} (h : Reopens dir size d d') (hd : d.outage = Option.none) :
    d'.outage = Option.none := by
  cases h with
  | none => exact hd
  | again before room syncs o => rfl

end Store

end RefStore
