import RefStore.Proofs.CrashAtomicity
import RefStore.Proofs.LoadedVolumes

/-!
# Volumes with other pages in memory

Which pages a volume has in memory makes no difference to an operation. So a volume whose pages have
their seals may be taken for its twin with all pages in memory. Main statements: `Twin.serveAlike`,
`Serves.exists_loaded`.
-/

namespace RefStore.Mounted

variable {m m' m₀ : Mounted} {size : Nat} {s : Stock} {id : FileId} {i : PageIndex}

/-- Volumes that differ at most in the pages that they have in memory. -/
structure Twin (m m' : Mounted) : Prop where
  unchanged : m.Unchanged m'
  nextId : m'.volume.catalog.nextId = m.volume.catalog.nextId

theorem loadPage_keeps_nextId (id : FileId) (i : PageIndex) (next : FileId) :
    (loadPage id i).Keeps fun m => m.volume.catalog.nextId = next := by
  intro m hm
  rw [loadPage_start_eq]
  cases m.volume.files[id]? with
  | none => exact hm
  | some f =>
    dsimp only
    cases f.resident[i]? with
    | some p => exact hm
    | none =>
      dsimp only
      cases f.fetched m.disk m.volume.pageSize id i with
      | error cause => exact hm
      | ok p => exact hm

namespace Twin

theorem refl (m : Mounted) : m.Twin m := ⟨.refl m, rfl⟩

theorem trans {m'' : Mounted} (h : m.Twin m') (h' : m'.Twin m'') : m.Twin m'' :=
  ⟨h.unchanged.trans h'.unchanged, h'.nextId.trans h.nextId⟩

theorem symm (h : m.Twin m') : m'.Twin m := ⟨h.unchanged.symm, h.nextId.symm⟩

theorem loaded (m : Mounted) (id : FileId) (i : PageIndex) : m.Twin ((loadPage id i).start m).2 :=
  ⟨.loaded m id i, loadPage_keeps_nextId id i _ m rfl⟩

/-- No operation can tell twins apart. -/
theorem serveAlike : ServeAlike Twin where
  pageSize _ _ h := h.unchanged.pageSize.symm
  idOf? _ _ h := h.unchanged.idOf?
  pageCount id m n h := by
    obtain ⟨hsame, -⟩ := Unchanged.readAlike.pageCount id m n h.unchanged
    refine ⟨hsame, ?_⟩
    rw [Unchanged.pageCount_start, Unchanged.pageCount_start]
    exact h
  loadPage id i m n h :=
    ⟨(h.unchanged.loadPage id i).symm, ((loaded m id i).symm.trans h).trans (loaded n id i)⟩
  reserveId m n h := by
    refine ⟨congrArg Except.ok h.nextId.symm, ?_, congrArg (· + 1) h.nextId⟩
    exact ((Unchanged.reserved m).symm.trans h.unchanged).trans (.reserved n)

/-- Nor does an operation change more of its volume than a twin has. -/
theorem serveAlike_from (m₀ : Mounted) : ServeAlike fun m n => m₀.Unchanged m ∧ m.Twin n where
  pageSize m n h := serveAlike.pageSize m n h.2
  idOf? m n h := serveAlike.idOf? m n h.2
  pageCount id m n h := by
    obtain ⟨hsame, htwin⟩ := serveAlike.pageCount id m n h.2
    exact ⟨hsame, by rw [Unchanged.pageCount_start]; exact h.1, htwin⟩
  loadPage id i m n h := by
    obtain ⟨hsame, htwin⟩ := serveAlike.loadPage id i m n h.2
    exact ⟨hsame, h.1.trans (.loaded m id i), htwin⟩
  reserveId m n h := by
    obtain ⟨hsame, htwin⟩ := serveAlike.reserveId m n h.2
    exact ⟨hsame, h.1.trans (.reserved m), htwin⟩

/-- What only reads leaves a twin. -/
theorem readAlike_from (m₀ : Mounted) : ReadAlike fun m n => m = n ∧ m₀.Twin m where
  pageSize m n h := by rw [h.1]
  idOf? m n h _ := by rw [h.1]
  pageCount id m n h := by
    obtain ⟨rfl, h⟩ := h
    rw [Unchanged.pageCount_start]
    exact ⟨rfl, rfl, h⟩
  loadPage id i m n h := by
    obtain ⟨rfl, h⟩ := h
    exact ⟨rfl, rfl, h.trans (loaded m id i)⟩

end Twin

namespace Serves

/-- The page is loaded if it is there. -/
theorem exists_warm (h : m.Serves size s) (hv : s.Sealed) (e : FileId × PageIndex) :
    ∃ m', m.Twin m' ∧ m'.Serves size s ∧ (∀ {id i}, m.Warm id i → m'.Warm id i) ∧
      ∀ name, s.names e.1 = some name → e.2.toNat < (s.pages e.1).length → m'.Warm e.1 e.2 := by
  by_cases hin : ∃ name, s.names e.1 = some name ∧ e.2.toNat < (s.pages e.1).length
  · obtain ⟨name, hid, hlt⟩ := hin
    obtain ⟨f, hf, -⟩ := h.file hid
    obtain ⟨m', hload, hserves, hreads, hwarm⟩ := h.loadPage_start hf (List.getElem?_eq_getElem hlt)
    have hshown : f.shown e.2 (s.pages e.1)[e.2.toNat] = .ok (s.pages e.1)[e.2.toNat] := by
      rw [OpenFile.shown, hv hid _ (List.getElem_mem hlt)]
      split <;> rfl
    have htwin := Twin.loaded m e.1 e.2
    rw [hload] at htwin
    exact ⟨m', htwin, hserves, hreads.warm, fun _ _ _ => hwarm _ hshown⟩
  · exact ⟨m, .refl m, h, fun hw => hw, fun name hid hlt => absurd ⟨name, hid, hlt⟩ hin⟩

theorem exists_allWarm (h : m.Serves size s) (hv : s.Sealed) (es : List (FileId × PageIndex)) :
    ∃ m', m.Twin m' ∧ m'.Serves size s ∧
      ∀ e ∈ es, ∀ name, s.names e.1 = some name → e.2.toNat < (s.pages e.1).length → m'.Warm e.1 e.2 := by
  induction es with
  | nil => exact ⟨m, .refl m, h, nofun⟩
  | cons e es ih =>
    obtain ⟨m₁, htwin₁, hs₁, hall⟩ := ih
    obtain ⟨m₂, htwin₂, hs₂, hkept, hself⟩ := hs₁.exists_warm hv e
    refine ⟨m₂, htwin₁.trans htwin₂, hs₂, fun e' he name hid hlt => ?_⟩
    rcases List.mem_cons.mp he with rfl | he
    · exact hself name hid hlt
    · exact hkept (hall e' he name hid hlt)

/-- A volume whose pages have their seals has a twin with all pages in memory. -/
theorem exists_loaded (h : m.Serves size s) (hv : s.Sealed) :
    ∃ m', m.Twin m' ∧ m'.Serves size s ∧ m'.Loaded s := by
  obtain ⟨m', htwin, hs, hall⟩ := h.exists_allWarm hv (m.volume.catalog.names.toList.flatMap fun e =>
    (List.range (s.pages e.1).length).map fun i => (e.1, UInt64.ofNat i))
  refine ⟨m', htwin, hs, fun id name hid i hi => hall (id, i) ?_ name hid hi⟩
  refine List.mem_flatMap.mpr ⟨(id, name), ?_, List.mem_map.mpr ⟨i.toNat, List.mem_range.mpr hi, ?_⟩⟩
  · rw [Std.TreeMap.mem_toList_iff_getElem?_eq_some, h.catalog.name]
    exact hid
  · rw [UInt64.ofNat_toNat]

end Serves

/-- A volume mirrors its disk if its twin serves what the disk holds. -/
theorem Mirrors.of_twin {dir : Path} {place : Location} (h : m₀.Mirrors dir place size s)
    (hu : m₀.Unchanged m) (ht : m.Twin m') (hs : m'.Serves size s) : m.Mirrors dir place size s := by
  have hback {id : FileId} {f : OpenFile} (hf : m.volume.files[id]? = some f) :
      ∃ g, m'.volume.files[id]? = some g ∧ g.name = f.name ∧ g.file = f.file := by
    have hsame := ht.unchanged.file id
    rw [hf, Option.map_some, Option.map_eq_some_iff] at hsame
    obtain ⟨g, hg, heq⟩ := hsame
    rw [Prod.mk.injEq] at heq
    exact ⟨g, hg, heq.1, heq.2⟩
  refine ⟨hu.disk ▸ h.stocks, hu.directory.trans h.directory, hu.pageSize.trans h.pageSize,
    ⟨fun id => ?_, fun hid => ?_⟩, fun {id name} hid => ?_, fun {id} hid => ?_⟩
  · rw [← ht.unchanged.names]
    exact hs.catalog.name id
  · rw [← ht.nextId]
    exact hs.catalog.next hid
  · obtain ⟨n, res, hfile, hn, -⟩ := h.file hid
    have hsame := hu.file id
    rw [hfile, Option.map_some, Option.map_eq_some_iff] at hsame
    obtain ⟨f, hf, heq⟩ := hsame
    obtain ⟨rfl, hhandle⟩ : f.name = name ∧ f.file = .handle dir name n size (s.pages id) := by
      rwa [Prod.mk.injEq] at heq
    refine ⟨n, f.resident, by rw [hf, ← hhandle], hu.disk ▸ hn, fun i p hi => ?_⟩
    -- a page in memory is what loading it gives, here and in the twin
    have hload : (loadPage id i).start m = (.ok p, m) := by
      rw [loadPage_start_eq, hf]
      dsimp only
      rw [hi]
    have hshown := ht.unchanged.loadPage id i
    rw [hload] at hshown
    obtain ⟨g, hg, -⟩ := hs.file hid
    cases hp : (s.pages id)[i.toNat]? with
    | none =>
      rw [hs.loadPage_outside hg (List.getElem?_eq_none_iff.mp hp)] at hshown
      cases hshown
    | some q =>
      obtain ⟨_, hstart, -⟩ := hs.loadPage_start hg hp
      rw [hstart] at hshown
      rw [OpenFile.shown_ok hshown]
  · cases hf : m.volume.files[id]? with
    | none => rfl
    | some f =>
      obtain ⟨g, hg, -⟩ := hback hf
      rw [hs.noFile hid] at hg
      cases hg

end RefStore.Mounted
