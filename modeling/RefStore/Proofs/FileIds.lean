import RefStore.Proofs.PageAnswers

/-!
# Ids of files

After any run names and ids belong together, a file keeps its name until it is deleted, and no id that was
given to a file is handed out or given again, whatever was deleted and however often the directory was opened.
A catalog comes back from its bytes. Main statement: `Volume.Reached.ids_kept`.
-/

namespace RefStore

namespace Mounted

theorem reserveId_next {m m' : Mounted} {id : FileId} (h : reserveId.Gives m id m') :
    id = m.volume.catalog.nextId := by
  have hg : reserveId.Gives m m.volume.catalog.nextId
      { m with volume := { m.volume with catalog := m.volume.catalog.reserve.2 } } :=
    (Task.Gives.state m).bind ((Task.Gives.change _ m).bind (.pure _ _))
  exact (h.unique hg).1

theorem create_next {m m' : Mounted} {id : FileId} {name : String} (h : (create name).Gives m id m') :
    id = m.volume.catalog.nextId := by
  obtain ⟨next, _, hreserved, hmade⟩ := Task.bind_gives h
  obtain ⟨_, _, -, hlast⟩ := Task.bind_gives hmade
  exact (Task.gives_pure hlast).1.trans (reserveId_next hreserved)

end Mounted

namespace Volume

variable {dir : Path} {place : Location} {size : Nat} {l l' : Ledger} {m m' : Mounted} {id f : FileId}
  {name : String}

namespace Ledger

theorem name?_withFile_of_ne (h : f ≠ id) : (l.withFile id name).name? f = l.name? f :=
  congrArg (Option.map Prod.fst) (if_neg h)

theorem name?_delete_self (u : Unit) : (l.delete id (.ok u)).name? id = none :=
  congrArg (Option.map Prod.fst) (if_pos rfl)

theorem name?_delete_of_ne (h : f ≠ id) (r : Checked StorageError Unit) : (l.delete id r).name? f = l.name? f := by
  cases r with
  | error cause => rfl
  | ok u => exact congrArg (Option.map Prod.fst) (if_neg h)

theorem name?_installPage (i : PageIndex) (page : Page) (r : Checked StorageError Unit) :
    (l.installPage id i page r).name? f = l.name? f := by
  cases r with
  | error cause => rfl
  | ok u =>
    simp only [name?, Ledger.installPage]
    split
    · next he =>
      rw [he]
      cases l.files id <;> rfl
    · rfl

namespace Stands

theorem fileName_start (h : l.Stands dir place size m) (id : FileId) :
    ((Mounted.fileName id).start m).1 = .ok name ↔ l.name? id = some name := by
  cases hx : l.name? id with
  | none =>
    rw [Mounted.fileName, Task.start_bind_error (h.archives.openFile_none hx)]
    exact ⟨nofun, nofun⟩
  | some x =>
    rw [(h.archives.fileName hx).eq, Except.ok.injEq, Option.some.injEq]

theorem given_of_name? (h : l.Stands dir place size m) (hid : l.name? id = some name) : l.given id :=
  h.given fun hnone => by simp [name?, hnone] at hid

theorem not_given_of_reserveId (h : l.Stands dir place size m) (hg : Mounted.reserveId.Gives m id m') :
    ¬ l.given id :=
  Mounted.reserveId_next hg ▸ h.not_given_next

theorem not_given_of_create (h : l.Stands dir place size m) (hg : (Mounted.create name).Gives m id m') :
    ¬ l.given id :=
  Mounted.create_next hg ▸ h.not_given_next

/-- An id that was given to a file keeps its name, until the file is deleted. -/
theorem step_given {c : Call} (h : l.Stands dir place size m) (hs : Step dir size c l m l' m')
    (hid : l.given id) :
    l'.given id ∧ (l'.name? id = l.name? id ∨ c = .delete id ∧ l'.name? id = none) := by
  cases hs with
  | reserve valid done => exact ⟨hid, .inl rfl⟩
  | @create _ _ name r _ named valid done =>
    cases r with
    | error cause => exact ⟨hid, .inl rfl⟩
    | ok next =>
      have hne : id ≠ next := by
        rintro rfl
        exact h.not_given_of_create done hid
      exact ⟨.inr hid, .inl (name?_withFile_of_ne hne)⟩
  | @createWithId _ _ new name r _ named reserved done =>
    cases r with
    | error cause => exact ⟨hid, .inl rfl⟩
    | ok u =>
      have hne : id ≠ new := by
        rintro rfl
        exact (h.fresh id reserved).1 hid
      exact ⟨.inr hid, .inl (name?_withFile_of_ne hne)⟩
  | @installPage _ _ _ i page r =>
    refine ⟨?_, .inl (name?_installPage i page r)⟩
    cases r <;> exact hid
  | loadPage done => exact ⟨hid, .inl rfl⟩
  | @delete _ _ gone r _ done =>
    refine ⟨by cases r <;> exact hid, ?_⟩
    by_cases hne : id = gone
    · subst hne
      cases r with
      | error cause => exact .inl rfl
      | ok u => exact .inr ⟨rfl, name?_delete_self u⟩
    · exact .inl (name?_delete_of_ne hne r)
  | close done => exact ⟨hid, .inl rfl⟩
  | reopen done => exact ⟨hid, .inl rfl⟩

/-- However many calls follow, it keeps its name or loses it with the file, and gets no other. -/
theorem steps_given {cs : List Call} (h : l.Stands dir place size m) (hs : Steps dir size cs l m l' m')
    (hid : l.given id) :
    l'.given id ∧ (l'.name? id = l.name? id ∨ .delete id ∈ cs ∧ l'.name? id = none) := by
  induction hs with
  | none => exact ⟨hid, .inl rfl⟩
  | next first _ ih =>
    obtain ⟨hgiven, hname⟩ := h.step_given first hid
    obtain ⟨hgiven', hname'⟩ := ih (h.step first) hgiven
    refine ⟨hgiven', ?_⟩
    rcases hname' with hkept' | ⟨hmem, hnone⟩
    · rcases hname with hkept | ⟨rfl, hnone⟩
      · exact .inl (hkept'.trans hkept)
      · exact .inr ⟨List.mem_cons_self, hkept'.trans hnone⟩
    · exact .inr ⟨List.mem_cons_of_mem _ hmem, hnone⟩

end Stands

end Ledger

/-- Ids and names of files belong together one by one. Whatever calls follow, an id that was ever given to a
file keeps its name unless the file is deleted, and is neither handed out nor given again. What is stored of a
catalog is the whole catalog. -/
theorem Reached.ids_kept (h : Reached dir size l m) :
    (∀ id name, m.volume.idOf? name = some id ↔ l.name? id = some name) ∧
      (∀ id name, ((Mounted.fileName id).start m).1 = .ok name ↔ l.name? id = some name) ∧
      (∀ id id' name, l.name? id = some name → l.name? id' = some name → id = id') ∧
      (∀ id name, l.name? id = some name → l.given id) ∧
      (∀ cs l' m' id, Steps dir size cs l m l' m' → l.given id →
        l'.given id ∧ (l'.name? id = l.name? id ∨ .delete id ∈ cs ∧ l'.name? id = none) ∧
          (∀ f z, Mounted.reserveId.Gives m' f z → f ≠ id) ∧
          ∀ name f z, (Mounted.create name).Gives m' f z → f ≠ id) ∧
      ∀ (c : Catalog) (free : FileId), c.names[free]? = none →
        (∀ (id : FileId) name, c.names[id]? = some name → name.utf8ByteSize ≤ Catalog.longestName) →
        ∃ c', Catalog.decode c.encode = .ok c' ∧ c'.nextId = c.nextId ∧
          ∀ id : FileId, c'.names[id]? = c.names[id]? := by
  obtain ⟨place, hs⟩ := h.stands
  refine ⟨fun id name => hs.archives.idOf?_eq_some, fun id name => hs.fileName_start id,
    fun id id' name => hs.archives.disk.sane.inj, fun id name => hs.given_of_name?,
    fun cs l' m' id hsteps hid => ?_,
    fun c free hfree hn => Catalog.decode_encode (c.encodable_of_free hfree hn)⟩
  have hs' := hs.steps hsteps
  obtain ⟨hgiven, hname⟩ := hs.steps_given hsteps hid
  refine ⟨hgiven, hname, fun f z hg => ?_, fun name f z hg => ?_⟩
  · rintro rfl
    exact hs'.not_given_of_reserveId hg hgiven
  · rintro rfl
    exact hs'.not_given_of_create hg hgiven

theorem ids_kept_after_delete : ∃ l m, Reached ⟨["d"]⟩ 8 l m ∧ l.name? 0 = none ∧ l.recovers = true ∧
    ∀ id m', Mounted.reserveId.Gives m id m' → id ≠ 0 := by
  obtain ⟨m, h⟩ := Reached.exists_created
  obtain ⟨place, hs⟩ := h.stands
  have hid : ((Ledger.empty.create "a.grb" (.ok 0)).archive 8).names 0 = some "a.grb" := rfl
  obtain ⟨m₁, hdeleted, -⟩ := hs.archives.delete hid
  have h₁ := h.step (.delete hdeleted)
  obtain ⟨place₁, hs₁⟩ := h₁.stands
  obtain ⟨v, hopened, -⟩ := hs₁.archives.reopens Nat.one_pos
  have h₂ := h₁.step (.reopen hopened)
  have hsteps : Steps ⟨["d"]⟩ 8 [.delete 0, .reopen 1] (Ledger.empty.create "a.grb" (.ok 0)) m _ ⟨m₁.disk, v⟩ :=
    .next (.delete hdeleted) (.next (.reopen hopened) .none)
  obtain ⟨-, -, hnext, -⟩ := h.ids_kept.2.2.2.2.1 _ _ _ 0 hsteps (.inl rfl)
  exact ⟨_, _, h₂, rfl, rfl, hnext⟩

end Volume

end RefStore
