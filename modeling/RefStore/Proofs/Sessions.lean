import RefStore.Proofs.FirstCollections

/-!
# What sessions note

A session notes the pointers of collections that were made for an owner. It knows nothing of how operations
end: what one has noted stays, also when the operation is given up. So a session has the last pointer that was
noted for each owner since it was cleared, and that is one of a collection that was there after a commit if no
operation was given up since. Main statements: `Session.Runs.changes_eq`, `Session.Runs.kept`.
-/

namespace RefStore

theorem Uuid.compare_eq (a b : Uuid) : compare a b = compareOn Uuid.bits a b := by
  show Ordering.then (compare a.bits b.bits) .eq = compare a.bits b.bits
  cases compare a.bits b.bits <;> rfl

instance : Std.TransOrd Uuid := by
  show Std.TransCmp (compare : Uuid → Uuid → Ordering)
  rw [show (compare : Uuid → Uuid → Ordering) = compareOn Uuid.bits from
    funext fun a => funext fun b => Uuid.compare_eq a b]
  infer_instance

instance : Std.LawfulEqOrd Uuid where
  eq_of_compare {a b} h := by
    have hbits : compare a.bits b.bits = .eq := (Uuid.compare_eq a b).symm.trans h
    cases a
    cases b
    exact congrArg Uuid.mk (Std.LawfulEqOrd.compare_eq_iff_eq.mp hbits)

/-- What a session notes: a pointer for an owner, in an operation that is committed or given up. -/
structure Note where
  owner : Uuid
  pointer : CollectionPointer
  committed : Bool
  deriving DecidableEq, Repr

variable {s s' : Session} {w w₀ : Workspace} {st st' : Store} {op : Operation} {e : Engine} {notes : List Note}
  {made : List (Uuid × CollectionPointer)} {owner : Uuid} {p : CollectionPointer}

namespace Session

theorem changes_record (s : Session) (owner : Option Uuid) (p : CollectionPointer) (id : Uuid) :
    (s.record owner (some p)).changes[id]? =
      if owner = some id ∧ p.isValid = true then some p else s.changes[id]? := by
  cases owner with
  | none => rfl
  | some owner =>
    rw [record]
    split
    · next hvalid =>
      rw [lookup_insert]
      simp [hvalid, eq_comm]
    · next hinvalid => simp [hinvalid]

end Session

/-- The pointers that were made for owners, the last one first. -/
abbrev Made := List (Uuid × CollectionPointer)

namespace Workspace

/-- The work of an operation in which a session notes what is made for owners. Whatever fails notes nothing,
and anything else may be done besides. -/
inductive Notes (w₀ : Workspace) (s₀ : Session) : Made → Workspace → Session → Prop where
  | nothing : Notes w₀ s₀ [] w₀ s₀
  | owned {made : Made} {w w' : Workspace} {s s' : Session} {cluster : ClusterId} {owner : Option Uuid}
      {p : CollectionPointer} (before : Notes w₀ s₀ made w s)
      (run : (createOwned s cluster owner).Gives w (p, s') w') :
      Notes w₀ s₀ ((owner.filter fun _ => p.isValid).toList.map (·, p) ++ made) w' s'
  | failed {made : Made} {w w' : Workspace} {s : Session} {cluster : ClusterId} {owner : Option Uuid}
      {cause : Failure CollectionError} (before : Notes w₀ s₀ made w s)
      (fails : (createOwned s cluster owner).start w = (.error cause, w')) : Notes w₀ s₀ made w' s
  | deed {made : Made} {w : Workspace} {s : Session} (before : Notes w₀ s₀ made w s) (deed : Deed) :
      Notes w₀ s₀ made (deed.run.start w).2 s

theorem createOwned_session {cluster : ClusterId} {owner : Option Uuid} {w' : Workspace}
    (run : (createOwned s cluster owner).Gives w (p, s') w') : s' = s.record owner (some p) := by
  obtain ⟨c, w₁, -, hpure⟩ := Task.bind_gives run
  obtain ⟨hmade, -⟩ := Task.gives_pure hpure
  cases hmade
  rfl

/-- A session has what was made last for an owner, or what it had. -/
theorem Notes.changes_eq (h : w₀.Notes s made w s') (id : Uuid) :
    s'.changes[id]? = ((made.find? fun x => x.1 = id).map Prod.snd).or s.changes[id]? := by
  induction h with
  | nothing => rfl
  | @owned made w w' s₁ s₂ cluster owner p before run ih =>
    rw [createOwned_session run, Session.changes_record, ih]
    cases owner with
    | none => rfl
    | some owner =>
      by_cases hvalid : p.isValid = true <;> by_cases hsame : owner = id <;> simp [hvalid, hsame, Option.filter]
  | failed before fails ih => exact ih
  | deed before deed ih => exact ih

end Workspace

/-! ## Operation after operation -/

namespace Session

/-- A store, a session, and what the session has noted since it was cleared, the last note first. Operations
are committed or given up, whether they fail themselves or their commit does. In between the session may be
cleared, and anything may be done to the store. -/
inductive Runs : Store → Session → List Note → Prop where
  | fresh (st : Store) : Runs st .empty []
  | cleared {st : Store} {s : Session} {notes : List Note} (before : Runs st s notes) : Runs st s.clear []
  | elsewhere {st : Store} {s : Session} {notes : List Note} (before : Runs st s notes) (st' : Store) :
      Runs st' s notes
  | committed {α : Type} {st st' : Store} {s s' : Session} {notes : List Note} {made : Made} {op : Operation}
      {e : Engine} {a : α} (before : Runs st s notes) (started : Engine.start.Gives st.engine op e)
      (t : Task Workspace CollectionError α)
      (work : (Workspace.begun st e op).Notes s made (t.start (.begun st e op)).2 s')
      (run : (Store.atomically t).Gives st a st') :
      Runs st' s' (made.map (fun x => ⟨x.1, x.2, true⟩) ++ notes)
  | givenUp {α : Type} {st st' : Store} {s s' : Session} {notes : List Note} {made : Made} {op : Operation}
      {e : Engine} {cause : Failure CollectionError} (before : Runs st s notes)
      (started : Engine.start.Gives st.engine op e) (t : Task Workspace CollectionError α)
      (work : (Workspace.begun st e op).Notes s made (t.start (.begun st e op)).2 s')
      (fails : (Store.atomically t).start st = (.error cause, st')) :
      Runs st' s' (made.map (fun x => ⟨x.1, x.2, false⟩) ++ notes)

theorem find?_notes (made : Made) (committed : Bool) (notes : List Note) (id : Uuid) :
    (((made.map fun x => (⟨x.1, x.2, committed⟩ : Note)) ++ notes).find? fun n => n.owner = id).map Note.pointer =
      ((made.find? fun x => x.1 = id).map Prod.snd).or ((notes.find? fun n => n.owner = id).map Note.pointer) := by
  rw [List.find?_append, List.find?_map, Option.map_or, Option.map_map]
  rfl

/-- A session has the last pointer that was noted for each owner, whether the operation was committed or given
up. -/
theorem Runs.changes_eq (h : Runs st s notes) (id : Uuid) :
    s.changes[id]? = (notes.find? fun n => n.owner = id).map Note.pointer := by
  induction h with
  | fresh st => exact Std.TreeMap.getElem?_emptyc
  | cleared before ih => exact Std.TreeMap.getElem?_emptyc
  | elsewhere before st' ih => exact ih
  | committed before started t work run ih => rw [work.changes_eq, ih, find?_notes]
  | givenUp before started t work fails ih => rw [work.changes_eq, ih, find?_notes]

/-- So if no operation was given up, a session has nothing but pointers of operations that were committed. -/
theorem Runs.kept (h : Runs st s notes) (hnotes : ∀ n ∈ notes, n.committed = true)
    (hp : s.changes[owner]? = some p) : ⟨owner, p, true⟩ ∈ notes := by
  rw [h.changes_eq, Option.map_eq_some_iff] at hp
  obtain ⟨n, hfind, rfl⟩ := hp
  have hn := List.mem_of_find?_eq_some hfind
  have howner : n.owner = owner := by simpa using List.find?_some hfind
  rw [← howner, ← hnotes n hn]
  exact hn

/-- But a note stays when its operation is given up: a session has the pointer of a collection in a cluster
that the store does not have. -/
theorem exists_stale : ∃ (st : Store) (s : Session) (owner : Uuid) (p : CollectionPointer),
    Runs st s [⟨owner, p, false⟩] ∧ s.changes[owner]? = some p ∧ st.registry.clusterIds = [] := by
  have hdir := Path.roomy_d
  obtain ⟨st, settings, d, report, disk', op, e, -, hempty, hopen, started⟩ := Store.exists_opened
  obtain ⟨x, w, _, _, _, _, hcluster, makes, -, hpair⟩ :=
    Store.exists_pair hdir hempty Disk.sound_empty rfl hopen started 1 ⟨1, 1⟩ ⟨1, 1⟩ 10 20
  have built : Store.Built ⟨["d"]⟩ settings.pageSize st .empty 0 := .opened hempty Disk.sound_empty rfl rfl hopen
  have hg : (Workspace.createCollection 1).Gives (.begun st e op) x.first w := hcluster ▸ makes.first
  have room : (Workspace.begun st e op).store.engine.mounted.volume.catalog.nextId.toNat + 2 < UInt32.size := by
    rw [makes.next]
    decide
  have valid := hpair.valid_first
  let owner : Uuid := ⟨1⟩
  have hnew : (Session.empty.record (some owner) (some x.first.pointer)).changes[owner]? = some x.first.pointer := by
    rw [changes_record, if_pos ⟨rfl, valid⟩]
  generalize hs : Session.empty.record (some owner) (some x.first.pointer) = s at hnew
  have hmade : (Workspace.createOwned .empty 1 (some owner)).Gives (.begun st e op) (x.first.pointer, s) w :=
    hs ▸ Task.Gives.bind hg (.pure _ w)
  have run : (Collection.Call.createOwned .empty 1 (some owner)).run.Gives (.begun st e op)
      (Collection.Ledger.enter x.first.pointer) w := Task.Gives.bind hmade (.pure _ w)
  -- the operation makes the collection and then fails
  let t : Task Workspace CollectionError Unit :=
    Workspace.createOwned .empty 1 (some owner) >>= fun _ => refuse (.corruptState "given up")
  have ht : t.start (.begun st e op) = (refuse (.corruptState "given up"), w) := hmade.start_bind _
  have notes : (Workspace.begun st e op).Notes .empty [(owner, x.first.pointer)] w s := by
    have hnotes := Workspace.Notes.owned .nothing hmade
    rw [Option.filter_some, valid] at hnotes
    exact hnotes
  have fails : (Store.atomically t).start st = (refuse (.corruptState "given up"), w.rollback) := by
    rw [Collection.start_atomically started, ht]
    rfl
  have settled := (@Workspace.Settles.nothing (.begun st e op) .empty).gives run room
  have after := Store.Built.rolledBack built started t (by rw [ht]; exact settled) (congrArg Prod.fst ht)
  rw [fails] at after
  obtain ⟨place, stock, -, hstands⟩ := after.registers hdir (by decide)
  have hnone : w.rollback.registry.clusterIds = [] :=
    List.eq_nil_iff_forall_not_mem.mpr fun d hd => List.not_mem_nil (hstands.clusters.mpr (Std.TreeMap.mem_keys.mp hd))
  exact ⟨w.rollback, s, owner, x.first.pointer, .givenUp (.fresh st) started t (by rw [ht]; exact notes) fails, hnew,
    hnone⟩

end Session

end RefStore
