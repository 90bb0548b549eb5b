import RefStore.Proofs.FirstCollections

/-!
# Sizes of collections

In every history of a store, after every operation and at every moment of one, the size of a collection
is the number of its entries. Main statement: `History.sizes_count`.
-/

namespace RefStore

open Collection (Roll Action)

namespace Collection.History

variable {n : Nat} {roll : Roll} {st : Store} {directory : Path}

/-- In every history, after every operation, the size of a collection that is alive is the number of
its entries; it is so at every moment of an operation, too, and there a put on such a collection fails
only if its size cannot go up, and a remove never does. A broken engine answers nothing. -/
theorem sizes_count (h : History directory st roll n) (hn : n < 2 ^ 61) :
    (st.engine.journal.broken = false → ∀ p ∈ roll.live, ∃ c : Collection, c.pointer = p ∧
      (∀ c' ∈ roll.handles, c'.pointer = p → c' = c) ∧ (Store.loadCollection p).Gives st c st ∧
      st.SizeCounts c) ∧
    (st.engine.journal.broken = true → ∀ c : Collection,
      (Store.view c.size).start st = (refuse (.storage .recoveryRequired), st) ∧
      (Store.view c.entries).start st = (refuse (.storage .recoveryRequired), st)) ∧
    ∀ {op e}, Engine.start.Gives st.engine op e → ∀ {roll' m w},
      Progress roll n (.begun st e op) roll' m w → m + 1 < 2 ^ 61 →
      (∀ p ∈ roll'.live, ∃ c : Collection, c.pointer = p ∧
        (∀ c' ∈ roll'.handles, c'.pointer = p → c' = c) ∧
        (Store.loadCollection p).Gives w.store c w.store ∧ w.SizeCounts c) ∧
      ∀ c ∈ roll'.handles, c.pointer ∈ roll'.live →
        (∀ r value cause w', (c.put r value).start w = (.error cause, w') →
          cause = .error (.sizes (.slot .overflow c.pointer.slot))) ∧
        ∀ r, ∃ old w', (c.remove r).Gives w old w' := by
  refine ⟨fun hu p hp => ?_, fun hu c => ⟨Store.view_refuses _ hu, Store.view_refuses _ hu⟩,
    fun {op e} started {roll' m w} progress hm => ?_⟩
  · obtain ⟨size, s, ⟨shelves, htidy⟩, -⟩ := h.rests hn hu
    obtain ⟨c, hc, hsole, hload, k, es, hk, hes, hcount⟩ :=
      Workspace.sizeCounts_of_live (w := ⟨st, .none, []⟩) htidy hp
    exact ⟨c, hc, hsole, hload, k, es, Store.view_gives hu hk, Store.view_gives hu hes, hcount⟩
  · obtain ⟨size, s, ⟨shelves, htidy⟩, hlog⟩ := h.rests hn (Engine.start_eq started).1
    obtain ⟨shelves', hw⟩ := progress.inHand (Store.begun_inHand htidy hlog started) (Nat.lt_of_succ_lt hm)
    refine ⟨fun p hp => Workspace.sizeCounts_of_live hw.now hp, fun c hc hl =>
      ⟨fun r value cause w' hput => ((hw.put_ends hc hm r value).of_error hput).2 hl, fun r => ?_⟩⟩
    rcases hr : (c.remove r).start w with ⟨cause | old, w'⟩
    · exact absurd hl ((hw.remove_ends hc r).of_error hr).2
    · exact ⟨old, w', hr⟩

/-- After a commit two collections of a cluster have an entry each, and say so. In the next operation one of
them gets another entry, and then one is removed. -/
theorem sizeCounts_after_puts : ∃ (st : Store) (x : ClusterStorage) (op : Operation) (e : Engine) (w : Workspace),
    History ⟨["d"]⟩ st (.pair x) 4 ∧ (Store.view x.first.size).Gives st 1 st ∧ st.SizeCounts x.first ∧
      st.SizeCounts x.second ∧ Engine.start.Gives st.engine op e ∧
      Progress (.pair x) 4 (.begun st e op) (.pair x) 5 w ∧ x.first.size.Gives w 2 w ∧ w.SizeCounts x.first ∧
      ∃ old w', (x.first.remove ⟨1, 1⟩).Gives w old w' := by
  obtain ⟨x, st, -, h⟩ := Store.exists_hasPair 1 ⟨1, 1⟩ ⟨1, 1⟩ 10 20
  obtain ⟨op, e, started⟩ := Engine.exists_start h.usable
  have hfirst : x.first ∈ (Roll.pair x).handles := List.mem_cons_of_mem _ List.mem_cons_self
  have hlive : x.first.pointer ∈ (Roll.pair x).live := List.mem_cons_of_mem _ List.mem_cons_self
  obtain ⟨s, w, hput, -, hw⟩ := h.put_first started (r := ⟨2, 2⟩) (by decide) 30
  have progress := Progress.action (@Progress.nothing (.pair x) 4 (.begun st e op)) (.put x.first ⟨2, 2⟩ 30) hfirst
    trivial (Action.put_gives hput)
  obtain ⟨hcommitted, -, hflight⟩ := h.history.sizes_count (by decide)
  obtain ⟨hcounts, hcalls⟩ := hflight started progress (by decide)
  obtain ⟨_, hc₁, hsole₁, -, hsize₁⟩ := hcommitted h.usable x.first.pointer hlive
  obtain ⟨_, hc₂, hsole₂, -, hsize₂⟩ := hcommitted h.usable x.second.pointer List.mem_cons_self
  obtain ⟨_, hc₃, hsole₃, -, hsize₃⟩ := hcounts x.first.pointer hlive
  obtain rfl := hsole₁ x.first hfirst rfl
  obtain rfl := hsole₂ x.second List.mem_cons_self rfl
  obtain rfl := hsole₃ x.first hfirst rfl
  exact ⟨st, x, op, e, w, h.history, h.views.1, hsize₁, hsize₂, started, progress,
    Workspace.size_gives hw.now (Shelves.only_zero _) rfl (by decide), hsize₃,
    (hcalls x.first hfirst hlive).2 ⟨1, 1⟩⟩

end Collection.History

end RefStore
