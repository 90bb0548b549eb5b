import RefStore.Proofs.TreeContents

/-!
# Deleted collections

A collection is deleted batch by batch: the first entries of what is left of its range are looked up and
removed, and the search goes on above the last of them. This ends, since each batch makes the rest of the
range smaller, and there are no more entries than the pages of a tree can hold. What is left are the
entries with other ids. Then the slot is retired. Main statement: `Directory.Lives.deletes_collection`.
-/

namespace RefStore

variable {size n k : Nat} {s : Stock} {es batch : List Entry} {key : Key}

/-! ## Entries that are left -/

namespace Entries

/-- What is left of some entries without those that have the keys of a batch. -/
def without (batch es : List Entry) : List Entry := es.filter fun e => e.key ∉ batch.map Entry.key

/-- An entry is cut out. -/
theorem Cut.drop_eq {below above : List Entry} {old : Option Int32} (h : Cut es key below old above) :
    below ++ above = es.filter fun e => e.key ≠ key := by
  have hbelow : (below.filter fun e => e.key ≠ key) = below :=
    List.filter_eq_self.mpr fun e he => decide_eq_true (h.below_lt e he).ne
  have habove : (above.filter fun e => e.key ≠ key) = above :=
    List.filter_eq_self.mpr fun e he => decide_eq_true (h.lt_above e he).ne'
  have hold : ((old.toList.map fun value => (⟨key, value⟩ : Entry)).filter fun e => e.key ≠ key) = [] := by
    refine List.filter_eq_nil_iff.mpr fun e he => ?_
    obtain ⟨value, -, rfl⟩ := List.mem_map.mp he
    simp
  rw [h.eq, List.filter_append, List.filter_append, hbelow, hold, habove, List.append_nil]

theorem without_nil (es : List Entry) : without [] es = es :=
  List.filter_eq_self.mpr fun _ _ => decide_eq_true List.not_mem_nil

theorem without_cons (e : Entry) (batch es : List Entry) :
    without (e :: batch) es = without batch (es.filter fun x => x.key ≠ e.key) := by
  rw [without, without, List.filter_filter]
  refine List.filter_congr fun x _ => ?_
  rw [Bool.eq_iff_iff, Bool.and_eq_true, decide_eq_true_iff, decide_eq_true_iff, decide_eq_true_iff, List.map_cons,
    List.mem_cons, not_or]
  exact and_comm

end Entries

namespace Tree.KeyRange

variable {r : KeyRange} {last : Entry}

/-- The entries outside a range. -/
def leave (r : KeyRange) (es : List Entry) : List Entry := es.filter fun e => r.isBelow e.key || r.isAbove e.key

/-- What of a range is above a key. -/
def above (r : KeyRange) (key : Key) : KeyRange := ⟨key, false, r.high, r.includesHigh⟩

theorem inside_iff : (!r.isBelow key && !r.isAbove key) = true ↔ r.Covers key := by
  rw [covers_iff]
  simp

theorem outside_iff : (r.isBelow key || r.isAbove key) = true ↔ ¬ r.Covers key := by
  rw [covers_iff, Bool.or_eq_true]
  tauto

theorem leave_of_pick (h : r.pick es = []) : r.leave es = es :=
  List.filter_eq_self.mpr fun _ he => outside_iff.mpr fun hr => List.not_mem_nil (h ▸ mem_pick.mpr ⟨he, hr⟩)

section

variable (ho : Entries.InOrder es) (hbatch : (r.pick es).take k = batch) (hlast : batch.getLast? = some last)

include hbatch

theorem covers_batch {e : Entry} (he : e ∈ batch) : r.Covers e.key := by
  rw [← hbatch] at he
  exact (mem_pick.mp (List.mem_of_mem_take he)).2

include ho hlast

/-- An entry of the range is above the batch, or has one of its keys. -/
theorem covers_above {e : Entry} (he : e ∈ es) (hnot : e.key ∉ batch.map Entry.key) :
    (r.above last.key).Covers e.key ↔ r.Covers e.key := by
  have hlast' : last ∈ batch := List.mem_of_getLast? hlast
  refine ⟨fun h => (covers_batch hbatch hlast').after h, fun h => ⟨?_, h.2⟩⟩
  have hin : Entries.InOrder (r.pick es) := inOrder_pick ho
  have hmem : e ∈ r.pick es := mem_pick.mpr ⟨he, h⟩
  rw [← List.take_append_drop k (r.pick es), hbatch] at hin hmem
  rcases List.mem_append.mp hmem with hmem | hmem
  · exact absurd (List.mem_map_of_mem hmem) hnot
  · exact (List.pairwise_append.mp hin).2.2 last hlast' e hmem

/-- Without the batch, the entries outside the range above it are those outside the whole range. -/
theorem leave_without : (r.above last.key).leave (Entries.without batch es) = r.leave es := by
  rw [leave, Entries.without, List.filter_filter]
  refine List.filter_congr fun e he => ?_
  rw [Bool.eq_iff_iff, Bool.and_eq_true, outside_iff, outside_iff, decide_eq_true_iff]
  by_cases hkey : e.key ∈ batch.map Entry.key
  · obtain ⟨b, hb, hsame⟩ := List.mem_map.mp hkey
    exact iff_of_false (fun h => h.2 hkey) (not_not.mpr (hsame ▸ covers_batch hbatch hb))
  · rw [covers_above ho hbatch hlast he hkey, and_iff_left hkey]

/-- And those in it are the rest of the range. -/
theorem pick_without : (r.above last.key).pick (Entries.without batch es) = Entries.without batch (r.pick es) := by
  rw [pick, pick, Entries.without, Entries.without, List.filter_filter, List.filter_filter]
  refine List.filter_congr fun e he => ?_
  rw [Bool.eq_iff_iff, Bool.and_eq_true, inside_iff, Bool.and_eq_true, inside_iff, decide_eq_true_iff, and_comm]
  exact and_congr_right (covers_above ho hbatch hlast he)

/-- The rest is smaller. -/
theorem length_pick_without : ((r.above last.key).pick (Entries.without batch es)).length < (r.pick es).length := by
  have hlast' : last ∈ batch := List.mem_of_getLast? hlast
  rw [pick_without ho hbatch hlast, Entries.without, List.length_filter_lt_length_iff_exists]
  refine ⟨last, List.mem_of_mem_take (hbatch.symm ▸ hlast'), ?_⟩
  simp [List.mem_map_of_mem hlast']

end

end Tree.KeyRange

/-! ## How many entries there can be -/

namespace Tree

theorem Shape.Fits.length_tip_le {h : Nat} {b : Shape h} (hb : b.Fits size) :
    ∀ tip ∈ b.tips, tip.entries.length ≤ Leaf.capacity size := by
  induction h with
  | zero =>
    intro tip htip
    obtain rfl : tip = b := List.mem_singleton.mp htip
    exact hb
  | succ h ih =>
    intro tip htip
    obtain ⟨c, hc, htip⟩ := List.mem_flatMap.mp htip
    exact ih (hb.2.2 c hc) tip htip

/-- The bound on the entries of a tree is above their number. -/
theorem entryBound_finds {t : Transaction} {file : FileId} {base : List Page} (hample : Ample size)
    (hps : t.mounted.volume.pageSize = size) (h : t.Finds file base (Written size es n)) :
    ∃ bound, (Workspace.entryBound file).Gives t bound t ∧ es.length < bound := by
  obtain ⟨sheet, _, b, hs, hb, rfl, -⟩ := exists_shown hample hps h
  have hlen := length_flatMap_le hb.fits.length_tip_le
  have htips := Nat.le_of_lt (hb.length_tips_lt hs.size_pos)
  refine ⟨(sheet.size + 1) * (Leaf.capacity t.mounted.volume.pageSize + 1) + 1, ?_, Nat.lt_succ_of_le (hlen.trans ?_)⟩
  · exact hs.steps.attempt.bind ((Task.Gives.pure _ _).bind ((Transaction.pageSize_gives _).embed.bind (.pure _ _)))
  · exact Nat.mul_le_mul (htips.trans (Nat.le_succ _)) (Nat.le_succ _)

end Tree

/-! ## Entries are removed -/

namespace Workspace

variable {w w₀ w₁ : Workspace} {x b : ClusterStorage} {watch : Watch} {m₀ : Mounted} {journal : Journal}
  {p : CollectionPointer} {c : Collection}

theorem Hosts.inOrder (h : w.Hosts size s n) (hx : x ∈ w.store.registry.storages) (hes : w.entries x = .ok es) :
    Entries.InOrder es := by
  obtain ⟨-, pages, -, hwritten⟩ := (h.entries_iff hx).mp hes
  exact hwritten.inOrder

namespace Spares

section

variable (h : Spares size s n watch w₀ w) (hx : x ∈ w₀.store.registry.storages) (hes : w.entries x = .ok es)

include h hx hes

theorem remove_gives (hwatch : ∀ b c slot, watch b c slot → b.cluster = x.cluster → key.collection ≠ c) :
    ∃ old w', (onTree (x.tree.remove key)).Gives w old w' ∧ Spares size s n watch w₀ w' ∧
      w'.entries x = .ok (es.filter fun e => e.key ≠ key) := by
  have hmem : x ∈ w.store.registry.storages := h.registry.symm ▸ hx
  have ho := (h.hosts.entries_iff hmem).mp hes
  obtain ⟨below, old, above, t', hcut, hg, ha, hf⟩ :=
    Tree.remove_finds (h.hosts.housed x hmem).attached.1 h.hosts.ample h.hosts.ready.pageSize ho.2 key
  have hgives : (onTree (x.tree.remove key)).Gives w old (Part.put t' w) := (hg.mapError _).onPart
  have hspares := Spares.remove hx hwatch w h
  rw [hgives.eq] at hspares
  refine ⟨old, _, hgives, hspares, (hspares.hosts.entries_iff (hspares.registry.symm ▸ hx)).mpr ?_⟩
  rw [← hcut.drop_eq]
  exact ⟨ho.1.imp fun _ => (Transaction.Ready.sees_alters ha).mpr, hf⟩

theorem removeAll_gives
    (hwatch : ∀ e ∈ batch, ∀ b c slot, watch b c slot → b.cluster = x.cluster → e.key.collection ≠ c) :
    ∃ w', (batch.forM fun e => do
        let _ ← onTree (x.tree.remove e.key)).Gives w () w' ∧ Spares size s n watch w₀ w' ∧
      w'.entries x = .ok (Entries.without batch es) := by
  induction batch generalizing w es with
  | nil => exact ⟨w, .pure () w, h, (Entries.without_nil es).symm ▸ hes⟩
  | cons e batch ih =>
    obtain ⟨old, w₁, hg, h₁, hes₁⟩ := h.remove_gives hx hes (hwatch e List.mem_cons_self)
    obtain ⟨w', hg', h', hes'⟩ := ih h₁ hes₁ fun e' he' => hwatch e' (List.mem_cons_of_mem e he')
    rw [← Entries.without_cons] at hes'
    exact ⟨w', (hg.bind (.pure () w₁)).bind hg', h', hes'⟩

/-- All entries of a range are removed, if there are steps enough to remove one at a time. -/
theorem removeEntries_gives {collection : CollectionId} {high : Key}
    (hwatch : ∀ b c slot, watch b c slot → b.cluster = x.cluster → collection ≠ c) {fuel : ℕ} {low : Key}
    {includesLow : Bool}
    (hrange : ∀ key, (⟨low, includesLow, high, true⟩ : Tree.KeyRange).Covers key → key.collection = collection)
    (hfuel : ((⟨low, includesLow, high, true⟩ : Tree.KeyRange).pick es).length < fuel) :
    ∃ w', (Workspace.removeEntries x.tree high fuel low includesLow).Gives w () w' ∧ Spares size s n watch w₀ w' ∧
      w'.entries x = .ok ((⟨low, includesLow, high, true⟩ : Tree.KeyRange).leave es) := by
  induction fuel generalizing w es low includesLow with
  | zero => exact absurd hfuel (Nat.not_lt_zero _)
  | succ fuel ih =>
    generalize hr : (⟨low, includesLow, high, true⟩ : Tree.KeyRange) = r at hrange hfuel ⊢
    have hmem : x ∈ w.store.registry.storages := h.registry.symm ▸ hx
    have ho := h.hosts.inOrder hmem hes
    have hscan : (onTree (x.tree.scan r (some 256))).Gives w ((r.pick es).take 256) w :=
      Tree.onTree_gives (Tree.scan_finds (h.hosts.housed x hmem).attached.1 h.hosts.ample h.hosts.ready.pageSize
        ((h.hosts.entries_iff hmem).mp hes).2 r (some 256))
    generalize hbatch : (r.pick es).take 256 = batch at hscan
    cases hlast : batch.getLast? with
    | none =>
      have hnone : r.pick es = [] := by
        rw [List.getLast?_eq_none_iff.mp hlast] at hbatch
        exact (List.take_eq_nil_iff.mp hbatch).resolve_left (by decide)
      refine ⟨w, ?_, h, (Tree.KeyRange.leave_of_pick hnone).symm ▸ hes⟩
      subst hr
      refine hscan.bind ?_
      rw [hlast]
      exact .pure () w
    | some last =>
      have hcovers {e : Entry} (he : e ∈ batch) : r.Covers e.key := Tree.KeyRange.covers_batch hbatch he
      obtain ⟨w₁, hg₁, h₁, hes₁⟩ := h.removeAll_gives hx hes fun e he b c slot hw hb =>
        (hrange _ (hcovers he)).symm ▸ hwatch b c slot hw hb
      have hless := Tree.KeyRange.length_pick_without ho hbatch hlast
      have hleft := Tree.KeyRange.leave_without ho hbatch hlast
      subst hr
      have hrest : ∀ key, (⟨last.key, false, high, true⟩ : Tree.KeyRange).Covers key → key.collection = collection :=
        fun key hkey => hrange key (.after (hcovers (List.mem_of_getLast? hlast)) hkey)
      obtain ⟨w', hg', h', hes'⟩ := ih h₁ hes₁ hrest (Nat.lt_of_lt_of_le hless (Nat.le_of_lt_succ hfuel))
      refine ⟨w', hscan.bind ?_, h', hes'.trans (congrArg Except.ok hleft)⟩
      rw [hlast]
      exact hg₁.bind hg'

end

end Spares

/-! ## A slot is retired -/

section

variable (h : w.Hosts size s n) (hx : x ∈ w.store.registry.storages)

include h hx

/-- A slot that counts, or has counted, has a number. -/
theorem Hosts.exists_number {slot : SlotId}
    (hcount : (∃ k, w.slotCount x slot = .ok k) ∨ w.slotCount x slot = refuse (.sizes (.slot .deleted slot))) :
    ∃ ns v, (Part.get w : Transaction).Holds (SizeMap.Written size) s x.sizesFile (some ns) ∧
      ns[slot.toNat]? = some v ∧
      w.slotCount x slot = if v < 0 then refuse (.sizes (.slot .deleted slot)) else .ok v := by
  obtain ⟨q, hq⟩ := h.sizes hx
  have heq := h.slotCount_eq hx hq slot
  cases q with
  | none =>
    rw [heq] at hcount
    rcases hcount with ⟨k, hk⟩ | hdeleted
    · cases hk
    · cases hdeleted
  | some ns =>
    cases hv : ns[slot.toNat]? with
    | none =>
      rw [heq, Option.map_some, hv] at hcount
      rcases hcount with ⟨k, hk⟩ | hdeleted
      · cases hk
      · cases hdeleted
    | some v =>
      refine ⟨ns, v, hq, hv, heq.trans ?_⟩
      rw [Option.map_some, hv, SizeMap.countOf]
      split <;> rfl

/-- A slot with a number is retired, unless it was. -/
theorem Hosts.removeSlot_start {ns : List Int32} {slot : SlotId} {v : Int32}
    (hq : (Part.get w : Transaction).Holds (SizeMap.Written size) s x.sizesFile (some ns))
    (hv : ns[slot.toNat]? = some v) : ∃ outcome t',
      (onSizes (x.sizes.remove slot)).start w = (outcome, Part.put t' w) ∧
      Transaction.Alters x.sizesFile (Part.get w) t' ∧
      if v < 0 then outcome = refuse (.sizes (.slot .alreadyDeleted slot))
      else outcome = .ok () ∧ t'.Finds x.sizesFile (s.held x.sizesFile)
        (SizeMap.Written size (ns.set slot.toNat deletedMark)) := by
  obtain ⟨outcome, t', hstart, ha, hend⟩ := SizeMap.moves_finds (h.housed x hx).attached.2 h.ample h.ready.pageSize
    hq.2 Bucket.delete_moves "remove" slot
  have hrun : (onSizes (x.sizes.remove slot)).start w = (outcome.mapError .sizes, Part.put t' w) := by
    rw [onSizes, Task.start_onPart, Task.start_mapError, SizeMap.remove, hstart]
  refine ⟨_, t', hrun, ha, ?_⟩
  rw [hv] at hend
  dsimp only at hend
  rw [Bucket.Move.delete] at hend
  split
  · next hneg =>
    rw [if_pos hneg] at hend
    rw [hend.1]
    rfl
  · next hpos =>
    rw [if_neg hpos] at hend
    exact ⟨hend.1 ▸ rfl, hend.2⟩

/-- A slot that counts can be retired. -/
theorem Hosts.removeSlot_gives {slot : SlotId} {k : Int32} (hk : w.slotCount x slot = .ok k)
    (hes : w.entries x = .ok es) :
    ∃ w', (onSizes (x.sizes.remove slot)).Gives w () w' ∧
      w'.slotCount x slot = refuse (.sizes (.slot .deleted slot)) ∧ w'.entries x = .ok es := by
  obtain ⟨ns, v, hq, hv, hcount⟩ := h.exists_number hx (.inl ⟨k, hk⟩)
  obtain ⟨outcome, t', hstart, ha, hend⟩ := h.removeSlot_start hx hq hv
  have hpos : ¬ v < 0 := fun hneg => by
    rw [hk, if_pos hneg] at hcount
    cases hcount
  rw [if_neg hpos] at hend
  obtain ⟨rfl, hf⟩ := hend
  have hosts : Hosts size s n (Part.put t' w) := by
    have hspares : Spares size s n Watch.nothing w ((onSizes (x.sizes.remove slot)).start w).2 :=
      Spares.move hx Bucket.delete_moves "remove" (fun _ _ _ hw => hw.elim) w (.refl h)
    rw [hstart] at hspares
    exact hspares.hosts
  have hsees (f : FileId) (y : String) : t'.operation.Sees s f y ↔ w.operation.Sees s f y :=
    Transaction.Ready.sees_alters ha
  refine ⟨_, hstart, ?_, ?_⟩
  · have hq' : t'.Holds (SizeMap.Written size) s x.sizesFile (some (ns.set slot.toNat deletedMark)) :=
      ⟨hq.1.imp fun _ => (hsees _ _).mpr, hf⟩
    rw [hosts.slotCount_eq hx hq' slot, Option.map_some,
      List.getElem?_set_self (List.getElem?_eq_some_iff.mp hv).1]
    rfl
  · have ho := (h.entries_iff hx).mp hes
    obtain ⟨⟨y, hy⟩, -⟩ := hq
    have hne : x.treeFile ≠ x.sizesFile := fun he => by
      have hhoused := h.housed x hx
      have htree := hhoused.tree y (he ▸ hy.carries)
      exact Cluster.treeName_ne_sizesName _ _ (htree.symm.trans (hhoused.sizes y hy.carries))
    exact (hosts.entries_iff hx).mpr (ho.leaves (.alters ha hne) fun _ => hsees _ _)

/-- A slot that was retired cannot be retired again. -/
theorem Hosts.removeSlot_again {slot : SlotId} (hd : w.slotCount x slot = refuse (.sizes (.slot .deleted slot))) :
    ((onSizes (x.sizes.remove slot)).start w).1 = refuse (.sizes (.slot .alreadyDeleted slot)) := by
  obtain ⟨ns, v, hq, hv, hcount⟩ := h.exists_number hx (.inr hd)
  obtain ⟨outcome, t', hstart, -, hend⟩ := h.removeSlot_start hx hq hv
  have hneg : v < 0 := Decidable.byContradiction fun hpos => by
    rw [hd, if_neg hpos] at hcount
    cases hcount
  rw [if_pos hneg] at hend
  rw [hstart, hend]

end

end Workspace

/-! ## A collection is deleted -/

namespace Store

/-- Where a pointer leads is told by the registry. -/
theorem loadCollection_iff {st st' : Store} {p : CollectionPointer} {c : Collection} :
    (loadCollection p).Gives st c st' ↔
      st' = st ∧ st.registry.prohibited = false ∧ st.registry.idFor? p = some c.storage ∧ c.pointer = p := by
  constructor
  · intro h
    obtain ⟨_, st₁, hcheck, hfind⟩ := Task.bind_gives h
    obtain ⟨_, st₂, hstate, hguard⟩ := Task.bind_gives hcheck
    obtain ⟨rfl, rfl⟩ := (Task.Gives.state st).unique hstate
    split at hguard
    · exact absurd hguard Task.not_gives_refuse
    next hfree =>
    obtain ⟨-, rfl⟩ := Task.gives_pure hguard
    obtain ⟨_, st₃, hstate', hlead⟩ := Task.bind_gives hfind
    obtain ⟨rfl, rfl⟩ := (Task.Gives.state _).unique hstate'
    split at hlead
    · next id hid =>
      obtain ⟨rfl, rfl⟩ := Task.gives_pure hlead
      exact ⟨rfl, Bool.eq_false_iff.mpr hfree, hid, rfl⟩
    · exact absurd hlead Task.not_gives_refuse
  · rintro ⟨rfl, hfree, hid, rfl⟩
    refine (checkAccess_of_allowed hfree).bind ((Task.Gives.state _).bind ?_)
    rw [hid]
    exact .pure _ _

theorem loadCollection_congr {st st' st₁ : Store} {p : CollectionPointer} {c : Collection}
    (h : (loadCollection p).Gives st c st₁) (hr : st'.registry = st.registry) : (loadCollection p).Gives st' c st' := by
  rw [loadCollection_iff] at h ⊢
  rw [hr]
  exact ⟨rfl, h.2⟩

end Store

namespace Tree

theorem length_filter_add_ownEntries (c : CollectionId) (es : List Entry) :
    (es.filter fun e => e.key.collection ≠ c).length + (ownEntries c es).length = es.length := by
  have hsplit := List.length_eq_length_filter_add (l := es) fun e => decide (e.key.collection = c)
  rw [ownEntries_eq_filter, hsplit, Nat.add_comm]
  simp

end Tree

namespace Workspace

variable {w w' w₁ : Workspace} {x : ClusterStorage} {m m₀ : Mounted} {journal : Journal} {p : CollectionPointer}
  {c : Collection} {own : List (RecordRef × Int32)}

/-- A collection that is alive: its pointer leads to it, it lists its entries, and its slot counts. -/
structure Alive (w : Workspace) (c : Collection) (own : List (RecordRef × Int32)) : Prop where
  loads : (Store.loadCollection c.pointer).Gives w.store c w.store
  lists : (c.entries.start w).1 = .ok own
  counts : ∃ k, (c.size.start w).1 = .ok k

/-- The first of two collections is alive. -/
theorem alive_first {x : ClusterStorage} {r₁ r₂ : RecordRef} {v₁ v₂ : Int32} {roll : Collection.Roll}
    (h : Tidy size s (Part.get w) w.store.registry (Shelves.only (.pair x r₁ r₂ v₁ v₂)) roll n)
    (hp : x.first.pointer ∈ roll.pointers) : w.Alive x.first [(r₁, v₁)] := by
  obtain ⟨hsize, hlist, -, -⟩ := pair_answers h
  refine ⟨Store.loadCollection_gives h hp (Shelves.only_zero _) rfl, ?_, 1, ?_⟩
  · rw [hlist.eq]
  · rw [hsize.eq]

/-- All that a workspace loses with a collection are its entries and its slot. It is not deleted again. -/
structure Loses (w : Workspace) (c : Collection) (own : List (RecordRef × Int32)) (w' : Workspace) : Prop where
  registry : w'.store.registry = w.store.registry
  entries : ∃ x es number number', w.store.registry.storages[c.storage]? = some x ∧
    w.entries x = .ok es ∧ w'.entries x = .ok (es.filter fun e => e.key.collection ≠ c.id) ∧
    w.entryCount x = .ok number ∧ w'.entryCount x = .ok number' ∧ number'.toNat + own.length = number.toNat
  size : (c.size.start w').1 = refuse (.sizes (.slot .deleted c.pointer.slot))
  slots : ∀ b ∈ w.store.registry.storages, ∀ slot, (b.cluster = c.pointer.cluster → slot ≠ c.pointer.slot) →
    w'.slotCount b slot = w.slotCount b slot
  again : ((deleteCollection c.pointer).start w').1 = refuse (.sizes (.slot .alreadyDeleted c.pointer.slot))

section

variable (h : w.Hosts size s n) (loads : (Store.loadCollection p).Gives w.store c w.store)
  (hx : w.store.registry.storages[c.storage]? = some x) (hes : w.entries x = .ok es)

include h loads hx hes

/-- First all entries of the collection are removed. -/
theorem Hosts.delete_start : ∃ w₁,
    (deleteCollection p).start w = (onSizes (x.sizes.remove p.slot)).start w₁ ∧
      Spares size s n (fun _ d _ => p.collection ≠ d) w w₁ ∧
      w₁.entries x = .ok (es.filter fun e => e.key.collection ≠ p.collection) := by
  have hmem : x ∈ w.store.registry.storages := List.mem_of_getElem? hx
  have hload : (liftM (Store.loadCollection p) : Task Workspace CollectionError Collection).Gives w c w :=
    Task.Gives.onPart (show (Store.loadCollection p).Gives w.store c w.store from loads)
  obtain ⟨bound, hbound, hlen⟩ := Tree.entryBound_finds h.ample h.ready.pageSize ((h.entries_iff hmem).mp hes).2
  have hpick : ((Tree.KeyRange.closed (Key.range p.collection).1 (Key.range p.collection).2).pick es).length < bound :=
    Nat.lt_of_le_of_lt (List.length_filter_le _ es) hlen
  have hsame : Spares size s n (fun _ d _ => p.collection ≠ d) w w := .refl h
  obtain ⟨w₁, hg, hspares, hes₁⟩ := hsame.removeEntries_gives hmem hes (fun _ _ _ hd _ => hd)
    (fun _ hkey => Key.covers_range.mp hkey) hpick
  have hleave : (Tree.KeyRange.closed (Key.range p.collection).1 (Key.range p.collection).2).leave es =
      es.filter fun e => e.key.collection ≠ p.collection := by
    refine List.filter_congr fun e _ => ?_
    rw [Bool.eq_iff_iff, Tree.KeyRange.outside_iff, Key.covers_range, decide_eq_true_iff]
  refine ⟨w₁, ?_, hspares, hes₁.trans (congrArg Except.ok hleave)⟩
  rw [deleteCollection, hload.start_bind, (storageAt_gives hx).start_bind]
  dsimp only
  rw [(Tree.onTree_gives hbound).start_bind, hg.start_bind]

omit h loads hes

theorem size_eq : (c.size.start w).1 = w.slotCount x c.pointer.slot := by
  rw [Collection.size, (storageAt_gives hx).start_bind]
  rfl

end

/-- A slot that is watched counts as before. -/
theorem Spares.slotCount_eq {w₀ : Workspace} {watch : Watch} (h : Spares size s n watch w₀ w)
    (hx : x ∈ w₀.store.registry.storages) {d : CollectionId} {slot : SlotId} (hw : watch x d slot) :
    w.slotCount x slot = w₀.slotCount x slot := by
  rw [slotCount, slotCount, onSizes, Task.start_onPart, Task.start_onPart, Task.start_mapError, Task.start_mapError]
  exact congrArg (Checked.mapError CollectionError.sizes) (h.alike x hx d slot hw).count

theorem exists_other_id (i : CollectionId) : ∃ d, i ≠ d := by
  by_cases h : i = 0
  · exact ⟨1, h ▸ by decide⟩
  · exact ⟨0, h⟩

/-- A collection that was deleted cannot be deleted again. -/
theorem Hosts.delete_again (h : w.Hosts size s n) (loads : (Store.loadCollection p).Gives w.store c w.store)
    (hx : w.store.registry.storages[c.storage]? = some x) (hes : w.entries x = .ok es)
    (hd : w.slotCount x p.slot = refuse (.sizes (.slot .deleted p.slot))) :
    ((deleteCollection p).start w).1 = refuse (.sizes (.slot .alreadyDeleted p.slot)) := by
  have hmem : x ∈ w.store.registry.storages := List.mem_of_getElem? hx
  obtain ⟨d, hother⟩ := exists_other_id p.collection
  obtain ⟨w₁, hstart, hspares, -⟩ := h.delete_start loads hx hes
  rw [hstart]
  exact hspares.hosts.removeSlot_again (hspares.registry.symm ▸ hmem) ((hspares.slotCount_eq hmem hother).trans hd)

/-- A collection that is alive can be deleted. -/
theorem Hosts.deletes (h : w.Hosts size s n) (alive : w.Alive c own) :
    ∃ w', (deleteCollection c.pointer).Gives w () w' ∧ w.Loses c own w' := by
  obtain ⟨x, es, hx, hes, rfl⟩ := h.exists_own alive.lists
  have hmem : x ∈ w.store.registry.storages := List.mem_of_getElem? hx
  obtain ⟨d, hother⟩ := exists_other_id c.id
  obtain ⟨k, hk⟩ := alive.counts
  rw [size_eq hx] at hk
  obtain ⟨w₁, hstart, hspares, hes₁⟩ := h.delete_start alive.loads hx hes
  obtain ⟨w', hg, hdeleted, hes'⟩ := hspares.hosts.removeSlot_gives (hspares.registry.symm ▸ hmem)
    ((hspares.slotCount_eq hmem hother).trans hk) hes₁
  have hgives : (deleteCollection c.pointer).Gives w () w' := hstart.trans hg
  have hdelete : Spares size s n (fun b i slot => b.cluster = c.pointer.cluster → c.id ≠ i ∧ c.pointer.slot ≠ slot) w
      ((deleteCollection c.pointer).start w).2 := h.delete c.pointer fun _ _ _ hw => hw
  rw [hgives.eq] at hdelete
  have hx' : w'.store.registry.storages[c.storage]? = some x := hdelete.registry.symm ▸ hx
  obtain ⟨number, hnumber, hlen⟩ := h.entryCount_of_entries hmem hes
  obtain ⟨number', hnumber', hlen'⟩ := hdelete.hosts.entryCount_of_entries (List.mem_of_getElem? hx') hes'
  refine ⟨w', hgives, hdelete.registry, ⟨x, es, number, number', hx, hes, hes', hnumber, hnumber', ?_⟩, ?_, ?_, ?_⟩
  · rw [hlen', hlen, List.length_map]
    exact Tree.length_filter_add_ownEntries _ es
  · rw [size_eq hx', hdeleted]
  · exact fun b hb slot hslot => hdelete.slotCount_eq hb fun hc => ⟨hother, (hslot hc).symm⟩
  · exact hdelete.hosts.delete_again (Store.loadCollection_congr alive.loads hdelete.registry) hx' hes' hdeleted

/-- Nor does it matter which pages are in memory. -/
theorem Backed.deletes (h : w.Backed m₀ journal size s n) (alive : w.Alive c own) :
    ∃ w', (deleteCollection c.pointer).Gives w () w' ∧ w.Loses c own w' := by
  obtain ⟨m, hm, hosts⟩ := h.twin
  have hR := (Mounted.Twin.serveAlike_from m₀).toReadAlike
  have alive' : (w.on m).Alive c own := by
    obtain ⟨k, hk⟩ := alive.counts
    exact ⟨Store.loadCollection_congr alive.loads rfl, (h.start_on hm (c.entries_agrees hR)).symm.trans alive.lists,
      k, (h.start_on hm (c.size_agrees hR)).symm.trans hk⟩
  obtain ⟨v', hg, hregistry, ⟨x, es, number, number', hx, hes, hes', hnumber, hnumber', hlen⟩, hsize, hslots, hagain⟩ :=
    hosts.deletes alive'
  obtain ⟨hsame, hbeside⟩ := deleteCollection_agrees hR c.pointer _ _ (h.beside hm)
  rcases hr : (deleteCollection c.pointer).start w with ⟨r, w'⟩
  rw [hg.eq, hr] at hsame hbeside
  obtain rfl : r = .ok () := hsame
  have alike {α : Type} {t : Task Workspace CollectionError α}
      (ht : t.Agrees (Beside (fun m m' => m₀.Unchanged m ∧ m.Twin m') journal)) : (t.start w').1 = (t.start v').1 :=
    (ht _ _ hbeside).1
  refine ⟨w', hr, hbeside.store.registry.trans hregistry, ⟨x, es, number, number', hx, ?_⟩, ?_, ?_, ?_⟩
  · exact ⟨(h.entries_on hm x).trans hes, (alike (onTree_agrees (Tree.scan_agrees hR _ _ _))).trans hes',
      (h.entryCount_on hm x).trans hnumber, (alike (onTree_agrees (Tree.entryCount_agrees hR _))).trans hnumber', hlen⟩
  · exact (alike (c.size_agrees hR)).trans hsize
  · intro b hb slot hslot
    exact (alike (onSizes_agrees (SizeMap.count_agrees hR _ _))).trans
      ((hslots b hb slot hslot).trans (h.slotCount_on hm b slot).symm)
  · exact (alike (deleteCollection_agrees hR _)).trans hagain

end Workspace

namespace Directory

variable {dir : Path} {st : Store} {op : Operation} {e : Engine} {w : Workspace} {c : Collection}
  {own : List (RecordRef × Int32)}

/-- Whenever a collection is alive in an operation, it can be deleted, and only its entries and its slot are
lost with it. -/
theorem Lives.deletes_collection (h : Lives dir size (.inUse st) n) (hdir : dir.Roomy)
    (started : Engine.start.Gives st.engine op e) (work : (Workspace.begun st e op).Performs k w)
    (hn : n + k < 2 ^ 61) (alive : w.Alive c own) :
    ∃ w', (Workspace.deleteCollection c.pointer).Gives w () w' ∧ w.Loses c own w' := by
  obtain ⟨s, hb⟩ := h.backed hdir started work hn
  exact hb.deletes alive

/-- Two collections have an entry each in the tree of a cluster, and one of them is deleted. The entry of the
other one stays, and so does its count. -/
theorem Lives.deletes_first : ∃ (st : Store) (x : ClusterStorage) (op : Operation) (e : Engine) (w : Workspace),
    Lives ⟨["d"]⟩ 1024 (.inUse st) 4 ∧ Engine.start.Gives st.engine op e ∧
      (Workspace.begun st e op).Alive x.first [(⟨1, 1⟩, 10)] ∧
      (Workspace.begun st e op).entries x = .ok [⟨x.first.key ⟨1, 1⟩, 10⟩, ⟨x.second.key ⟨1, 1⟩, 20⟩] ∧
      (Workspace.deleteCollection x.first.pointer).Gives (.begun st e op) () w ∧
      (Workspace.begun st e op).Loses x.first [(⟨1, 1⟩, 10)] w ∧ w.entries x = .ok [⟨x.second.key ⟨1, 1⟩, 20⟩] ∧
      w.slotCount x x.second.pointer.slot = .ok 1 := by
  have hdir := Path.roomy_d
  obtain ⟨x, st, -, h⟩ := Store.exists_hasPair 1 ⟨1, 1⟩ ⟨1, 1⟩ 10 20
  obtain ⟨op, e, started⟩ := Engine.exists_start h.usable
  have lives : Lives ⟨["d"]⟩ 1024 (.inUse st) 4 := .of_built h.built hdir (by decide)
  obtain ⟨s, hw⟩ := h.begun started
  obtain ⟨hstored, hes, hcounts⟩ := Workspace.pair_contents hw.now
  have alive := Workspace.alive_first hw.now (List.mem_cons_of_mem _ List.mem_cons_self)
  obtain ⟨w, hg, hloses⟩ := lives.deletes_collection hdir started .nothing (by decide) alive
  obtain ⟨x', es, _, _, hx', hes', hleft, -⟩ := hloses.entries
  obtain rfl : x = x' := Option.some.inj (hstored.symm.trans hx')
  obtain rfl := Except.ok.inj (hes.symm.trans hes')
  have hrest : ([⟨x.first.key ⟨1, 1⟩, 10⟩, ⟨x.second.key ⟨1, 1⟩, 20⟩] : List Entry).filter
      (fun e => e.key.collection ≠ x.first.id) = [⟨x.second.key ⟨1, 1⟩, 20⟩] := rfl
  rw [hrest] at hleft
  have hother := hloses.slots x (List.mem_of_getElem? hstored) x.second.pointer.slot fun _ =>
    show (1 : SlotId) ≠ 0 by decide
  exact ⟨st, x, op, e, w, lives, started, alive, hes, hg, hloses, hleft,
    hother.trans (hcounts _)⟩

end Directory

end RefStore
