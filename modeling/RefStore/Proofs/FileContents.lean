import RefStore.Proofs.LoadedVolumes
import RefStore.Proofs.SizeMaps
import RefStore.Proofs.TreeRanges

/-!
# What files hold

A file that holds a tree with some entries, or a size map with some numbers. Each call on a tree or a
size map that finds its file so leaves the file so, with the entries or numbers that it makes. Seals do
not matter.
-/

namespace RefStore

namespace Tree

variable {t : Transaction} {tree : Tree} {base : List Page} {size n : Nat} {es : List Entry}

/-- Pages with a tree that has some entries. The number of puts bounds its size. -/
structure Written (size : Nat) (es : List Entry) (puts : Nat) (pages : List Page) : Prop where
  laid : ∃ s h, ∃ b : Shape h, s.On pages ∧ Intact size s b ∧ b.entries = es ∧
    b.tips.length ≤ puts + 1
  length_le : es.length ≤ puts

namespace Written

theorem mono {pages : List Page} {n' : Nat} (h : Written size es n pages) (hn : n ≤ n') :
    Written size es n' pages := by
  obtain ⟨⟨s, h', b, hon, hb, hes, htips⟩, hlen⟩ := h
  exact ⟨⟨s, h', b, hon, hb, hes, by omega⟩, by omega⟩

theorem alike (hample : Ample size) (ps qs : List Page) (ha : List.Forall₂ Page.Alike ps qs)
    (hs : ∀ p ∈ ps, p.size = size) (h : Written size es n ps) : Written size es n qs := by
  obtain ⟨⟨s, h', b, hon, hrest⟩, hlen⟩ := h
  have hroom := hample.1
  exact ⟨⟨s, h', b, hon.alike (fun p hp => by rw [hs p hp]; omega) ha, hrest⟩, hlen⟩

end Written

/-- A tree that is found in its file can be put into, removed from and scanned. -/
theorem exists_shown {file : FileId} (hample : Ample size) (hps : t.mounted.volume.pageSize = size)
    (h : t.Finds file base (Written size es n)) : ∃ s h', ∃ b : Shape h', Shows t file base s ∧
      Intact t.mounted.volume.pageSize s b ∧ b.entries = es ∧ b.tips.length ≤ n + 1 ∧
      es.length ≤ n := by
  obtain ⟨pages, hp, ⟨s, h', b, hon, hb, hes, htips⟩, hlen⟩ := h
  have hroom : 64 ≤ size := Nat.le_trans (by decide) hample.1
  subst hps
  exact ⟨s, h', b, ⟨⟨pages, hp, hon⟩, hroom, hample.2⟩, hb, hes, htips, hlen⟩

theorem finds {file : FileId} {s : Sheet} {h : Nat} {b : Shape h} (hs : Shows t file base s)
    (hb : Intact size s b) (hes : b.entries = es) (htips : b.tips.length ≤ n + 1)
    (hlen : es.length ≤ n) : t.Finds file base (Written size es n) := by
  obtain ⟨pages, hp, hon⟩ := hs.pages
  exact ⟨pages, hp, ⟨s, h, b, hon, hb, hes, htips⟩, hlen⟩

section

variable (hatt : tree.component.isAttached) (hample : Ample size)
  (hps : t.mounted.volume.pageSize = size)
  (h : t.Finds tree.component.file base (Written size es n))

include hatt hample hps h

theorem put_finds (hn : n + 1 < 2 ^ 61) (key : Key) (value : Int32) :
    ∃ below old above t', Entries.Cut es key below old above ∧ (tree.put key value).Gives t old t' ∧
      Transaction.Alters tree.component.file t t' ∧
      t'.Finds tree.component.file base (Written size (below ++ ⟨key, value⟩ :: above) (n + 1)) := by
  have hmax : UInt64.size = 2 ^ 64 := rfl
  obtain ⟨s, h', b, hs, hb, rfl, htips, hlen⟩ := exists_shown hample hps h
  have hsize := hb.size_le hs.size_pos
  obtain ⟨below, old, above, t', s', h'', b', hcut, hg, hu⟩ :=
    hs.put hatt hb (hps ▸ hample) (by omega) (by omega) key value
  have hput := hcut.length_put_le value
  have htips' := hu.tips
  exact ⟨below, old, above, t', hcut, hg, hu.alters,
    finds hu.shows (hps ▸ hu.intact) hu.entries (by omega) (by omega)⟩

theorem remove_finds (key : Key) :
    ∃ below old above t', Entries.Cut es key below old above ∧ (tree.remove key).Gives t old t' ∧
      Transaction.Alters tree.component.file t t' ∧
      t'.Finds tree.component.file base (Written size (below ++ above) n) := by
  obtain ⟨s, h', b, hs, hb, rfl, htips, hlen⟩ := exists_shown hample hps h
  obtain ⟨below, old, above, t', s', h'', b', hcut, hg, hu⟩ := hs.remove hatt hb key
  have hdrop := hcut.length_drop_le
  have htips' := hu.tips
  exact ⟨below, old, above, t', hcut, hg, hu.alters,
    finds hu.shows (hps ▸ hu.intact) hu.entries (by omega) (by omega)⟩

theorem scan_finds (r : KeyRange) (limit : Option Nat) :
    (tree.scan r limit).Gives t (limited limit (r.pick es)) t := by
  obtain ⟨s, h', b, hs, hb, rfl, -⟩ := exists_shown hample hps h
  exact hs.scan hatt hb r limit

omit hatt in
theorem steps_finds : ∃ k, (Tree.steps tree.component.file).Gives t k t := by
  obtain ⟨s, h', b, hs, -⟩ := exists_shown hample hps h
  exact ⟨_, hs.steps⟩

end

/-- A new tree is found under the next id. -/
theorem create_finds (hample : Ample size) (hps : t.mounted.volume.pageSize = size)
    (hfree : (Transaction.fileExists tree.fileName).Gives t false t)
    (hdel : t.mounted.volume.catalog.nextId ∉ t.operation.deleted)
    (hdraft : ∀ i, t.operation.draft? t.mounted.volume.catalog.nextId i = none) :
    ∃ t', tree.create.Gives t (tree.attached t.mounted.volume.catalog.nextId) t' ∧
      Transaction.Alters t.mounted.volume.catalog.nextId (t.withFile tree.fileName) t' ∧
      t'.Finds t.mounted.volume.catalog.nextId [] (Written size [] n) := by
  obtain ⟨t', s, hg, ha, hs, hb⟩ := exists_create hfree hdel hdraft (hps ▸ hample)
  have hps' : t'.mounted.volume.pageSize = size := by
    rw [ha.mounted]
    exact hps
  have htips : (Shape.leaf ⟨1, []⟩).tips.length ≤ n + 1 := Nat.le_add_left 1 n
  exact ⟨t', hg, ha, finds hs (hps' ▸ hb) rfl htips (Nat.zero_le n)⟩

/-- Nothing is read from a file that is not seen. -/
theorem readMeta_unseen {s : Stock} {file : FileId} (h : t.Over size s)
    (hno : ∀ name, ¬ t.operation.Sees s file name) :
    (readMeta file).start t = (refuse (.storage (.unknownFile file)), t) := by
  rw [readMeta, Task.start_bind]
  have hload : (liftM (Transaction.loadPage file 0) : Task Transaction TreeError Page).start t =
      (refuse (.storage (.unknownFile file)), t) := by
    show (((Transaction.loadPage file 0).start t).1.mapError TreeError.storage,
      ((Transaction.loadPage file 0).start t).2) = _
    rw [h.loadPage_unseen hno]
    rfl
  rw [hload]
  rfl

/-- Nor is anything put there or removed. -/
theorem put_unseen {s : Stock} (hatt : tree.component.isAttached) (h : t.Over size s)
    (hno : ∀ name, ¬ t.operation.Sees s tree.component.file name) (key : Key) (value : Int32) :
    ∃ cause, (tree.put key value).start t = (.error cause, t) := by
  rw [put, (Shows.file_gives hatt t).start_bind, during, Task.start_mapError, putEntry, Task.start_bind,
    readMeta_unseen h hno]
  exact ⟨_, rfl⟩

theorem remove_unseen {s : Stock} (hatt : tree.component.isAttached) (h : t.Over size s)
    (hno : ∀ name, ¬ t.operation.Sees s tree.component.file name) (key : Key) :
    ∃ cause, (tree.remove key).start t = (.error cause, t) := by
  rw [remove, (Shows.file_gives hatt t).start_bind, during, Task.start_mapError, removeEntry, Task.start_bind,
    readMeta_unseen h hno]
  exact ⟨_, rfl⟩

end Tree

namespace SizeMap

variable {t : Transaction} {m : SizeMap} {base : List Page} {size : Nat} {ns : List Int32}

/-- Pages with a size map that has some numbers. -/
structure Written (size : Nat) (ns : List Int32) (pages : List Page) : Prop where
  on : On (Bucket.capacity size) (Bucket.needed (Bucket.capacity size) ns.length) ns pages
  few : Bucket.needed (Bucket.capacity size) ns.length < 2 ^ 31
  ids : ns.length ≤ UInt32.size

theorem Written.alike (hample : Tree.Ample size) (ps qs : List Page)
    (ha : List.Forall₂ Page.Alike ps qs) (hs : ∀ p ∈ ps, p.size = size) (h : Written size ns ps) :
    Written size ns qs := by
  have hroom := hample.1
  exact ⟨h.on.alike (fun p hp => by rw [hs p hp]; omega) ha, h.few, h.ids⟩

theorem shows_iff {file : FileId} (hample : Tree.Ample size) (hps : t.mounted.volume.pageSize = size) :
    Shows t file base ns ↔ t.Finds file base (Written size ns) := by
  subst hps
  constructor
  · rintro ⟨⟨⟨pages, hp, hon⟩, -, -, hfew, -⟩, hids⟩
    exact ⟨pages, hp, hon, hfew, hids⟩
  · rintro ⟨pages, hp, hon, hfew, hids⟩
    have hpos : 0 < Bucket.capacity t.mounted.volume.pageSize := by
      have := hample.1
      have := hample.2
      rw [Bucket.capacity]
      omega
    exact ⟨⟨⟨pages, hp, hon⟩, Nat.le_trans (by decide) hample.1, hample.2, hfew,
      Bucket.le_needed_mul hpos _⟩, hids⟩

section

variable (hatt : m.component.isAttached) (hample : Tree.Ample size)
  (hps : t.mounted.volume.pageSize = size)
  (h : t.Finds m.component.file base (Written size ns))

include hatt hample hps h

theorem add_finds : ∃ outcome t', m.add.start t = (outcome, t') ∧ t'.mounted = t.mounted ∧
    (ns.length < UInt32.size → outcome.isOk = true) ∧
    ∀ slot, outcome = .ok slot → slot.toNat = ns.length ∧
      Transaction.Alters m.component.file t t' ∧
      t'.Finds m.component.file base (Written size (ns ++ [0])) := by
  obtain ⟨t', hstart, ha, hs⟩ := ((shows_iff hample hps).mpr h).add hatt
  refine ⟨_, t', hstart, ha.mounted, fun hlt => by rw [if_pos hlt]; rfl, fun slot hslot => ?_⟩
  by_cases hlt : ns.length < UInt32.size
  · rw [if_pos hlt] at hslot
    cases hslot
    exact ⟨UInt32.toNat_ofNat_of_lt' hlt, ha,
      (shows_iff hample (by rw [ha.mounted, hps])).mp (hs hlt)⟩
  · rw [if_neg hlt] at hslot
    cases hslot

theorem moves_finds {α : Type} {f : SlotId → Page → Checked SizesError (α × List Write)}
    {move : Bucket.Move α} (hf : Bucket.Moves f move) (operation : String) (id : SlotId) :
    ∃ outcome t', (do
        let file ← m.file
        m.during operation (SizeMap.onSlot file id f) : Task Transaction SizesError α).start t =
          (outcome, t') ∧ Transaction.Alters m.component.file t t' ∧
      match ns[id.toNat]? with
      | none => outcome = refuse (.slot .unknown id) ∧
        t'.Finds m.component.file base (Written size ns)
      | some n => match move n with
        | .error kind => outcome = refuse (.slot kind id) ∧
          t'.Finds m.component.file base (Written size ns)
        | .ok (a, n') => outcome = .ok a ∧
          t'.Finds m.component.file base (Written size (ns.set id.toNat n')) := by
  obtain ⟨outcome, t', hstart, ha, hend⟩ := ((shows_iff hample hps).mpr h).moves hf hatt operation id
  simp only [shows_iff hample (show t'.mounted.volume.pageSize = size from ha.mounted ▸ hps)] at hend
  exact ⟨outcome, t', hstart, ha, hend⟩

theorem count_finds {id : SlotId} {n : Int32} (hn : ns[id.toNat]? = some n) (h0 : 0 ≤ n) :
    (m.count id).Gives t n t := by
  have hstart := ((shows_iff hample hps).mpr h).spreads.count_start hatt id
  rw [hn] at hstart
  dsimp only at hstart
  rwa [if_neg (Int32.not_lt.mpr h0)] at hstart

end

/-- A new size map is found under the next id. -/
theorem create_finds (hample : Tree.Ample size) (hps : t.mounted.volume.pageSize = size)
    (hfree : (Transaction.fileExists m.fileName).Gives t false t)
    (hdel : t.mounted.volume.catalog.nextId ∉ t.operation.deleted)
    (hdraft : ∀ i, t.operation.draft? t.mounted.volume.catalog.nextId i = none) :
    ∃ t', m.create.Gives t (m.attached t.mounted.volume.catalog.nextId) t' ∧
      Transaction.Alters t.mounted.volume.catalog.nextId (t.withFile m.fileName) t' ∧
      t'.Finds t.mounted.volume.catalog.nextId [] (Written size []) := by
  have hroom := hample.1
  obtain ⟨t', hg, ha, hs⟩ := exists_create hfree hdel hdraft (by omega) (hps ▸ hample.2)
  have hps' : t'.mounted.volume.pageSize = size := by
    rw [ha.mounted]
    exact hps
  exact ⟨t', hg, ha, (shows_iff hample hps').mp hs⟩

end SizeMap

end RefStore
