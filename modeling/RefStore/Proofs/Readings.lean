import RefStore.Collection.Basic
import RefStore.Proofs.FileContents
import RefStore.Proofs.TreeEnds

/-!
# Readings of a collection

What a tree answers about one collection is told by the entries of that collection, and what a size
map answers about one slot by the number in it. So two transactions that hold the same of a collection
read alike, whatever else their files hold. Main statements: `Tree.reading_eq` and `SizeMap.count_eq`.
-/

namespace RefStore

/-- What a transaction holds in a file: pages of some kind, or nothing if it does not see the file. -/
def Transaction.Holds {α : Type} (kind : α → List Page → Prop) (s : Stock) (t : Transaction) (f : FileId) :
    Option α → Prop
  | none => ∀ x, ¬ t.operation.Sees s f x
  | some a => (∃ x, t.operation.Sees s f x) ∧ t.Finds f (s.held f) (kind a)

namespace Transaction.Holds

variable {α : Type} {kind : α → List Page → Prop} {s : Stock} {t t' : Transaction} {f : FileId}
  {o : Option α}

/-- A file that was left alone holds what it held. -/
theorem leaves (h : Holds kind s t f o) (hl : Leaves f t t')
    (hsees : ∀ x, t'.operation.Sees s f x ↔ t.operation.Sees s f x) : Holds kind s t' f o := by
  cases o with
  | none => exact fun x hx => h x ((hsees x).mp hx)
  | some a => exact ⟨h.1.imp fun x => (hsees x).mpr, hl.finds h.2⟩

end Transaction.Holds

namespace Tree

variable {size n : Nat} {s : Stock} {t : Transaction} {tree : Tree}

/-- The entries of a collection. -/
def ownEntries (c : CollectionId) (es : List Entry) : List Entry :=
  (KeyRange.closed (Key.range c).1 (Key.range c).2).pick es

theorem ownEntries_append (c : CollectionId) (xs ys : List Entry) :
    ownEntries c (xs ++ ys) = ownEntries c xs ++ ownEntries c ys := List.filter_append ..

theorem ownEntries_eq_filter (c : CollectionId) (es : List Entry) :
    ownEntries c es = es.filter fun e => e.key.collection = c := by
  refine List.filter_congr fun e _ => ?_
  rw [Bool.eq_iff_iff, decide_eq_true_eq, ← Key.covers_range, KeyRange.covers_iff]
  simp

theorem mem_ownEntries {c : CollectionId} {es : List Entry} {e : Entry} :
    e ∈ ownEntries c es ↔ e ∈ es ∧ e.key.collection = c := by
  rw [ownEntries, KeyRange.mem_pick, Key.covers_range]

theorem ownEntries_eq_nil {c : CollectionId} {es : List Entry} (h : ∀ e ∈ es, e.key.collection ≠ c) :
    ownEntries c es = [] :=
  List.eq_nil_iff_forall_not_mem.mpr fun e he => h e (mem_ownEntries.mp he).1 (mem_ownEntries.mp he).2

section cut

variable {es below above : List Entry} {key : Key} {old : Option Int32} {c : CollectionId}

/-- What is put at a key of another collection, or removed there, is none of the entries. -/
theorem ownEntries_cut (hcut : Entries.Cut es key below old above) (hk : key.collection ≠ c)
    (new : Option Int32) :
    ownEntries c (below ++ new.toList.map (fun value => ⟨key, value⟩) ++ above) = ownEntries c es := by
  have hnone (v : Option Int32) : ownEntries c (v.toList.map fun value => ⟨key, value⟩) = [] := by
    refine ownEntries_eq_nil fun e he => ?_
    obtain ⟨value, -, rfl⟩ := List.mem_map.mp he
    exact hk
  rw [hcut.eq, ownEntries_append, ownEntries_append, ownEntries_append, ownEntries_append, hnone, hnone]

/-- The value of a record is found among the entries of its collection. -/
theorem find?_ownEntries (hcut : Entries.Cut es (.of c r) below old above) :
    ((ownEntries c es).find? fun e => e.key = .of c r).map Entry.value = old := by
  have hown (e : Entry) : e.key = .of c r → e.key.collection = c := fun he => he ▸ rfl
  have hall : (ownEntries c es).find? (fun e => e.key = .of c r) = es.find? fun e => e.key = .of c r := by
    rw [ownEntries, KeyRange.pick, List.find?_filter]
    refine congrArg (List.find? · es) (funext fun e => ?_)
    rw [Bool.eq_iff_iff, decide_eq_true_iff, decide_eq_true_iff]
    refine ⟨And.right, fun he => ⟨?_, he⟩⟩
    have hcovers := Key.covers_range.mpr (hown e he)
    rw [KeyRange.covers_iff] at hcovers
    simpa using hcovers
  have hbelow : below.find? (fun e => e.key = .of c r) = none :=
    List.find?_eq_none.mpr fun e he heq => ne_of_lt (hcut.below_lt e he) (of_decide_eq_true heq)
  have habove : above.find? (fun e => e.key = .of c r) = none :=
    List.find?_eq_none.mpr fun e he heq => ne_of_gt (hcut.lt_above e he) (of_decide_eq_true heq)
  rw [hall, hcut.eq, List.find?_append, List.find?_append, hbelow, habove]
  cases old <;> simp

end cut

/-- What a tree answers about a collection. -/
@[ext]
structure Reading where
  get : RecordRef → Checked TreeError (Option Int32)
  entries : Checked TreeError (List Entry)
  first : Checked TreeError (Option Key)
  last : Checked TreeError (Option Key)

def reading (tree : Tree) (c : CollectionId) (t : Transaction) : Reading where
  get r := ((tree.get (.of c r)).start t).1
  entries := ((tree.scan (.closed (Key.range c).1 (Key.range c).2) none).start t).1
  first := ((tree.firstKeyBetween (Key.range c).1 (Key.range c).2).start t).1
  last := ((tree.lastKeyBetween (Key.range c).1 (Key.range c).2).start t).1

/-- The reading of a collection with some entries, or of one in a file that is not there. -/
def Reading.of (c : CollectionId) (file : FileId) : Option (List Entry) → Reading
  | none =>
    ⟨fun _ => refuse (.storage (.unknownFile file)), refuse (.storage (.unknownFile file)),
      refuse (.storage (.unknownFile file)), refuse (.storage (.unknownFile file))⟩
  | some own =>
    ⟨fun r => .ok ((own.find? fun e => e.key = .of c r).map Entry.value), .ok own,
      .ok (own.head?.map Entry.key), .ok (own.getLast?.map Entry.key)⟩

section unseen

variable (h : t.Over size s) (hno : ∀ x, ¬ t.operation.Sees s tree.component.file x)

include h hno

theorem readMeta_bind_unseen {α : Type} (f : TreeMeta → Task Transaction TreeError α) :
    (readMeta tree.component.file >>= f).start t = (refuse (.storage (.unknownFile tree.component.file)), t) := by
  rw [Task.start_bind, readMeta_unseen h hno]
  rfl

variable (hatt : tree.component.isAttached)

include hatt

theorem get_unseen (key : Key) :
    (tree.get key).start t = (refuse (.storage (.unknownFile tree.component.file)), t) := by
  rw [get, (Shows.file_gives hatt t).start_bind, readMeta_bind_unseen h hno]

theorem scan_unseen (r : KeyRange) (limit : Option Nat) :
    (tree.scan r limit).start t = (refuse (.storage (.unknownFile tree.component.file)), t) := by
  rw [scan, (Shows.file_gives hatt t).start_bind, readMeta_bind_unseen h hno]

theorem firstKeyBetween_unseen (low high : Key) :
    (tree.firstKeyBetween low high).start t = (refuse (.storage (.unknownFile tree.component.file)), t) := by
  rw [firstKeyBetween, Task.start_bind, scan_unseen h hno hatt]
  rfl

theorem lastKeyBetween_unseen (low high : Key) :
    (tree.lastKeyBetween low high).start t = (refuse (.storage (.unknownFile tree.component.file)), t) := by
  rw [lastKeyBetween, (Shows.file_gives hatt t).start_bind, readMeta_bind_unseen h hno]

theorem reading_unseen (c : CollectionId) : tree.reading c t = .of c tree.component.file none :=
  Reading.ext (funext fun _ => congrArg Prod.fst (get_unseen h hno hatt _))
    (congrArg Prod.fst (scan_unseen h hno hatt _ _)) (congrArg Prod.fst (firstKeyBetween_unseen h hno hatt _ _))
    (congrArg Prod.fst (lastKeyBetween_unseen h hno hatt _ _))

end unseen

/-- The reading of a collection is told by its entries. -/
theorem reading_eq {o : Option (List Entry)} (hatt : tree.component.isAttached) (hample : Ample size)
    (h : t.Over size s)
    (ho : t.Holds (fun es => Written size es n) s tree.component.file o) (c : CollectionId) :
    tree.reading c t = .of c tree.component.file (o.map (ownEntries c)) := by
  cases o with
  | none => exact reading_unseen h ho hatt c
  | some es =>
    obtain ⟨sheet, height, b, hs, hb, rfl, -⟩ := exists_shown hample h.serves.pageSize ho.2
    have hscan := hs.scan hatt hb (.closed (Key.range c).1 (Key.range c).2)
    have hall := hscan none
    rw [limited_none] at hall
    have hfirst : (tree.firstKeyBetween (Key.range c).1 (Key.range c).2).Gives t
        ((ownEntries c b.entries).head?.map Entry.key) t := by
      refine (hscan (some 1)).bind ?_
      rw [limited, Option.getD_some, List.head?_take, if_neg (by decide)]
      exact .pure _ t
    refine Reading.ext (funext fun r => ?_) (congrArg Prod.fst hall.eq) (congrArg Prod.fst hfirst.eq)
      (congrArg Prod.fst (hs.lastKeyBetween hatt hb _ _).eq)
    obtain ⟨below, old, above, hcut, hget⟩ := hs.get hatt hb (.of c r)
    show ((tree.get (.of c r)).start t).1 = .ok _
    rw [hget.eq, find?_ownEntries hcut]

section reads

variable {o : Option (List Entry)} (hatt : tree.component.isAttached) (hample : Ample size) (h : t.Over size s)
  (ho : t.Holds (fun es => Written size es n) s tree.component.file o)

include hatt hample h ho

/-- To read from a tree changes nothing. -/
theorem get_keeps (key : Key) : (tree.get key).Keeps (· = t) := by
  rintro _ rfl
  cases o with
  | none => rw [get_unseen h ho hatt]
  | some es =>
    obtain ⟨sheet, height, b, hs, hb, -⟩ := exists_shown hample h.serves.pageSize ho.2
    obtain ⟨below, old, above, -, hget⟩ := hs.get hatt hb key
    rw [hget.eq]

theorem scan_keeps (r : KeyRange) (limit : Option Nat) : (tree.scan r limit).Keeps (· = t) := by
  rintro _ rfl
  cases o with
  | none => rw [scan_unseen h ho hatt]
  | some es => rw [(scan_finds hatt hample h.serves.pageSize ho.2 r limit).eq]

theorem firstKeyBetween_keeps (low high : Key) : (tree.firstKeyBetween low high).Keeps (· = t) :=
  .bind (scan_keeps hatt hample h ho _ _) fun _ => .pure _

theorem hasEntriesBetween_keeps (low high : Key) : (tree.hasEntriesBetween low high).Keeps (· = t) :=
  .bind (firstKeyBetween_keeps hatt hample h ho low high) fun _ => .pure _

theorem lastKeyBetween_keeps (low high : Key) : (tree.lastKeyBetween low high).Keeps (· = t) := by
  rintro _ rfl
  cases o with
  | none => rw [lastKeyBetween_unseen h ho hatt]
  | some es =>
    obtain ⟨sheet, height, b, hs, hb, -⟩ := exists_shown hample h.serves.pageSize ho.2
    rw [(hs.lastKeyBetween hatt hb low high).eq]

omit hatt in
theorem entryBound_keeps : (Workspace.entryBound tree.component.file).Keeps (· = t) := by
  have hsteps : (steps tree.component.file).Keeps (· = t) := by
    intro z (hz : z = t)
    rw [hz]
    cases o with
    | none =>
      have hcount : (liftM (Transaction.pageCount tree.component.file) :
          Task Transaction TreeError PageIndex).start t =
            (refuse (.storage (.unknownFile tree.component.file)), t) := by
        show (((Transaction.pageCount tree.component.file).start t).1.mapError TreeError.storage,
          ((Transaction.pageCount tree.component.file).start t).2) = _
        rw [h.pageCount_none ho]
        rfl
      rw [steps, Task.start_bind, hcount]
      rfl
    | some es =>
      obtain ⟨k, hk⟩ := steps_finds hample h.serves.pageSize ho.2
      rw [hk.eq]
  have hsize : Transaction.pageSize.Keeps (· = t) := .bind .state fun _ => .pure _
  refine .bind hsteps.attempt fun r => ?_
  dsimp only
  split
  · exact .bind (.pure _) fun _ => .bind (.embed hsize) fun _ => .pure _
  · exact .bind (.pure _) fun _ => .bind (.embed hsize) fun _ => .pure _

end reads

end Tree

namespace SizeMap

variable {size : Nat} {s : Stock} {t : Transaction} {m : SizeMap}

/-- The count of a slot with some number, of one without a number, or of one in a file that is not there. -/
def countOf (file : FileId) (slot : SlotId) : Option (Option Int32) → Checked SizesError Int32
  | none => refuse (.storage (.unknownFile file))
  | some none => refuse (.slot .unknown slot)
  | some (some n) => if n < 0 then refuse (.slot .deleted slot) else .ok n

section unseen

variable (hatt : m.component.isAttached) (hample : Tree.Ample size) (h : t.Over size s)
  (hno : ∀ x, ¬ t.operation.Sees s m.component.file x)

include h hno in
theorem loadPage_unseen (i : PageIndex) :
    (liftM (Transaction.loadPage m.component.file i) : Task Transaction SizesError Page).start t =
      (refuse (.storage (.unknownFile m.component.file)), t) := by
  show (((Transaction.loadPage m.component.file i).start t).1.mapError SizesError.storage,
    ((Transaction.loadPage m.component.file i).start t).2) = _
  rw [h.loadPage_unseen hno]
  rfl

include h hno in
theorem buckets_unseen : (buckets m.component.file).start t =
    (refuse (.storage (.unknownFile m.component.file)), t) := by
  rw [buckets, Task.start_bind, loadPage_unseen h hno]
  rfl

include hample h hno in
theorem locate_unseen (id : SlotId) : (locate m.component.file id).start t =
    (refuse (.storage (.unknownFile m.component.file)), t) := by
  have hpos : Bucket.capacity t.mounted.volume.pageSize ≠ 0 := by
    have := hample.1
    have := hample.2
    rw [h.serves.pageSize, Bucket.capacity]
    omega
  rw [locate, (Spreads.slotsPerBucket t).start_bind, if_neg hpos]
  dsimp only
  rw [Task.start_bind, buckets_unseen h hno]
  rfl

include hatt hample h hno

/-- Nothing is done to a slot of a file that is not seen. -/
theorem onSlot_unseen {α : Type} (operation : String) (id : SlotId)
    (f : SlotId → Page → Checked SizesError (α × List Write)) : ∃ cause, (do
      let file ← m.file
      m.during operation (onSlot file id f) : Task Transaction SizesError α).start t = (.error cause, t) := by
  rw [(Spreads.file_gives hatt t).start_bind, during, Task.start_mapError, onSlot, Task.start_bind,
    locate_unseen hample h hno]
  exact ⟨_, rfl⟩

omit hample in
theorem add_unseen : ∃ cause, m.add.start t = (.error cause, t) := by
  rw [add, (Spreads.file_gives hatt t).start_bind, during, Task.start_mapError, allocate,
    (Spreads.slotsPerBucket t).start_bind]
  dsimp only
  rw [Task.start_bind, buckets_unseen h hno]
  exact ⟨_, rfl⟩

theorem count_unseen (id : SlotId) : (m.count id).start t =
    (refuse (.storage (.unknownFile m.component.file)), t) := by
  rw [count, (Spreads.file_gives hatt t).start_bind, Task.start_bind, locate_unseen hample h hno]
  rfl

end unseen

/-- The count of a slot is told by the number in it. -/
theorem count_eq {o : Option (List Int32)} (hatt : m.component.isAttached) (hample : Tree.Ample size)
    (h : t.Over size s) (ho : t.Holds (Written size) s m.component.file o) (id : SlotId) :
    ((m.count id).start t).1 = countOf m.component.file id (o.map fun ns => ns[id.toNat]?) := by
  cases o with
  | none => rw [count_unseen hatt hample h ho]; rfl
  | some ns =>
    rw [((shows_iff hample h.serves.pageSize).mpr ho.2).spreads.count_start hatt id, Option.map_some]
    cases ns[id.toNat]? <;> rfl

theorem count_keeps {o : Option (List Int32)} (hatt : m.component.isAttached) (hample : Tree.Ample size)
    (h : t.Over size s) (ho : t.Holds (Written size) s m.component.file o) (id : SlotId) :
    (m.count id).Keeps (· = t) := by
  rintro _ rfl
  cases o with
  | none => rw [count_unseen hatt hample h ho]
  | some ns => rw [((shows_iff hample h.serves.pageSize).mpr ho.2).spreads.count_start hatt id]

end SizeMap

end RefStore
