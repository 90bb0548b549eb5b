import Mathlib.Algebra.Group.Nat.Defs
import RefStore.Proofs.NodePages
import RefStore.Sizes.Slots

/-!
# Pages of a size map as slots

What the pages of a size map say: the entry point tells the number of buckets, and a bucket holds a
list of numbers, negative ones in slots that are deleted. Reading and changing one slot is told by the
number in it. Main statements: `Bucket.add_inPage` and the `Moves` of the calls on a slot.
-/

namespace RefStore

theorem Write.number_inside {size : Nat} (hs : 12 ≤ size) (n : Int32) :
    Page.Inside size (.word 8 n) := by
  simpa [Page.Inside, Write.word, Word.width] using hs

/-- A page of some kind is begun, with number zero after its header. -/
theorem PageHeader.numbered_fresh (page : Page) (hs : 12 ≤ page.size) (kind : PageKind) :
    (∀ w ∈ [fresh kind, .word 8 (0 : Int32)], Page.Inside page.size w) ∧
      Marks kind (page.writtenAll [fresh kind, .word 8 (0 : Int32)]) ∧
      (page.writtenAll [fresh kind, .word 8 (0 : Int32)]).bytesAt 8 4 = Word.bytes (0 : Int32) := by
  have hhead : Page.Inside page.size (fresh kind) := by
    rw [Page.Inside, length_fresh]
    simp only [fresh]
    omega
  have hin : Page.Inside (page.written (fresh kind)).size (.word 8 (0 : Int32)) := by
    rw [Page.size_written hhead]
    exact Write.number_inside hs 0
  refine ⟨by simp [hhead, Write.number_inside hs], ?_, Page.bytesAt_written_self hin⟩
  rw [Marks, Page.writtenAll, List.foldl_cons, List.foldl_cons, List.foldl_nil,
    Page.bytesAt_written_of_apart hin (.inl (by simp [Write.word]))]
  exact marks_fresh page (by omega) kind

/-! ## The entry point -/

namespace EntryPoint

/-- The bytes of a page are those of an entry point with a number of buckets. -/
structure InPage (n : Nat) (page : Page) : Prop where
  mark : PageHeader.Marks .sizeEntryPoint page
  buckets : page.bytesAt 8 4 = Word.bytes (Int32.ofNat n)

variable {n : Nat} {page q : Page}

theorem count_inPage (h : InPage n page) (hn : n < 2 ^ 31) (hs : 12 ≤ page.size) :
    count page = .ok n := by
  have hword : (page.word Int32 8 : Checked SizesError Int32) = .ok (Int32.ofNat n) :=
    Page.word_of_bytesAt h.buckets hs
  have hneg : ¬ Int32.ofNat n < 0 := by
    rw [Int32.lt_iff_toInt_lt, Int32.toInt_ofNat_of_lt hn]
    exact Int.not_lt.mpr (Int.natCast_nonneg n)
  simp only [count, PageHeader.expect_eq h.mark (by omega), if_true, bind, Except.bind, hword]
  show (if Int32.ofNat n < 0 then _ else _) = _
  rw [if_neg hneg]
  show Except.ok (Int32.ofNat n).toInt.toNat = _
  rw [Int32.toInt_ofNat_of_lt hn, Int.toNat_natCast]

theorem setCount_inPage (h : InPage n page) (hs : 12 ≤ page.size) {k : Nat} (hk : k < 2 ^ 31) :
    setCount k page = .ok ((), [.word 8 (Int32.ofNat k)]) := by
  have hmax : ¬ Int32.maxValue.toInt < k := by
    have : Int32.maxValue.toInt = 2147483647 := rfl
    omega
  simp only [setCount, PageHeader.expect_eq h.mark (by omega), if_true, bind, Except.bind]
  show (if Int32.maxValue.toInt < (k : Int) then _ else _) = _
  rw [if_neg hmax]
  rfl

theorem inPage_written (h : PageHeader.Marks .sizeEntryPoint page) (hs : 12 ≤ page.size) (k : Nat) :
    InPage k (page.written (.word 8 (Int32.ofNat k))) := by
  have hin : Page.Inside page.size (.word 8 (Int32.ofNat k)) := Write.number_inside hs _
  refine ⟨?_, Page.bytesAt_written_self hin⟩
  rw [PageHeader.Marks, Page.bytesAt_written_of_apart hin (.inl (by simp [Write.word]))]
  exact h

theorem inPage_alike (h : InPage n page) (hs : 12 ≤ page.size) (ha : page.Alike q) : InPage n q := by
  constructor
  · rw [PageHeader.Marks, ← Page.bytesAt_alike (by omega) ha (.inl (by omega))]
    exact h.mark
  · rw [← Page.bytesAt_alike (by omega) ha (.inr (by omega))]
    exact h.buckets

/-- The first page of a new size map. -/
theorem inPage_format (page : Page) (hs : 12 ≤ page.size) :
    (∀ w ∈ format, Page.Inside page.size w) ∧ InPage 0 (page.writtenAll format) := by
  obtain ⟨hin, hmark, hzero⟩ := PageHeader.numbered_fresh page hs .sizeEntryPoint
  exact ⟨hin, hmark, hzero⟩

end EntryPoint

/-! ## Buckets -/

namespace Bucket

/-- The bytes of a page are those of a bucket with some numbers in its slots. -/
structure InPage (vs : List Int32) (page : Page) : Prop where
  mark : PageHeader.Marks .sizeBucket page
  used : page.bytesAt 8 4 = Word.bytes (Int32.ofNat vs.length)
  fits : vs.length ≤ capacity page.size
  slot : ∀ k v, vs[k]? = some v → page.bytesAt (slotOffset k) 4 = Word.bytes v

variable {vs : List Int32} {page q : Page} {slot : SlotId} {v : Int32}

theorem slotOffset_le {k size : Nat} (h : k < capacity size) : slotOffset k + 4 ≤ size := by
  simp only [capacity, slotOffset] at h ⊢
  omega

theorem capacity_lt {size : Nat} (h : size ≤ 65536) : capacity size < 2 ^ 31 := by
  simp only [capacity]
  omega

theorem size_inPage (h : InPage vs page) (hs : 12 ≤ page.size) (hl : page.size ≤ 65536) :
    size page = .ok vs.length := by
  have hlt : vs.length < 2 ^ 31 := Nat.lt_of_le_of_lt h.fits (capacity_lt hl)
  have hword : (page.word Int32 8 : Checked SizesError Int32) = .ok (Int32.ofNat vs.length) :=
    Page.word_of_bytesAt h.used hs
  have hin : ¬ (Int32.ofNat vs.length < 0 ∨
      (capacity page.size : Int) < (Int32.ofNat vs.length).toInt) := by
    rw [Int32.lt_iff_toInt_lt, Int32.toInt_ofNat_of_lt hlt, not_or, Int.not_lt, Int.not_lt]
    exact ⟨Int.natCast_nonneg _, Int.ofNat_le.mpr h.fits⟩
  simp only [size, PageHeader.expect_eq h.mark (by omega), if_true, bind, Except.bind, hword]
  show (if Int32.ofNat vs.length < 0 ∨
    (capacity page.size : Int) < (Int32.ofNat vs.length).toInt then _ else _) = _
  rw [if_neg hin]
  show Except.ok (Int32.ofNat vs.length).toInt.toNat = _
  rw [Int32.toInt_ofNat_of_lt hlt, Int.toNat_natCast]

/-- The number in a slot, if it is in use. -/
theorem value_inPage (h : InPage vs page) (hs : 12 ≤ page.size) (hl : page.size ≤ 65536) :
    value page slot = match vs[slot.toNat]? with
      | some v => .ok v
      | none => refuse (.slot .unknown slot) := by
  simp only [value, size_inPage h hs hl, bind, Except.bind]
  cases hv : vs[slot.toNat]? with
  | none =>
    rw [if_pos (List.getElem?_eq_none_iff.mp hv)]
    rfl
  | some v =>
    have hlt := (List.getElem?_eq_some_iff.mp hv).1
    rw [if_neg (Nat.not_le.mpr hlt)]
    exact Page.word_of_bytesAt (h.slot _ v hv) (slotOffset_le (Nat.lt_of_lt_of_le hlt h.fits))

theorem inPage_alike (h : InPage vs page) (hs : 12 ≤ page.size) (ha : page.Alike q) : InPage vs q := by
  refine ⟨?_, ?_, ha.1 ▸ h.fits, fun k v hv => ?_⟩
  · rw [PageHeader.Marks, ← Page.bytesAt_alike (by omega) ha (.inl (by omega))]
    exact h.mark
  · rw [← Page.bytesAt_alike (by omega) ha (.inr (by omega))]
    exact h.used
  · rw [← Page.bytesAt_alike (by omega) ha (.inr (by simp only [slotOffset]; omega))]
    exact h.slot k v hv

theorem setValue_inside (h : slot.toNat < capacity page.size) (v : Int32) :
    (setValue slot v).offset + (setValue slot v).bytes.length ≤ page.size := by
  have := slotOffset_le h
  simpa [setValue, Write.word, Word.width] using this

/-- Another number in a slot. -/
theorem inPage_setValue (h : InPage vs page) (hslot : slot.toNat < vs.length) (v : Int32) :
    InPage (vs.set slot.toNat v) (page.written (setValue slot v)) := by
  have hin := setValue_inside (Nat.lt_of_lt_of_le hslot h.fits) v
  have hsize := Page.size_written hin
  have hoffset : (setValue slot v).offset = slotOffset slot.toNat := rfl
  have hlength : (setValue slot v).bytes.length = 4 := Word.length_bytes v
  refine ⟨?_, ?_, ?_, fun k x hx => ?_⟩
  · rw [PageHeader.Marks, Page.bytesAt_written_of_apart hin (.inl (by rw [hoffset, slotOffset]; omega))]
    exact h.mark
  · rw [Page.bytesAt_written_of_apart hin (.inl (by rw [hoffset, slotOffset]; omega)), List.length_set]
    exact h.used
  · rw [List.length_set, hsize]
    exact h.fits
  · by_cases hk : k = slot.toNat
    · subst hk
      rw [List.getElem?_set_self hslot] at hx
      cases hx
      rw [← hlength]
      exact Page.bytesAt_written_self hin
    · rw [List.getElem?_set_ne (Ne.symm hk)] at hx
      rw [Page.bytesAt_written_of_apart hin]
      · exact h.slot k x hx
      · rw [hoffset, hlength, slotOffset, slotOffset]
        omega

/-- The page of a new bucket. -/
theorem inPage_format (page : Page) (hs : 12 ≤ page.size) :
    (∀ w ∈ format, Page.Inside page.size w) ∧ InPage [] (page.writtenAll format) := by
  obtain ⟨hin, hmark, hzero⟩ := PageHeader.numbered_fresh page hs .sizeBucket
  exact ⟨hin, hmark, hzero, Nat.zero_le _, nofun⟩

/-- The writes that take the next slot of a bucket. -/
def nextWrites (n : Nat) : List Write := [setValue (UInt32.ofNat n) 0, .word 8 (Int32.ofNat (n + 1))]

theorem add_inPage (h : InPage vs page) (hs : 12 ≤ page.size) (hl : page.size ≤ 65536) :
    add page = .ok (if vs.length < capacity page.size then
      (some (UInt32.ofNat vs.length), nextWrites vs.length) else (none, [])) := by
  simp only [add, size_inPage h hs hl, bind, Except.bind]
  split
  · next hfull => rw [if_neg (Nat.not_lt.mpr hfull)]; rfl
  · next hroom => rw [if_pos (Nat.lt_of_not_le hroom)]; rfl

/-- A bucket with room takes one more number. -/
theorem inPage_next (h : InPage vs page) (hs : 12 ≤ page.size) (hl : page.size ≤ 65536)
    (hroom : vs.length < capacity page.size) :
    (∀ w ∈ nextWrites vs.length, Page.Inside page.size w) ∧
      InPage (vs ++ [0]) (page.writtenAll (nextWrites vs.length)) := by
  have hlt : vs.length < 2 ^ 31 := Nat.lt_trans hroom (capacity_lt hl)
  have hslot : (UInt32.ofNat vs.length).toNat = vs.length :=
    UInt32.toNat_ofNat_of_lt' (Nat.lt_trans hlt (by decide))
  have hvalue : Page.Inside page.size (setValue (UInt32.ofNat vs.length) 0) :=
    setValue_inside (by rwa [hslot]) 0
  have hused : Page.Inside page.size (.word 8 (Int32.ofNat (vs.length + 1))) :=
    Write.number_inside hs _
  have hsize : (page.written (setValue (UInt32.ofNat vs.length) 0)).size = page.size :=
    Page.size_written hvalue
  have hin : Page.Inside (page.written (setValue (UInt32.ofNat vs.length) 0)).size
      (.word 8 (Int32.ofNat (vs.length + 1))) := by rwa [hsize]
  have hoffset : (setValue (UInt32.ofNat vs.length) 0).offset = slotOffset vs.length := by
    rw [setValue, hslot]
    rfl
  have hlength : (setValue (UInt32.ofNat vs.length) 0).bytes.length = 4 := Word.length_bytes 0
  have hapart (k : Nat) : (page.writtenAll (nextWrites vs.length)).bytesAt (slotOffset k) 4 =
      (page.written (setValue (UInt32.ofNat vs.length) 0)).bytesAt (slotOffset k) 4 :=
    Page.bytesAt_written_of_apart hin (.inr (by simp [Write.word, Word.width, slotOffset]))
  refine ⟨?_, ?_, ?_, ?_, fun k x hx => ?_⟩
  · simp only [nextWrites, List.mem_cons, List.not_mem_nil, or_false, forall_eq_or_imp, forall_eq]
    exact ⟨hvalue, hused⟩
  · rw [PageHeader.Marks, Page.writtenAll, nextWrites, List.foldl_cons, List.foldl_cons, List.foldl_nil,
      Page.bytesAt_written_of_apart hin (.inl (by simp [Write.word])),
      Page.bytesAt_written_of_apart hvalue (.inl (by rw [hoffset, slotOffset]; omega))]
    exact h.mark
  · rw [List.length_append, List.length_singleton]
    exact Page.bytesAt_written_self hin
  · rw [List.length_append, List.length_singleton, Page.writtenAll, nextWrites, List.foldl_cons,
      List.foldl_cons, List.foldl_nil, Page.size_written hin, hsize]
    exact hroom
  · rw [hapart]
    rcases Nat.lt_or_ge k vs.length with hk | hk
    · rw [List.getElem?_append_left hk] at hx
      rw [Page.bytesAt_written_of_apart hvalue (.inl (by rw [hoffset, slotOffset, slotOffset]; omega))]
      exact h.slot k x hx
    · obtain rfl : k = vs.length := by
        have := (List.getElem?_eq_some_iff.mp hx).1
        rw [List.length_append, List.length_singleton] at this
        omega
      rw [List.getElem?_concat_length] at hx
      cases hx
      rw [← hoffset, ← hlength]
      exact Page.bytesAt_written_self hvalue

/-! ## Calls on a slot -/

/-- What a call answers about the number in a slot, and the number that it leaves there. -/
abbrev Move (α : Type) := Int32 → Except SlotFault (α × Int32)

namespace Move

def increment : Move Int32 := fun n =>
  if n < 0 then .error .deleted else if n = Int32.maxValue then .error .overflow else .ok (n + 1, n + 1)

def decrement : Move Int32 := fun n =>
  if n < 0 then .error .deleted else if n = 0 then .error .empty else .ok (n - 1, n - 1)

def delete : Move Unit := fun n => if n < 0 then .error .alreadyDeleted else .ok ((), deletedMark)

end Move

/-- A call on the page of a bucket makes a move with one slot. -/
def Moves {α : Type} (f : SlotId → Page → Checked SizesError (α × List Write)) (move : Move α) : Prop :=
  ∀ {vs : List Int32} {page : Page} (slot : SlotId), InPage vs page → 12 ≤ page.size →
    page.size ≤ 65536 → f slot page = match vs[slot.toNat]? with
      | none => refuse (.slot .unknown slot)
      | some n => match move n with
        | .error kind => refuse (.slot kind slot)
        | .ok (a, n') => .ok (a, [setValue slot n'])

theorem count_inPage (h : InPage vs page) (hs : 12 ≤ page.size) (hl : page.size ≤ 65536) :
    count slot page = match vs[slot.toNat]? with
      | none => refuse (.slot .unknown slot)
      | some n => if n < 0 then refuse (.slot .deleted slot) else .ok n := by
  simp only [count, value_inPage h hs hl]
  cases vs[slot.toNat]? with
  | none => rfl
  | some n => rfl

theorem increment_moves : Moves increment Move.increment := by
  intro vs page slot h hs hl
  simp only [increment, count_inPage h hs hl]
  cases vs[slot.toNat]? with
  | none => rfl
  | some n =>
    dsimp only
    rw [Move.increment]
    by_cases hneg : n < 0
    · simp only [if_pos hneg]
      rfl
    · simp only [if_neg hneg, bind, Except.bind]
      by_cases hmax : n = Int32.maxValue
      · simp only [if_pos hmax]
        rfl
      · simp only [if_neg hmax]
        rfl

theorem decrement_moves : Moves decrement Move.decrement := by
  intro vs page slot h hs hl
  simp only [decrement, count_inPage h hs hl]
  cases vs[slot.toNat]? with
  | none => rfl
  | some n =>
    dsimp only
    rw [Move.decrement]
    by_cases hneg : n < 0
    · simp only [if_pos hneg]
      rfl
    · simp only [if_neg hneg, bind, Except.bind]
      by_cases hzero : n = 0
      · simp only [if_pos hzero]
        rfl
      · simp only [if_neg hzero]
        rfl

theorem delete_moves : Moves delete Move.delete := by
  intro vs page slot h hs hl
  simp only [delete, value_inPage h hs hl]
  cases vs[slot.toNat]? with
  | none => rfl
  | some n =>
    dsimp only [bind, Except.bind]
    rw [Move.delete]
    by_cases hneg : n < 0
    · simp only [if_pos hneg]
      rfl
    · simp only [if_neg hneg]
      rfl

end Bucket

end RefStore
