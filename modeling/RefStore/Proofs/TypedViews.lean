import RefStore.Proofs.PageViews
import RefStore.Proofs.SlotPages

/-!
# Typed views stay inside the page

Headers, nodes, entry points and buckets are read from a page whose bytes may be anything, and no
call on them reads or writes past its end. A call on a bucket that succeeds changes the slot it is
about, and one that fails changes nothing. Main statement: `PageView.contained`.
-/

namespace RefStore

variable {page : Page} {v : PageView} {slot : SlotId}

/-! ## Nodes -/

theorem NodeLinks.read_faultless (h : 35 ≤ page.size) : (read page).Faultless := by
  apply Page.word_bind_faultless (by simp only [Word.width]; omega)
  intro code
  split
  · exact .refuse _
  · next kind _ =>
    apply Checked.Faultless.bind
    · exact (PageHeader.expect_faultless (by omega) _).mapError _
    intro _ _
    apply Page.word_bind_faultless (by simp only [Word.width]; omega)
    intro count
    apply Page.word_bind_faultless (by simp only [Word.width]; omega)
    intro parent
    apply Page.word_bind_faultless (by simp only [Word.width]; omega)
    intro previous
    apply Page.word_bind_faultless (by simp only [Word.width]; omega)
    intro next
    exact .ok _

/-- The count in the header bounds what a leaf reads after it. -/
theorem Leaf.read_faultless (h : 35 ≤ page.size) : (read page).Faultless := by
  apply (NodeLinks.read_faultless h).bind
  rintro ⟨kind, links⟩ _
  dsimp only
  apply Checked.Faultless.guarded
  intro _
  apply Checked.Faultless.guarded
  intro hfits
  apply Checked.Faultless.bind
  · apply Page.slice_faultless
    simp only [capacity, nodeDataOffset] at hfits ⊢
    omega
  · exact fun block _ => .ok _

theorem Branch.read_faultless (h : 43 ≤ page.size) : (read page).Faultless := by
  apply (NodeLinks.read_faultless (by omega)).bind
  rintro ⟨kind, links⟩ _
  dsimp only
  apply Checked.Faultless.guarded
  intro _
  apply Page.word_bind_faultless (by simp only [nodeDataOffset, Word.width]; omega)
  intro first
  apply Checked.Faultless.guarded
  intro hfits
  apply Checked.Faultless.bind
  · apply Page.slice_faultless
    simp only [capacity, nodeDataOffset] at hfits ⊢
    omega
  · exact fun block _ => .ok _

theorem Node.read_faultless (h : 43 ≤ page.size) : (read page).Faultless := by
  apply (NodeLinks.read_faultless (by omega)).bind
  rintro ⟨kind, links⟩ _
  cases kind with
  | branch => exact (Branch.read_faultless h).bind fun _ _ => .ok _
  | leaf => exact (Leaf.read_faultless (by omega)).bind fun _ _ => .ok _

/-! ## The entry point -/

namespace EntryPoint

theorem count_faultless (h : 12 ≤ page.size) : (count page).Faultless := by
  apply Checked.Faultless.bind
  · exact (PageHeader.expect_faultless (by omega) _).mapError _
  intro _ _
  apply Page.word_bind_faultless h
  intro n
  apply Checked.Faultless.guarded
  exact fun _ => .ok _

theorem setCount_faultless (h : 12 ≤ page.size) (n : Nat) : (setCount n page).Faultless := by
  apply Checked.Faultless.bind
  · exact (PageHeader.expect_faultless (by omega) _).mapError _
  intro _ _
  apply Checked.Faultless.guarded
  exact fun _ => .ok _

/-- A number of buckets was stored, and nothing else changed. -/
structure Stores (n : Nat) (p q : Page) : Prop where
  elsewhere : Page.AgreeOutside (Set.Ico 8 12) p q
  count : EntryPoint.count q = .ok n

theorem setCount_ends (hs : 12 ≤ v.page.size) (n : Nat) :
    (PageView.edit (setCount n)).Ends v (fun _ v' => Stores n v.page v'.page) v.Unchanged := by
  apply PageView.edit_ends (fun _ => Stores n v.page) (setCount_faultless hs n)
  intro _ ws hset
  obtain ⟨_, hmark, hset⟩ := Checked.bind_eq_ok_iff.mp hset
  dsimp only at hset
  split at hset
  · cases hset
  · next hfew =>
    cases hset
    have hmax : Int32.maxValue.toInt = 2147483647 := rfl
    have hin : Page.Inside v.page.size (.word 8 (Int32.ofNat n)) := Write.number_inside hs _
    have hstored := inPage_written
      (PageHeader.marks_of_expect (Checked.mapError_eq_ok_iff.mp hmark)) hs n
    have hsize : 12 ≤ (v.page.written (.word 8 (Int32.ofNat n))).size := by
      rw [Page.size_written hin]
      exact hs
    constructor
    · simpa using hin
    · exact ⟨Page.agreeOutside_written hin, count_inPage hstored (by omega) hsize⟩

end EntryPoint

/-! ## Buckets -/

namespace Bucket

theorem size_faultless (h : 12 ≤ page.size) : (size page).Faultless := by
  apply Checked.Faultless.bind
  · exact (PageHeader.expect_faultless (by omega) _).mapError _
  intro _ _
  apply Page.word_bind_faultless h
  intro n
  apply Checked.Faultless.guarded
  exact fun _ => .ok _

/-- A page with a number of slots that is allowed is a bucket, whatever stands in its slots. -/
theorem exists_inPage {n : Nat} (h : size page = .ok n) : ∃ vs : List Int32, InPage vs page ∧ vs.length = n := by
  obtain ⟨_, hmark, h⟩ := Checked.bind_eq_ok_iff.mp h
  obtain ⟨used, hused, h⟩ := Checked.bind_eq_ok_iff.mp h
  dsimp only at h
  split at h
  · cases h
  · next hin =>
    cases h
    obtain ⟨hneg, hfits⟩ := not_or.mp hin
    rw [Int32.lt_iff_toInt_lt, Int32.toInt_zero] at hneg
    have hback : Int32.ofNat used.toInt.toNat = used := by
      apply Int32.toInt_inj.mp
      have hlt := used.toInt_lt
      rw [Int32.toInt_ofNat_of_lt (by omega)]
      omega
    let slots := (List.range used.toInt.toNat).map fun k =>
      (Word.ofBytes (page.bytesAt (slotOffset k) 4) : Int32)
    have hlen : slots.length = used.toInt.toNat := by simp [slots]
    refine ⟨slots, ⟨?_, ?_, ?_, ?_⟩, hlen⟩
    · exact PageHeader.marks_of_expect (Checked.mapError_eq_ok_iff.mp hmark)
    · rw [hlen, hback]
      exact Page.bytesAt_of_word hused
    · rw [hlen]
      omega
    · intro k x hx
      obtain ⟨hk, rfl⟩ := List.getElem?_eq_some_iff.mp hx
      have hwidth : (page.bytesAt (slotOffset k) 4).length = Word.width Int32 :=
        Page.length_bytesAt (slotOffset_le (by omega))
      rw [List.getElem_map, List.getElem_range]
      exact (Word.bytes_ofBytes _ hwidth).symm

theorem value_faultless (h : 12 ≤ page.size) (slot : SlotId) : (value page slot).Faultless := by
  apply (size_faultless h).bind
  intro n hn
  obtain ⟨vs, hvs, rfl⟩ := exists_inPage hn
  apply Checked.Faultless.guarded
  intro hlt
  apply Page.word_faultless
  exact slotOffset_le (Nat.lt_of_lt_of_le (Nat.lt_of_not_le hlt) hvs.fits)

theorem count_faultless (h : 12 ≤ page.size) (slot : SlotId) : (count slot page).Faultless := by
  apply (value_faultless h slot).bind
  intro n _
  apply Checked.Faultless.guarded
  exact fun _ => .ok _

/-- The places of a slot in the page of a bucket. -/
def places (slot : SlotId) : Set Nat := Set.Ico (slotOffset slot.toNat) (slotOffset slot.toNat + 4)

/-- A number was stored in a slot, and nothing else changed. -/
structure Stores (slot : SlotId) (n : Int32) (p q : Page) : Prop where
  elsewhere : Page.AgreeOutside (places slot) p q
  value : Bucket.value q slot = .ok n

/-- The next slot was handed out with count zero, or the bucket was full and nothing changed. -/
inductive HandsOut : Option SlotId → Page → Page → Prop where
  | full {p : Page} {n : Nat} (before : size p = .ok n) (room : n = capacity p.size) : HandsOut none p p
  | next {slot : SlotId} {p q : Page} (elsewhere : Page.AgreeOutside (places slot ∪ Set.Ico 8 12) p q)
      (value : Bucket.value q slot = .ok 0) (before : size p = .ok slot.toNat)
      (after : size q = .ok (slot.toNat + 1)) : HandsOut (some slot) p q

/-- A call on a bucket that is not one fails as reading its size does. -/
def Opens {α : Type} (f : SlotId → Page → Checked SizesError (α × List Write)) : Prop :=
  ∀ {page : Page} {failure : Failure SizesError} (slot : SlotId), size page = .error failure →
    f slot page = .error failure

theorem increment_opens : Opens increment := by
  intro page failure slot h
  simp only [increment, count, value, h, bind, Except.bind]

theorem decrement_opens : Opens decrement := by
  intro page failure slot h
  simp only [decrement, count, value, h, bind, Except.bind]

theorem delete_opens : Opens delete := by
  intro page failure slot h
  simp only [delete, value, h, bind, Except.bind]

/-- A call on a slot ends with another number in it, or with an error and nothing changed. -/
theorem Moves.ends {α : Type} {f : SlotId → Page → Checked SizesError (α × List Write)} {move : Move α}
    (hf : Moves f move) (ho : Opens f) (hs : 12 ≤ v.page.size) (hl : v.page.size ≤ 65536) (slot : SlotId) :
    (PageView.edit (f slot)).Ends v
      (fun a v' => ∃ n n', value v.page slot = .ok n ∧ move n = .ok (a, n') ∧ Stores slot n' v.page v'.page)
      v.Unchanged := by
  rcases (size_faultless hs).cases with ⟨used, hused⟩ | ⟨cause, hcause⟩
  · obtain ⟨vs, hvs, rfl⟩ := exists_inPage hused
    have hcall := hf slot hvs hs hl
    have hvalue : value v.page slot = _ := value_inPage hvs hs hl
    cases hn : vs[slot.toNat]? with
    | none =>
      rw [hn] at hcall
      exact .error (PageView.edit_fails hcall) ⟨rfl, _, rfl⟩
    | some n =>
      rw [hn] at hcall hvalue
      dsimp only at hcall hvalue
      cases hm : move n with
      | error kind =>
        rw [hm] at hcall
        exact .error (PageView.edit_fails hcall) ⟨rfl, _, rfl⟩
      | ok moved =>
        obtain ⟨a, n'⟩ := moved
        rw [hm] at hcall
        have hlt := (List.getElem?_eq_some_iff.mp hn).1
        have hin := setValue_inside (Nat.lt_of_lt_of_le hlt hvs.fits) n'
        obtain ⟨v', hg, hp⟩ := PageView.edit_gives hcall (by simpa [Page.Inside] using hin)
        have hp' : v'.page = v.page.written (setValue slot n') := hp
        have hsize := Page.size_written hin
        apply hg.ends
        refine ⟨n, n', hvalue, hm, ?_, ?_⟩
        · rw [hp']
          have hlen : (setValue slot n').bytes.length = 4 := Word.length_bytes n'
          have ha := Page.agreeOutside_written hin
          rw [hlen] at ha
          exact ha
        · rw [hp', value_inPage (inPage_setValue hvs hlt n') (by rw [hsize]; exact hs) (by rw [hsize]; exact hl),
            List.getElem?_set_self hlt]
  · exact .error (PageView.edit_fails (ho slot hcause)) ⟨rfl, cause, rfl⟩

theorem Move.increment_ok {n m n' : Int32} (h : Move.increment n = .ok (m, n')) : n' = m ∧ 0 ≤ m := by
  rw [Move.increment] at h
  split at h
  · cases h
  · next hneg =>
    split at h
    · cases h
    · next hmax =>
      cases h
      have hlt := n.toInt_lt
      have hne : n.toInt ≠ 2 ^ 31 - 1 := fun he => hmax (Int32.toInt_inj.mp he)
      rw [Int32.lt_iff_toInt_lt, Int32.toInt_zero] at hneg
      rw [Int32.le_iff_toInt_le, Int32.toInt_zero, Int32.toInt_add, Int32.toInt_one,
        Int.bmod_eq_of_le (by omega) (by omega)]
      exact ⟨rfl, by omega⟩

theorem Move.decrement_ok {n m n' : Int32} (h : Move.decrement n = .ok (m, n')) : n' = m ∧ 0 ≤ m := by
  rw [Move.decrement] at h
  split at h
  · cases h
  · next hneg =>
    split at h
    · cases h
    · next hzero =>
      cases h
      have hlt := n.toInt_lt
      have hne : n.toInt ≠ 0 := fun he => hzero (Int32.toInt_inj.mp he)
      rw [Int32.lt_iff_toInt_lt, Int32.toInt_zero] at hneg
      rw [Int32.le_iff_toInt_le, Int32.toInt_zero, Int32.toInt_sub, Int32.toInt_one,
        Int.bmod_eq_of_le (by omega) (by omega)]
      exact ⟨rfl, by omega⟩

theorem Move.delete_ok {n n' : Int32} (h : Move.delete n = .ok ((), n')) : n' = deletedMark := by
  rw [Move.delete] at h
  split at h
  · cases h
  · cases h
    rfl

/-- A call that answers with the count it leaves in the slot, which is not negative. -/
theorem Moves.counts {f : SlotId → Page → Checked SizesError (Int32 × List Write)} {move : Move Int32}
    (hf : Moves f move) (ho : Opens f) (hmove : ∀ {n m n' : Int32}, move n = .ok (m, n') → n' = m ∧ 0 ≤ m)
    (hs : 12 ≤ v.page.size) (hl : v.page.size ≤ 65536) (slot : SlotId) :
    (PageView.edit (f slot)).Ends v (fun m v' => 0 ≤ m ∧ Stores slot m v.page v'.page) v.Unchanged := by
  apply (hf.ends ho hs hl slot).mono
  · rintro m v' ⟨n, n', -, hok, hstores⟩
    obtain ⟨rfl, hpos⟩ := hmove hok
    exact ⟨hpos, hstores⟩
  · exact fun _ _ h => h

theorem delete_ends (hs : 12 ≤ v.page.size) (hl : v.page.size ≤ 65536) (slot : SlotId) :
    (PageView.edit (delete slot)).Ends v (fun _ v' => Stores slot deletedMark v.page v'.page) v.Unchanged := by
  apply (delete_moves.ends delete_opens hs hl slot).mono
  · rintro _ v' ⟨n, n', -, hok, hstores⟩
    obtain rfl := Move.delete_ok hok
    exact hstores
  · exact fun _ _ h => h

theorem add_faultless (h : 12 ≤ page.size) : (add page).Faultless := by
  apply (size_faultless h).bind
  intro n _
  apply Checked.Faultless.ite
  · exact fun _ => .ok _
  · exact fun _ => .ok _

theorem add_ends (hs : 12 ≤ v.page.size) (hl : v.page.size ≤ 65536) :
    (PageView.edit add).Ends v (fun next v' => HandsOut next v.page v'.page) v.Unchanged := by
  apply PageView.edit_ends (fun next => HandsOut next v.page) (add_faultless hs)
  intro next ws hadd
  obtain ⟨used, hused, -⟩ := Checked.bind_eq_ok_iff.mp hadd
  obtain ⟨vs, hvs, rfl⟩ := exists_inPage hused
  rw [add_inPage hvs hs hl] at hadd
  split at hadd
  · next hroom =>
    cases hadd
    obtain ⟨hin, hnext⟩ := inPage_next hvs hs hl hroom
    have hsize := Page.size_writtenAll hin
    have hslot : (UInt32.ofNat vs.length).toNat = vs.length :=
      UInt32.toNat_ofNat_of_lt' (Nat.lt_trans (Nat.lt_trans hroom (capacity_lt hl)) (by decide))
    have hvalue : value (v.page.writtenAll (nextWrites vs.length)) (UInt32.ofNat vs.length) = _ :=
      value_inPage hnext (by rw [hsize]; exact hs) (by rw [hsize]; exact hl)
    rw [hslot, List.getElem?_concat_length] at hvalue
    have hafter := size_inPage hnext (by rw [hsize]; exact hs) (by rw [hsize]; exact hl)
    rw [List.length_append, List.length_singleton] at hafter
    refine ⟨hin, .next ?_ hvalue (by rw [hslot]; exact hused) (by rw [hslot]; exact hafter)⟩
    have hzero := hin (setValue (UInt32.ofNat vs.length) 0) (by simp [nextWrites])
    have hmore : Page.Inside (v.page.written (setValue (UInt32.ofNat vs.length) 0)).size
        (.word 8 (Int32.ofNat (vs.length + 1))) := by
      rw [Page.size_written hzero]
      exact hin _ (by simp [nextWrites])
    exact (Page.agreeOutside_written hzero).trans_union (Page.agreeOutside_written hmore)
  · next hfull =>
    cases hadd
    constructor
    · exact fun _ hw => absurd hw List.not_mem_nil
    · exact .full hused (Nat.le_antisymm hvs.fits (Nat.le_of_not_lt hfull))

end Bucket

/-! ## All calls on a page -/

namespace PageView

/-- What the calls on a page do, whatever its bytes: none reads or writes past its end, one that fails
leaves it as it was, and one that succeeds writes where it should. -/
structure Contained (v : PageView) : Prop where
  reads (offset length : Nat) :
    (v.slice offset length : Checked PageError ByteArray) = v.page.slice offset length
  header : (PageHeader.read v.page).Faultless
  expect (kind : PageKind) : (PageHeader.expect v.page kind).Faultless
  links : (NodeLinks.read v.page).Faultless
  node : (Node.read v.page).Faultless
  buckets : (EntryPoint.count v.page).Faultless
  setBuckets (n : Nat) : (edit (EntryPoint.setCount n)).Ends v
    (fun _ v' => EntryPoint.Stores n v.page v'.page) v.Unchanged
  size : (Bucket.size v.page).Faultless
  count (slot : SlotId) : (Bucket.count slot v.page).Faultless
  add : (edit Bucket.add).Ends v (fun next v' => Bucket.HandsOut next v.page v'.page) v.Unchanged
  increment (slot : SlotId) : (edit (Bucket.increment slot)).Ends v
    (fun n v' => 0 ≤ n ∧ Bucket.Stores slot n v.page v'.page) v.Unchanged
  decrement (slot : SlotId) : (edit (Bucket.decrement slot)).Ends v
    (fun n v' => 0 ≤ n ∧ Bucket.Stores slot n v.page v'.page) v.Unchanged
  delete (slot : SlotId) : (edit (Bucket.delete slot)).Ends v
    (fun _ v' => Bucket.Stores slot deletedMark v.page v'.page) v.Unchanged

/-- Every page of a size that the settings allow is used within its bounds. -/
theorem contained {s : Settings} (valid : s.validate = .ok ()) (pages : v.page.size = s.pageSize) :
    v.Contained := by
  obtain ⟨hmin, hmax⟩ := size_bounds valid pages
  have hs : 12 ≤ v.page.size := by omega
  constructor
  case reads => exact slice_eq v
  case header => exact PageHeader.read_faultless (by omega)
  case expect => exact PageHeader.expect_faultless (by omega)
  case links => exact NodeLinks.read_faultless (by omega)
  case node => exact Node.read_faultless (by omega)
  case buckets => exact EntryPoint.count_faultless hs
  case setBuckets => exact EntryPoint.setCount_ends hs
  case size => exact Bucket.size_faultless hs
  case count => exact Bucket.count_faultless hs
  case add => exact Bucket.add_ends hs hmax
  case increment => exact Bucket.increment_moves.counts Bucket.increment_opens Bucket.Move.increment_ok hs hmax
  case decrement => exact Bucket.decrement_moves.counts Bucket.decrement_opens Bucket.Move.decrement_ok hs hmax
  case delete => exact Bucket.delete_ends hs hmax

/-- A bucket that claims a negative number of slots, as a page and with the changes not applied. -/
theorem contained_corrupt :
    Contained (.plain ((Page.zero 1024).writtenAll [PageHeader.fresh .sizeBucket, .word 8 (-1 : Int32)])) ∧
      ∃ o : Overlay, ∃ tidy : o.Tidy, o.base = .zero 1024 ∧ Contained (.changed o tidy) := by
  have valid : (⟨"", 1024, 1, false⟩ : Settings).validate = .ok () := rfl
  have hin : ∀ w ∈ [PageHeader.fresh .sizeBucket, .word 8 (-1 : Int32)], Page.Inside (Page.zero 1024).size w := by
    simp [Page.Inside, PageHeader.fresh, PageHeader.bytes, Write.word, Word.width]
  generalize [PageHeader.fresh .sizeBucket, .word 8 (-1 : Int32)] = ws at hin
  constructor
  · have hsize : ((Page.zero 1024).writtenAll ws).size = 1024 := by
      rw [Page.size_writtenAll hin, Page.size_zero]
    exact contained valid hsize
  · have tidy := Overlay.tidy_writtenAll (Overlay.tidy_on (Page.zero 1024)) hin
    have hsize : ((Overlay.on (Page.zero 1024)).writtenAll ws).page.size = 1024 := by
      rw [Overlay.size_page tidy, Overlay.size, Overlay.base_writtenAll]
      exact Page.size_zero 1024
    exact ⟨_, tidy, Overlay.base_writtenAll _ ws, contained valid hsize⟩

end PageView

end RefStore
