import RefStore.Key
import RefStore.Page.Header
import RefStore.Proofs.Overlays

/-!
# Reading through an overlay

A stretch of a page is read through an overlay by laying over it what each patch holds of it. Written
to side by side with a copy of its base, an overlay reads as the copy does, and its patches hold just
the places that were written. Main statement: `Overlay.writeAll_follows`.
-/

namespace RefStore

/-- A key is told by the bytes that are read. -/
theorem Key.readFrom_congr {π ρ : Type} [Readable π] [Readable ρ] {p : π} {q : ρ}
    (size : Readable.size p = Readable.size q)
    (slice : ∀ offset length, (Readable.slice p offset length : Checked KeyError ByteArray) =
      Readable.slice q offset length) (offset : Nat) : readFrom p offset = readFrom q offset := by
  simp only [readFrom, size, slice]

namespace Patch

/-- Whether a patch holds a place of the page. -/
def Holds (p : Patch) (i : Nat) : Prop := p.offset ≤ i ∧ i < p.stop

theorem isSome_byteAt? (p : Patch) (i : Nat) : (p.byteAt? i).isSome ↔ p.Holds i := by
  rw [byteAt?, Holds, stop]
  split
  · next hle =>
    rw [← Option.ne_none_iff_isSome, ne_eq, List.getElem?_eq_none_iff, Block.length_toList]
    omega
  · next hlt => simp [hlt]

theorem isSome_lookup? (ps : List Patch) (i : Nat) :
    (lookup? ps i).isSome ↔ ∃ p ∈ ps, p.Holds i := by
  rw [lookup?, List.findSome?_isSome_iff]
  exact exists_congr fun p => and_congr_right fun _ => isSome_byteAt? p i

theorem size_lay (start : Nat) (block : ByteArray) (p : Patch) :
    (lay start block p).size = block.size := by
  have hstop : p.stop = p.offset + p.bytes.size := rfl
  rw [lay]
  split
  · refine Block.size_splice _ _ _ ?_
    rw [ByteArray.size_extract]
    omega
  · rfl

/-- The bytes of a stretch with one patch laid over it. -/
theorem getElem?_lay (start : Nat) (block : ByteArray) (p : Patch) {i : Nat} (hi : i < block.size) :
    (Block.toList (lay start block p))[i]? = (p.byteAt? (start + i)).or (Block.toList block)[i]? := by
  have hstop : p.stop = p.offset + p.bytes.size := rfl
  by_cases hin : p.offset ≤ start + i ∧ start + i < p.stop
  · -- the place is one that the patch holds
    have hlow : max p.offset start < min p.stop (start + block.size) := by omega
    have hroom : max p.offset start - start + (p.bytes.extract (max p.offset start - p.offset)
        (min p.stop (start + block.size) - p.offset)).size ≤ block.size := by
      rw [ByteArray.size_extract]
      omega
    rw [lay, if_pos hlow, Block.getElem?_splice _ _ _ hroom, ByteArray.size_extract, if_pos (by omega),
      Block.toList_extract, List.getElem?_drop, List.getElem?_take_of_lt (by omega), byteAt?,
      if_pos hin.1]
    have hplace : max p.offset start - p.offset + (i - (max p.offset start - start)) =
        start + i - p.offset := by omega
    have hlt : start + i - p.offset < (Block.toList p.bytes).length := by
      rw [Block.length_toList]
      omega
    rw [hplace, List.getElem?_eq_getElem hlt, Option.some_or]
  · rw [byteAt?_eq_none (by omega), Option.none_or, lay]
    split
    · rw [Block.getElem?_splice, if_neg]
      · rw [ByteArray.size_extract]
        omega
      · rw [ByteArray.size_extract]
        omega
    · rfl

theorem size_foldl_lay (start : Nat) (block : ByteArray) (ps : List Patch) :
    (ps.foldl (lay start) block).size = block.size := by
  induction ps generalizing block with
  | nil => rfl
  | cons p ps ih => rw [List.foldl_cons, ih, size_lay]

/-- The bytes of a stretch with all patches laid over it. -/
theorem getElem?_foldl_lay {ps : List Patch} (h : Apart ps) (start : Nat) (block : ByteArray) {i : Nat}
    (hi : i < block.size) : (Block.toList (ps.foldl (lay start) block))[i]? =
      (lookup? ps (start + i)).or (Block.toList block)[i]? := by
  induction ps generalizing block with
  | nil => rfl
  | cons p ps ih =>
    obtain ⟨-, hp, hps⟩ := h
    rw [List.foldl_cons, ih hps _ (by rwa [size_lay]), getElem?_lay start block p hi,
      lookup?_cons_of_apart hp, Option.or_assoc]

theorem Apart.pairwise {ps : List Patch} (h : Apart ps) :
    ps.Pairwise fun p q => p.stop < q.offset := by
  induction ps with
  | nil => exact .nil
  | cons p ps ih => exact .cons h.2.1 (ih h.2.2)

theorem Apart.nonempty {ps : List Patch} (h : Apart ps) : ∀ p ∈ ps, p.offset < p.stop := by
  induction ps with
  | nil => nofun
  | cons p ps ih =>
    intro q hq
    rcases List.mem_cons.mp hq with rfl | hq
    · exact h.1
    · exact ih h.2.2 q hq

end Patch

/-- Whether a write goes over a place of the page. -/
def Write.Covers (w : Write) (i : Nat) : Prop := w.offset ≤ i ∧ i < w.offset + w.bytes.length

namespace Overlay

variable {ε : Type} {o : Overlay} {base copy : Page} {ws : List Write}

/-- A stretch is read through an overlay as it stands on the page that the overlay shows. -/
theorem slice_eq (h : o.Tidy) (offset length : Nat) :
    (o.slice offset length : Checked ε ByteArray) = o.page.slice offset length := by
  have hsize := size_page h
  by_cases hin : offset + length ≤ o.base.size
  · have hread : (o.slice offset length : Checked ε ByteArray) =
        .ok (o.patches.foldl (Patch.lay offset) (o.base.bytes.extract offset (offset + length))) := by
      rw [slice, Page.slice_eq hin]
      rfl
    rw [hread, Page.slice_eq (by rw [hsize]; exact hin)]
    refine congrArg Except.ok (Block.toList_injective (List.ext_getElem? fun i => ?_))
    have hblock : (o.base.bytes.extract offset (offset + length)).size = length := by
      rw [ByteArray.size_extract]
      rw [Page.size] at hin
      omega
    rw [Page.toList_extract]
    by_cases hi : i < length
    · rw [Patch.getElem?_foldl_lay h.apart offset _ (by omega), Page.toList_extract,
        Page.getElem?_bytesAt, Page.getElem?_bytesAt, if_pos hi, if_pos hi, getElem?_page h]
    · have hpage : offset + length ≤ o.page.size := by rw [hsize]; exact hin
      rw [List.getElem?_eq_none, List.getElem?_eq_none]
      · rw [Page.length_bytesAt hpage]
        omega
      · rw [Block.length_toList, Patch.size_foldl_lay]
        omega
  · rw [slice, Page.slice, if_neg hin, Page.slice, if_neg (by rw [hsize]; exact hin)]
    rfl

theorem word_eq (α : Type) [Word α] (h : o.Tidy) (offset : Nat) :
    (o.word α offset : Checked ε α) = o.page.word α offset := by
  rw [word, slice_eq h, Page.word]

/-- A page without changes is read as it is. -/
theorem readFrom_eq (h : o.Tidy) (offset : Nat) : Key.readFrom o offset = Key.readFrom (on o.page) offset := by
  apply Key.readFrom_congr
  · exact (size_page h).symm
  · intro offset length
    have hon : ((on o.page).slice offset length : Checked KeyError ByteArray) = o.page.slice offset length := by
      rw [slice_eq (tidy_on o.page), page_on]
    exact (slice_eq h offset length).trans hon.symm

/-- An overlay and a copy of its base, after the same writes. -/
structure Follows (base : Page) (ws : List Write) (o : Overlay) (copy : Page) : Prop where
  base : o.base = base
  tidy : o.Tidy
  page : o.page = copy
  covers : ∀ i, (∃ p ∈ o.patches, p.Holds i) ↔ ∃ w ∈ ws, w.Covers i

namespace Follows

theorem nil (base : Page) : Follows base [] (on base) base :=
  ⟨rfl, tidy_on base, rfl, fun i => by simp [on]⟩

theorem size_copy (h : Follows base ws o copy) : copy.size = base.size := by
  rw [← h.page, size_page h.tidy, size, h.base]

/-- One more write, to both. -/
theorem write (h : Follows base ws o copy) {w : Write} (hw : Page.Inside base.size w) :
    ∃ o' copy', (o.write w : Checked ε Overlay) = .ok o' ∧ (copy.write w : Checked ε Page) = .ok copy' ∧
      Follows base (ws ++ [w]) o' copy' := by
  have hin : Page.Inside o.size w := by
    rw [size, h.base]
    exact hw
  refine ⟨o.written w, copy.written w, write_eq_ok_iff.mpr ⟨hin, rfl⟩,
    Page.write_eq (by rw [h.size_copy]; exact hw), (base_written o w).trans h.base,
    tidy_written h.tidy hin, ?_, fun i => ?_⟩
  · rw [page_written h.tidy hin, h.page]
  · have hsplit : (∃ v ∈ ws ++ [w], v.Covers i) ↔ w.Covers i ∨ ∃ v ∈ ws, v.Covers i := by
      simp only [List.mem_append, List.mem_singleton, or_and_right, exists_or, exists_eq_left]
      exact or_comm
    rw [hsplit, ← h.covers, written]
    split
    · next hempty =>
      have hno : ¬ w.Covers i := by
        rw [List.isEmpty_iff] at hempty
        rw [Write.Covers, hempty, List.length_nil]
        omega
      exact (or_iff_right hno).symm
    · have hnew : Patch.Holds ⟨w.offset, Block.ofList w.bytes⟩ i ↔ w.Covers i := by
        rw [Patch.Holds, Patch.stop, Block.size_ofList, Write.Covers]
      rw [← Patch.isSome_lookup?, Patch.lookup?_insert _ _ h.tidy.apart, Option.isSome_or,
        Bool.or_eq_true, Patch.isSome_byteAt?, hnew, Patch.isSome_lookup?]

/-- Any number of writes, to both. -/
theorem writeAll (h : Follows base ws o copy) {more : List Write}
    (hmore : ∀ w ∈ more, Page.Inside base.size w) :
    ∃ o' copy', (o.writeAll more : Checked ε Overlay) = .ok o' ∧
      (copy.writeAll more : Checked ε Page) = .ok copy' ∧ Follows base (ws ++ more) o' copy' := by
  induction more generalizing ws o copy with
  | nil => exact ⟨o, copy, rfl, rfl, by rwa [List.append_nil]⟩
  | cons w more ih =>
    obtain ⟨o₁, copy₁, ho, hc, h₁⟩ := h.write (ε := ε) (hmore w (by simp))
    obtain ⟨o₂, copy₂, ho', hc', h₂⟩ := ih h₁ fun v hv => hmore v (by simp [hv])
    refine ⟨o₂, copy₂, ?_, ?_, by rwa [List.append_assoc] at h₂⟩
    · rw [Overlay.writeAll, List.foldlM_cons, ho]
      exact ho'
    · rw [Page.writeAll, List.foldlM_cons, hc]
      exact hc'

end Follows

/-- An overlay and a copy of its base, written to side by side, read alike: stretches, words and keys.
Its patches stand in order with gaps between them, inside the page, and hold the places that were
written. -/
theorem writeAll_follows (base : Page) (ws : List Write) (hws : ∀ w ∈ ws, Page.Inside base.size w) :
    ∃ o copy, ((on base).writeAll ws : Checked ε Overlay) = .ok o ∧
      (base.writeAll ws : Checked ε Page) = .ok copy ∧
      (∀ offset length, (o.slice offset length : Checked ε ByteArray) = copy.slice offset length) ∧
      (∀ (α : Type) [Word α] (offset : Nat), (o.word α offset : Checked ε α) = copy.word α offset) ∧
      (∀ offset, Key.readFrom o offset = Key.readFrom (on copy) offset) ∧
      o.page = copy ∧ o.base = base ∧
      (∀ p ∈ o.patches, p.offset < p.stop ∧ p.stop ≤ base.size) ∧
      o.patches.Pairwise (fun p q => p.stop < q.offset) ∧
      ∀ i, (∃ p ∈ o.patches, p.Holds i) ↔ ∃ w ∈ ws, w.Covers i := by
  obtain ⟨o, copy, ho, hc, h⟩ := (Follows.nil base).writeAll (ε := ε) hws
  obtain rfl := h.page
  refine ⟨o, o.page, ho, hc, slice_eq h.tidy, fun α _ => word_eq α h.tidy, readFrom_eq h.tidy, rfl, h.base,
    fun p hp => ⟨h.tidy.apart.nonempty p hp, ?_⟩, h.tidy.apart.pairwise, h.covers⟩
  rw [← h.base]
  exact h.tidy.inside p hp

/-- A write that fills the gap between two others leaves one patch over all three. -/
theorem follows_bridge : ∃ o : Overlay,
    ((on (.zero 8)).writeAll [⟨1, [1, 2]⟩, ⟨4, [5, 6]⟩, ⟨2, [3, 4]⟩] : Checked PageError Overlay) = .ok o ∧
      o.page.toList = [0, 1, 3, 4, 5, 6, 0, 0] ∧ ∀ i, (∃ p ∈ o.patches, p.Holds i) ↔ 1 ≤ i ∧ i < 6 := by
  have hin : ∀ w ∈ ([⟨1, [1, 2]⟩, ⟨4, [5, 6]⟩, ⟨2, [3, 4]⟩] : List Write), Page.Inside (Page.zero 8).size w := by
    rw [Page.size_zero]
    simp [Page.Inside]
  obtain ⟨o, copy, ho, hc, -, -, -, hp, -, -, -, hcovers⟩ := writeAll_follows (ε := PageError) _ _ hin
  obtain ⟨-, rfl⟩ := Page.writeAll_eq_ok_iff.mp hc
  refine ⟨o, ho, ?_, fun i => (hcovers i).trans ?_⟩
  · rw [hp]
    decide
  · simp only [List.mem_cons, List.not_mem_nil, or_false, exists_eq_or_imp, exists_eq_left, Write.Covers,
      List.length_cons, List.length_nil]
    omega

end Overlay

end RefStore
