import RefStore.Page
import Mathlib.Data.List.Basic

/-!
# Bytes of pages

A page as a list of bytes: what a slice shows, and what a write leaves.
-/

namespace RefStore

theorem Block.getElem?_splice (block : ByteArray) (offset : Nat) (bytes : ByteArray)
    (h : offset + bytes.size ≤ block.size) (i : Nat) :
    (Block.toList (Block.splice block offset bytes))[i]? =
      if offset ≤ i ∧ i < offset + bytes.size then (Block.toList bytes)[i - offset]?
      else (Block.toList block)[i]? := by
  have hl : ((Block.toList block).take offset).length = offset := by
    rw [List.length_take, Block.length_toList]
    omega
  rw [Block.toList_splice, List.append_assoc, List.getElem?_append, hl, List.getElem?_append,
    Block.length_toList]
  by_cases hi : i < offset
  · rw [if_pos hi, if_neg (by omega), List.getElem?_take_of_lt hi]
  · rw [if_neg hi]
    by_cases hb : i - offset < bytes.size
    · rw [if_pos hb, if_pos (by omega)]
    · rw [if_neg hb, if_neg (by omega), List.getElem?_drop]
      congr 1
      omega

namespace Page

variable {ε : Type}

@[simp] theorem length_toList (page : Page) : page.toList.length = page.size := rfl

theorem ext_toList {p q : Page} (h : p.toList = q.toList) : p = q := by
  cases p
  cases q
  exact congrArg Page.mk (Block.toList_injective h)

@[simp] theorem toList_zero (n : Nat) : (zero n).toList = List.replicate n 0 := by
  simp [zero, toList, Block.zeros, Block.toList]

/-- The bytes from an offset on. -/
def bytesAt (page : Page) (offset length : Nat) : List UInt8 :=
  (page.toList.drop offset).take length

theorem length_bytesAt {page : Page} {offset length : Nat} (h : offset + length ≤ page.size) :
    (page.bytesAt offset length).length = length := by
  rw [bytesAt, List.length_take, List.length_drop, length_toList]
  omega

theorem toList_extract (page : Page) (offset length : Nat) :
    Block.toList (page.bytes.extract offset (offset + length)) = page.bytesAt offset length := by
  rw [Block.toList_extract, List.drop_take, bytesAt, toList]
  congr 1
  omega

theorem slice_eq {page : Page} {offset length : Nat} (h : offset + length ≤ page.size) :
    (page.slice offset length : Checked ε ByteArray) =
      .ok (page.bytes.extract offset (offset + length)) := if_pos h

theorem word_eq {α : Type} [Word α] {page : Page} {offset : Nat}
    (h : offset + Word.width α ≤ page.size) :
    (page.word α offset : Checked ε α) = .ok (Word.ofBytes (page.bytesAt offset (Word.width α))) := by
  rw [word, slice_eq h, ← toList_extract]
  rfl

theorem toList_of_slice {page : Page} {offset length : Nat} {block : ByteArray}
    (h : (page.slice offset length : Checked ε ByteArray) = .ok block) :
    offset + length ≤ page.size ∧ Block.toList block = page.bytesAt offset length := by
  by_cases hin : offset + length ≤ page.size
  · rw [slice_eq hin] at h
    cases h
    exact ⟨hin, toList_extract page offset length⟩
  · rw [slice, if_neg hin] at h
    cases h

theorem word_of_bytesAt {α : Type} [Word α] {page : Page} {offset : Nat} {v : α}
    (h : page.bytesAt offset (Word.width α) = Word.bytes v) (hs : offset + Word.width α ≤ page.size) :
    (page.word α offset : Checked ε α) = .ok v := by
  rw [word_eq hs]
  exact congrArg Except.ok ((congrArg Word.ofBytes h).trans (Word.ofBytes_bytes v))

/-- A word that was read is what the bytes there say. -/
theorem bytesAt_of_word {α : Type} [Word α] {page : Page} {offset : Nat} {v : α}
    (h : (page.word α offset : Checked ε α) = .ok v) :
    page.bytesAt offset (Word.width α) = Word.bytes v := by
  by_cases hin : offset + Word.width α ≤ page.size
  · rw [word_eq hin] at h
    cases h
    exact (Word.bytes_ofBytes _ (length_bytesAt hin)).symm
  · rw [word, slice, if_neg hin] at h
    cases h

/-- The page with the bytes of a write, where there is room for them. -/
def written (page : Page) (w : Write) : Page :=
  ⟨Block.splice page.bytes w.offset (Block.ofList w.bytes)⟩

theorem write_eq {page : Page} {w : Write} (h : w.offset + w.bytes.length ≤ page.size) :
    (page.write w : Checked ε Page) = .ok (page.written w) := if_pos h

theorem write_eq_ok_iff {page p : Page} {w : Write} :
    (page.write w : Checked ε Page) = .ok p ↔
      w.offset + w.bytes.length ≤ page.size ∧ page.written w = p := by
  rw [write]
  split
  · next h => simp [h, written]
  · next h => simp [h, halt, throw, throwThe, MonadExceptOf.throw]

theorem toList_written (page : Page) (w : Write) :
    (page.written w).toList =
      page.toList.take w.offset ++ w.bytes ++ page.toList.drop (w.offset + w.bytes.length) := by
  rw [written, toList, Block.toList_splice, Block.toList_ofList, Block.size_ofList]
  rfl

theorem size_written {page : Page} {w : Write} (h : w.offset + w.bytes.length ≤ page.size) :
    (page.written w).size = page.size := by
  rw [written, size, Block.size_splice _ _ _ (by rw [Block.size_ofList]; exact h)]
  rfl

theorem getElem?_written {page : Page} {w : Write} (h : w.offset + w.bytes.length ≤ page.size)
    (i : Nat) :
    (page.written w).toList[i]? =
      if w.offset ≤ i ∧ i < w.offset + w.bytes.length then w.bytes[i - w.offset]?
      else page.toList[i]? := by
  rw [written, toList, Block.getElem?_splice _ _ _ (by rw [Block.size_ofList]; exact h)]
  simp only [Block.size_ofList, Block.toList_ofList]
  rfl

theorem getElem?_bytesAt (page : Page) (offset length i : Nat) :
    (page.bytesAt offset length)[i]? = if i < length then page.toList[offset + i]? else none := by
  rw [bytesAt, List.getElem?_take, List.getElem?_drop]

theorem bytesAt_written_self {page : Page} {w : Write} (h : w.offset + w.bytes.length ≤ page.size) :
    (page.written w).bytesAt w.offset w.bytes.length = w.bytes := by
  apply List.ext_getElem?
  intro i
  rw [getElem?_bytesAt, getElem?_written h]
  by_cases hi : i < w.bytes.length
  · rw [if_pos hi, if_pos (by omega), Nat.add_sub_cancel_left]
  · rw [if_neg hi, List.getElem?_eq_none (by omega)]

theorem bytesAt_written_of_apart {page : Page} {w : Write}
    (h : w.offset + w.bytes.length ≤ page.size) {offset length : Nat}
    (ha : offset + length ≤ w.offset ∨ w.offset + w.bytes.length ≤ offset) :
    (page.written w).bytesAt offset length = page.bytesAt offset length := by
  apply List.ext_getElem?
  intro i
  rw [getElem?_bytesAt, getElem?_bytesAt, getElem?_written h]
  by_cases hi : i < length
  · rw [if_pos hi, if_pos hi, if_neg (by omega)]
  · rw [if_neg hi, if_neg hi]

/-- A stretch of a stretch. -/
theorem bytesAt_bytesAt (page : Page) (offset : Nat) {length start n : Nat} (h : start + n ≤ length) :
    page.bytesAt (offset + start) n = ((page.bytesAt offset length).drop start).take n := by
  rw [bytesAt, bytesAt, List.drop_take, List.take_take, List.drop_drop, Nat.min_eq_left (by omega)]

theorem bytesAt_add (page : Page) (offset m n : Nat) :
    page.bytesAt offset (m + n) = page.bytesAt offset m ++ page.bytesAt (offset + m) n := by
  rw [bytesAt, bytesAt, bytesAt, List.take_add, List.drop_drop]

/-- Writing what stands there already changes nothing. -/
theorem written_eq_self {page : Page} {w : Write} (hin : w.offset + w.bytes.length ≤ page.size)
    (h : page.bytesAt w.offset w.bytes.length = w.bytes) : page.written w = page := by
  apply ext_toList
  apply List.ext_getElem?
  intro i
  rw [getElem?_written hin]
  split
  · next hi =>
    have hb := getElem?_bytesAt page w.offset w.bytes.length (i - w.offset)
    rw [h, if_pos (by omega), Nat.add_sub_cancel' hi.1] at hb
    exact hb
  · rfl

/-- Two writes side by side are one. -/
theorem written_written {page : Page} {offset : Nat} {bs cs : List UInt8}
    (h : offset + (bs.length + cs.length) ≤ page.size) :
    (page.written ⟨offset, bs⟩).written ⟨offset + bs.length, cs⟩ = page.written ⟨offset, bs ++ cs⟩ := by
  have hfirst : offset + bs.length ≤ page.size := by omega
  have hsize : (page.written ⟨offset, bs⟩).size = page.size := size_written hfirst
  apply ext_toList
  apply List.ext_getElem?
  intro i
  rw [getElem?_written (by rw [hsize, Nat.add_assoc]; exact h), getElem?_written hfirst,
    getElem?_written (by rw [List.length_append]; exact h)]
  simp only [List.length_append, List.getElem?_append]
  grind

/-- The page after a list of writes, where there is room for all of them. -/
def writtenAll (page : Page) (ws : List Write) : Page := ws.foldl written page

/-- Whether a write stays inside a page of some size. -/
def Inside (size : Nat) (w : Write) : Prop := w.offset + w.bytes.length ≤ size

theorem size_writtenAll {page : Page} {ws : List Write} (h : ∀ w ∈ ws, Inside page.size w) :
    (page.writtenAll ws).size = page.size := by
  induction ws generalizing page with
  | nil => rfl
  | cons w ws ih =>
    have hs := size_written (h w (by simp))
    rw [writtenAll, List.foldl_cons]
    rw [← writtenAll, ih fun v hv => by rw [hs]; exact h v (by simp [hv]), hs]

theorem writeAll_eq_ok_iff {page p : Page} {ws : List Write} :
    (page.writeAll ws : Checked ε Page) = .ok p ↔
      (∀ w ∈ ws, Inside page.size w) ∧ page.writtenAll ws = p := by
  induction ws generalizing page with
  | nil => simp [writeAll, writtenAll, pure, Except.pure]
  | cons w ws ih =>
    have hc : (page.writeAll (w :: ws) : Checked ε Page) = page.write w >>= fun q => q.writeAll ws := by
      rw [writeAll, List.foldlM_cons]
      rfl
    rw [hc, writtenAll, List.foldl_cons, ← writtenAll]
    constructor
    · intro h
      rcases hw : (page.write w : Checked ε Page) with e | q
      · rw [hw] at h
        cases h
      · rw [hw] at h
        obtain ⟨hi, rfl⟩ := write_eq_ok_iff.mp hw
        obtain ⟨ha, he⟩ := ih.mp h
        rw [size_written hi] at ha
        exact ⟨by simpa [Inside] using ⟨hi, ha⟩, he⟩
    · rintro ⟨ha, he⟩
      have hi : w.offset + w.bytes.length ≤ page.size := ha w (by simp)
      rw [write_eq hi]
      exact ih.mpr ⟨fun v hv => by rw [size_written hi]; exact ha v (by simp [hv]), he⟩

end Page

end RefStore
