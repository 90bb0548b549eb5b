import RefStore.Page.Overlay
import RefStore.Proofs.Pages

/-!
# Overlays and writing in place

The patches of an overlay stand in order and apart, so at most one of them holds a byte. Main
statement: `Overlay.write_eq_ok_iff`, a write to an overlay succeeds when it does on the page the
overlay shows, and then both show the same page.
-/

namespace RefStore

namespace Patch

/-- The byte a patch holds for a place of the page. -/
def byteAt? (p : Patch) (i : Nat) : Option UInt8 :=
  if p.offset ≤ i then (Block.toList p.bytes)[i - p.offset]? else none

def lookup? (ps : List Patch) (i : Nat) : Option UInt8 := ps.findSome? (·.byteAt? i)

/-- Patches in order, none empty, with a gap after each. -/
def Apart : List Patch → Prop
  | [] => True
  | p :: ps => p.offset < p.stop ∧ (∀ q ∈ ps, p.stop < q.offset) ∧ Apart ps

theorem byteAt?_eq_none {p : Patch} {i : Nat} (h : i < p.offset ∨ p.stop ≤ i) :
    p.byteAt? i = none := by
  rw [byteAt?]
  split
  · next hp =>
    rw [List.getElem?_eq_none_iff, Block.length_toList]
    rw [stop] at h
    omega
  · rfl

theorem lookup?_eq_none {ps : List Patch} {i : Nat} (h : ∀ q ∈ ps, i < q.offset) :
    lookup? ps i = none := by
  rw [lookup?, List.findSome?_eq_none_iff]
  exact fun q hq => byteAt?_eq_none (.inl (h q hq))

theorem lookup?_cons (p : Patch) (ps : List Patch) (i : Nat) :
    lookup? (p :: ps) i = (p.byteAt? i).or (lookup? ps i) := by
  rw [lookup?, List.findSome?_cons]
  cases p.byteAt? i <;> rfl

theorem lookup?_cons_of_apart {p : Patch} {ps : List Patch} (h : ∀ q ∈ ps, p.stop < q.offset)
    (i : Nat) : lookup? (p :: ps) i = (lookup? ps i).or (p.byteAt? i) := by
  rw [lookup?_cons]
  by_cases hi : i < p.stop
  · rw [lookup?_eq_none fun q hq => Nat.lt_trans hi (h q hq)]
    simp
  · rw [byteAt?_eq_none (.inr (by omega))]
    simp

/-- What two touching patches hold together, the first one on top. -/
theorem byteAt?_join {p q : Patch} (hpq : p.offset ≤ q.stop) (hqp : q.offset ≤ p.stop) (i : Nat) :
    (p.join q).byteAt? i = (p.byteAt? i).or (q.byteAt? i) := by
  have hp : p.stop = p.offset + p.bytes.size := rfl
  have hq : q.stop = q.offset + q.bytes.size := rfl
  have h₁ : ((Block.toList q.bytes).take (p.offset - q.offset)).length = p.offset - q.offset := by
    rw [List.length_take, Block.length_toList]
    omega
  have h₂ : (Block.toList q.bytes).take q.bytes.size = Block.toList q.bytes := by
    rw [← Block.length_toList, List.take_length]
  simp only [byteAt?, join, Block.toList_append, Block.toList_extract, List.drop_zero, h₂]
  by_cases hi : min p.offset q.offset ≤ i
  · rw [if_pos hi, List.append_assoc, List.getElem?_append, h₁, List.getElem?_append,
      Block.length_toList]
    by_cases hlow : i - min p.offset q.offset < p.offset - q.offset
    · rw [if_pos hlow, if_neg (by omega), if_pos (by omega), Option.none_or,
        List.getElem?_take_of_lt hlow]
      congr 1
      omega
    · have hle : p.offset ≤ i := by omega
      rw [if_neg hlow, if_pos hle]
      by_cases hin : i < p.stop
      · have hlt : i - p.offset < (Block.toList p.bytes).length := by
          rw [Block.length_toList]
          omega
        rw [if_pos (by omega), show i - min p.offset q.offset - (p.offset - q.offset) = i - p.offset by
          omega, List.getElem?_eq_getElem hlt, Option.some_or]
      · have hge : (Block.toList p.bytes).length ≤ i - p.offset := by
          rw [Block.length_toList]
          omega
        rw [if_neg (by omega), List.getElem?_eq_none hge, Option.none_or, List.getElem?_drop,
          if_pos (by omega)]
        congr 1
        omega
  · rw [if_neg hi, if_neg (by omega), if_neg (by omega)]
    rfl

theorem lookup?_insert (p : Patch) (qs : List Patch) (h : Apart qs) (i : Nat) :
    lookup? (insert p qs) i = (p.byteAt? i).or (lookup? qs i) := by
  induction qs generalizing p with
  | nil => simp [insert, lookup?_cons]
  | cons q qs ih =>
    obtain ⟨-, hq, hqs⟩ := h
    rw [insert]
    split
    · next hlt =>
      rw [lookup?_cons, ih p hqs, lookup?_cons]
      by_cases hi : i < p.offset
      · rw [byteAt?_eq_none (p := p) (.inl hi)]
        simp
      · rw [byteAt?_eq_none (p := q) (.inr (by omega))]
        simp
    · next hge =>
      split
      · rw [lookup?_cons]
      · next hle =>
        rw [ih _ hqs, byteAt?_join (by omega) (by omega), lookup?_cons, Option.or_assoc]

theorem stop_join (p q : Patch) (hpq : p.offset ≤ q.stop) (hqp : q.offset ≤ p.stop) :
    (p.join q).stop = max p.stop q.stop := by
  have hp : p.stop = p.offset + p.bytes.size := rfl
  have hq : q.stop = q.offset + q.bytes.size := rfl
  simp only [join, stop, ByteArray.size_append, ByteArray.size_extract] at *
  omega

theorem mem_insert {p r : Patch} {qs : List Patch} (h : r ∈ insert p qs) (low : Nat)
    (hp : low < p.offset) (hq : ∀ q ∈ qs, low < q.offset) : low < r.offset := by
  induction qs generalizing p with
  | nil =>
    rw [insert, List.mem_singleton] at h
    exact h ▸ hp
  | cons q qs ih =>
    have hqo : low < q.offset := hq q (by simp)
    have hqs : ∀ q ∈ qs, low < q.offset := fun q h => hq q (by simp [h])
    rw [insert] at h
    split at h
    · rcases List.mem_cons.mp h with rfl | h
      · exact hqo
      · exact ih h hp hqs
    · split at h
      · rcases List.mem_cons.mp h with rfl | h
        · exact hp
        · exact hq r h
      · exact ih h (by simp only [join]; omega) hqs

theorem apart_insert {p : Patch} {qs : List Patch} (hp : p.offset < p.stop) (h : Apart qs) :
    Apart (insert p qs) := by
  induction qs generalizing p with
  | nil => simp [insert, Apart, hp]
  | cons q qs ih =>
    obtain ⟨hqn, hq, hqs⟩ := h
    rw [insert]
    split
    · next hlt => exact ⟨hqn, fun r hr => mem_insert hr q.stop hlt hq, ih hp hqs⟩
    · next hge =>
      split
      · next hlt =>
        refine ⟨hp, fun r hr => ?_, hqn, hq, hqs⟩
        rcases List.mem_cons.mp hr with rfl | hr
        · exact hlt
        · exact Nat.lt_trans (Nat.lt_trans hlt hqn) (hq r hr)
      · next hle =>
        refine ih ?_ hqs
        rw [stop_join p q (by omega) (by omega)]
        simp only [join]
        omega

theorem stop_insert_le {p r : Patch} {qs : List Patch} (high : Nat) (h : r ∈ insert p qs)
    (hp : p.stop ≤ high) (hq : ∀ q ∈ qs, q.stop ≤ high) : r.stop ≤ high := by
  induction qs generalizing p with
  | nil =>
    rw [insert, List.mem_singleton] at h
    exact h ▸ hp
  | cons q qs ih =>
    have hqo : q.stop ≤ high := hq q (by simp)
    have hqs : ∀ q ∈ qs, q.stop ≤ high := fun q h => hq q (by simp [h])
    rw [insert] at h
    split at h
    · rcases List.mem_cons.mp h with rfl | h
      · exact hqo
      · exact ih h hp hqs
    · split at h
      · rcases List.mem_cons.mp h with rfl | h
        · exact hp
        · exact hq r h
      · exact ih h (by rw [stop_join p q (by omega) (by omega)]; omega) hqs

/-- The bytes of a block after all patches were written into it. -/
theorem getElem?_foldl_splice {ps : List Patch} (h : Apart ps) (block : ByteArray)
    (hb : ∀ p ∈ ps, p.stop ≤ block.size) (i : Nat) :
    (Block.toList (ps.foldl (fun b p => Block.splice b p.offset p.bytes) block))[i]? =
      (lookup? ps i).or (Block.toList block)[i]? := by
  induction ps generalizing block with
  | nil => rfl
  | cons p ps ih =>
    obtain ⟨-, hp, hps⟩ := h
    have hs : p.offset + p.bytes.size ≤ block.size := hb p (by simp)
    rw [List.foldl_cons, ih hps _ fun q hq => by rw [Block.size_splice _ _ _ hs]; exact hb q (by simp [hq]),
      Block.getElem?_splice _ _ _ hs, lookup?_cons_of_apart hp, Option.or_assoc]
    congr 1
    rw [byteAt?]
    by_cases hlo : p.offset ≤ i
    · rw [if_pos hlo]
      by_cases hhi : i < p.offset + p.bytes.size
      · have hlt : i - p.offset < (Block.toList p.bytes).length := by
          rw [Block.length_toList]
          omega
        rw [if_pos ⟨hlo, hhi⟩, List.getElem?_eq_getElem hlt, Option.some_or]
      · have hn : (Block.toList p.bytes)[i - p.offset]? = none :=
          List.getElem?_eq_none (by rw [Block.length_toList]; omega)
        rw [if_neg (by omega), hn, Option.none_or]
    · rw [if_neg (by omega), if_neg hlo, Option.none_or]

theorem size_foldl_splice {ps : List Patch} (block : ByteArray)
    (hb : ∀ p ∈ ps, p.stop ≤ block.size) :
    (ps.foldl (fun b p => Block.splice b p.offset p.bytes) block).size = block.size := by
  induction ps generalizing block with
  | nil => rfl
  | cons p ps ih =>
    have hs := Block.size_splice block p.offset p.bytes (hb p (by simp))
    rw [List.foldl_cons, ih _ fun q hq => by rw [hs]; exact hb q (by simp [hq]), hs]

end Patch

namespace Overlay

variable {ε : Type}

/-- The patches stand in order, apart and inside the page. -/
structure Tidy (o : Overlay) : Prop where
  apart : Patch.Apart o.patches
  inside : ∀ p ∈ o.patches, p.stop ≤ o.base.size

theorem tidy_on (base : Page) : (on base).Tidy := ⟨trivial, by simp [on]⟩

@[simp] theorem page_on (base : Page) : (on base).page = base := rfl

theorem size_page {o : Overlay} (h : o.Tidy) : o.page.size = o.size :=
  Patch.size_foldl_splice _ h.inside

theorem getElem?_page {o : Overlay} (h : o.Tidy) (i : Nat) :
    o.page.toList[i]? = (Patch.lookup? o.patches i).or o.base.toList[i]? :=
  Patch.getElem?_foldl_splice h.apart _ h.inside i

/-- The overlay with one more write. -/
def written (o : Overlay) (w : Write) : Overlay :=
  if w.bytes.isEmpty then o
  else { o with patches := Patch.insert ⟨w.offset, Block.ofList w.bytes⟩ o.patches }

@[simp] theorem base_written (o : Overlay) (w : Write) : (o.written w).base = o.base := by
  rw [written]
  split <;> rfl

theorem tidy_written {o : Overlay} (h : o.Tidy) {w : Write} (hw : Page.Inside o.size w) :
    (o.written w).Tidy := by
  rw [written]
  split
  · exact h
  · next hne =>
    have hpos : 0 < w.bytes.length := by
      rw [List.length_pos_iff]
      simpa using hne
    refine ⟨Patch.apart_insert ?_ h.apart, fun p hp => ?_⟩
    · simp only [Patch.stop, Block.size_ofList]
      omega
    · exact Patch.stop_insert_le _ hp (by simpa [Patch.stop, Page.Inside, size] using hw) h.inside

theorem page_written {o : Overlay} (h : o.Tidy) {w : Write} (hw : Page.Inside o.size w) :
    (o.written w).page = o.page.written w := by
  have hp : w.offset + w.bytes.length ≤ o.page.size := by rw [size_page h]; exact hw
  apply Page.ext_toList
  apply List.ext_getElem?
  intro i
  rw [getElem?_page (tidy_written h hw), base_written, Page.getElem?_written hp, getElem?_page h,
    written]
  by_cases he : w.bytes = []
  · rw [if_pos (by simp [he]), if_neg (by simp [he])]
  · rw [if_neg (by simpa using he), Patch.lookup?_insert _ _ h.apart, Option.or_assoc, Patch.byteAt?]
    simp only [Block.toList_ofList]
    by_cases hlo : w.offset ≤ i
    · by_cases hhi : i < w.offset + w.bytes.length
      · rw [if_pos hlo, if_pos ⟨hlo, hhi⟩, List.getElem?_eq_getElem (by omega), Option.some_or]
      · rw [if_pos hlo, if_neg (by omega), List.getElem?_eq_none (by omega), Option.none_or]
    · rw [if_neg hlo, if_neg (by omega), Option.none_or]

theorem write_eq_ok_iff {o p : Overlay} {w : Write} :
    (o.write w : Checked ε Overlay) = .ok p ↔ Page.Inside o.size w ∧ o.written w = p := by
  rw [write, Page.Inside]
  split
  · next h => simp [h, written]
  · next h => simp [h, halt, throw, throwThe, MonadExceptOf.throw]

def writtenAll (o : Overlay) (ws : List Write) : Overlay := ws.foldl written o

@[simp] theorem base_writtenAll (o : Overlay) (ws : List Write) :
    (o.writtenAll ws).base = o.base := by
  induction ws generalizing o with
  | nil => rfl
  | cons w ws ih => exact (ih (o.written w)).trans (base_written o w)

theorem tidy_writtenAll {o : Overlay} (h : o.Tidy) {ws : List Write}
    (hw : ∀ w ∈ ws, Page.Inside o.size w) : (o.writtenAll ws).Tidy := by
  induction ws generalizing o with
  | nil => exact h
  | cons w ws ih =>
    refine ih (tidy_written h (hw w (by simp))) fun v hv => ?_
    rw [size, base_written]
    exact hw v (by simp [hv])

theorem page_writtenAll {o : Overlay} (h : o.Tidy) {ws : List Write}
    (hw : ∀ w ∈ ws, Page.Inside o.size w) : (o.writtenAll ws).page = o.page.writtenAll ws := by
  induction ws generalizing o with
  | nil => rfl
  | cons w ws ih =>
    have hw₁ := hw w (by simp)
    have h₁ := ih (tidy_written h hw₁) fun v hv => by
      rw [size, base_written]
      exact hw v (by simp [hv])
    rw [page_written h hw₁] at h₁
    exact h₁

theorem writeAll_eq_ok_iff {o p : Overlay} {ws : List Write} :
    (o.writeAll ws : Checked ε Overlay) = .ok p ↔
      (∀ w ∈ ws, Page.Inside o.size w) ∧ o.writtenAll ws = p := by
  induction ws generalizing o with
  | nil => simp [writeAll, writtenAll, pure, Except.pure]
  | cons w ws ih =>
    have hc : (o.writeAll (w :: ws) : Checked ε Overlay) = o.write w >>= fun q => q.writeAll ws := by
      rw [writeAll, List.foldlM_cons]
      rfl
    have hs : (o.written w).size = o.size := by rw [size, base_written]; rfl
    rw [hc, writtenAll, List.foldl_cons, ← writtenAll]
    constructor
    · intro h
      rcases hw : (o.write w : Checked ε Overlay) with e | q
      · rw [hw] at h
        cases h
      · rw [hw] at h
        obtain ⟨hi, rfl⟩ := write_eq_ok_iff.mp hw
        obtain ⟨ha, he⟩ := ih.mp h
        rw [hs] at ha
        exact ⟨by simpa using ⟨hi, ha⟩, he⟩
    · rintro ⟨ha, he⟩
      rw [write_eq_ok_iff.mpr ⟨ha w (by simp), rfl⟩]
      exact ih.mpr ⟨fun v hv => by rw [hs]; exact ha v (by simp [hv]), he⟩

end Overlay

end RefStore
