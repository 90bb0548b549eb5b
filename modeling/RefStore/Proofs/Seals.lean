import Mathlib.Data.List.Forall2
import RefStore.Page.Header
import RefStore.Proofs.Pages

/-!
# Seals

Sealing a page changes its flags and its checksum field only. The rest of a page is its bare bytes.
Main statements: `Page.toList_seal`, the bytes of a sealed page are worked out from its bare bytes,
and `Page.verify_seal`, a sealed page passes.
-/

namespace RefStore.Page

variable {ε : Type}

/-- The bytes of a page with the checksum flag set and the checksum field blank. -/
def bare (page : Page) : List UInt8 :=
  page.toList.take 1 ++ ((page.toList.drop 1).take 1).map (· ||| PageHeader.checksumFlag) ++
    List.replicate 4 0 ++ page.toList.drop 6

/-- Pages that differ in their seals at most. -/
def Alike (p q : Page) : Prop := p.size = q.size ∧ p.bare = q.bare

theorem Alike.refl (p : Page) : p.Alike p := ⟨rfl, rfl⟩

/-- The page in the place of another one. -/
theorem Alike.getElem? {ps qs : List Page} (h : List.Forall₂ Alike ps qs) {i : Nat} {p : Page}
    (hp : ps[i]? = some p) : ∃ q, qs[i]? = some q ∧ p.Alike q := by
  obtain ⟨hi, rfl⟩ := List.getElem?_eq_some_iff.mp hp
  have hi' : i < qs.length := h.length_eq ▸ hi
  exact ⟨qs[i], List.getElem?_eq_getElem hi', h.get hi hi'⟩

/-- A page of six bytes or more, split at the fields of its seal. -/
theorem toList_fields {page : Page} (h : 6 ≤ page.size) :
    ∃ kind flags a b c d rest, page.toList = kind :: flags :: a :: b :: c :: d :: rest := by
  have hl : 6 ≤ page.toList.length := by
    rw [length_toList]
    omega
  generalize page.toList = bs at hl
  match bs, hl with
  | kind :: flags :: a :: b :: c :: d :: rest, _ => exact ⟨kind, flags, a, b, c, d, rest, rfl⟩

theorem bare_of_toList {page : Page} {kind flags a b c d : UInt8} {rest : List UInt8}
    (h : page.toList = kind :: flags :: a :: b :: c :: d :: rest) :
    page.bare = kind :: (flags ||| PageHeader.checksumFlag) :: 0 :: 0 :: 0 :: 0 :: rest := by
  simp [bare, h]

/-- Pages that are alike agree before their flags and after their checksums. -/
theorem bytesAt_alike {p q : Page} (hp : 6 ≤ p.size) (h : p.Alike q) {offset length : Nat}
    (ho : offset + length ≤ 1 ∨ 6 ≤ offset) : p.bytesAt offset length = q.bytesAt offset length := by
  obtain ⟨k, f, a, b, c, d, rest, hl⟩ := toList_fields hp
  obtain ⟨k', f', a', b', c', d', rest', hl'⟩ := toList_fields (h.1 ▸ hp)
  have hb := h.2
  rw [bare_of_toList hl, bare_of_toList hl'] at hb
  simp only [List.cons.injEq, true_and] at hb
  obtain ⟨rfl, -, rfl⟩ := hb
  rw [bytesAt, bytesAt, hl, hl']
  rcases ho with ho | ho
  · obtain ⟨rfl, hlen⟩ | rfl : (offset = 0 ∧ length ≤ 1) ∨ length = 0 := by omega
    · obtain rfl | rfl : length = 0 ∨ length = 1 := by omega
      · rfl
      · rfl
    · simp
  · obtain ⟨n, rfl⟩ : ∃ n, offset = n + 6 := ⟨offset - 6, by omega⟩
    rfl

/-- The page with its seal. -/
def withSeal (page : Page) : Page :=
  ⟨Block.ofList (page.bare.take 2 ++ Word.bytes (Checksum.crc32 page.bare) ++ page.bare.drop 6)⟩

theorem toList_seal (page : Page) :
    page.withSeal.toList =
      page.bare.take 2 ++ Word.bytes (Checksum.crc32 page.bare) ++ page.bare.drop 6 :=
  Block.toList_ofList _

theorem checksum_eq {page : Page} (h : 6 ≤ page.size) :
    (page.checksum : Checked ε UInt32) =
      .ok (Checksum.crc32 (page.toList.take 2 ++ List.replicate 4 0 ++ page.toList.drop 6)) := by
  rw [checksum, if_pos (by omega), Checksum.ofBlock_eq]
  have ht : Block.toList (page.bytes.extract 0 2 ++ Block.zeros 4 ++ page.bytes.extract 6 page.size) =
      page.toList.take 2 ++ List.replicate 4 0 ++ page.toList.drop 6 := by
    simp only [Block.toList_append, Block.toList_extract, List.drop_zero]
    congr 2
    rw [show page.size = (Block.toList page.bytes).length from rfl, List.take_length]
    rfl
  exact congrArg (fun bs => Except.ok (Checksum.crc32 bs)) ht

theorem word_flags {page : Page} (h : 6 ≤ page.size) {kind flags a b c d : UInt8}
    {rest : List UInt8} (hp : page.toList = kind :: flags :: a :: b :: c :: d :: rest) :
    (page.word UInt8 1 : Checked ε UInt8) = .ok flags := by
  rw [word_eq (by simp only [Word.width]; omega)]
  simp [bytesAt, hp, Word.width, Word.ofBytes, ofLittleEndian, Word.ofNat]

theorem word_checksum {page : Page} (h : 6 ≤ page.size) {kind flags a b c d : UInt8}
    {rest : List UInt8} (hp : page.toList = kind :: flags :: a :: b :: c :: d :: rest) :
    (page.word UInt32 2 : Checked ε UInt32) = .ok (Word.ofBytes [a, b, c, d]) := by
  rw [word_eq (by simp only [Word.width]; omega)]
  simp [bytesAt, hp, Word.width]

theorem sealed_eq {page : Page} (h : 6 ≤ page.size) :
    (page.sealed : Checked ε Page) = .ok page.withSeal := by
  obtain ⟨kind, flags, a, b, c, d, rest, hp⟩ := toList_fields h
  have hw : Inside page.size (Write.word 1 (flags ||| PageHeader.checksumFlag)) := by
    simp only [Inside, Write.word, Word.length_bytes, Word.width]
    omega
  have hflagged : (page.written (.word 1 (flags ||| PageHeader.checksumFlag))).toList =
      kind :: (flags ||| PageHeader.checksumFlag) :: a :: b :: c :: d :: rest := by
    simp [toList_written, hp, Write.word, Word.bytes, littleEndian, Word.width, Word.toNat]
  have hbare := bare_of_toList hp
  have hsize := size_written hw
  have hsum : ((page.written (.word 1 (flags ||| PageHeader.checksumFlag))).checksum : Checked ε UInt32) =
      .ok (Checksum.crc32 page.bare) := by
    rw [checksum_eq (by rw [hsize]; exact h), hflagged, hbare]
    rfl
  have hlast : (page.written (.word 1 (flags ||| PageHeader.checksumFlag))).written
      (.word 2 (Checksum.crc32 page.bare)) = page.withSeal := by
    apply ext_toList
    rw [toList_written, hflagged, toList_seal, hbare]
    simp [Write.word, Word.width]
  have hw' : Inside (page.written (.word 1 (flags ||| PageHeader.checksumFlag))).size
      (Write.word 2 (Checksum.crc32 page.bare)) := by
    rw [Inside, hsize]
    simp only [Write.word, Word.length_bytes, Word.width]
    omega
  simp only [«sealed», word_flags h hp, bind, Except.bind, write_eq hw, hsum, write_eq hw', hlast]

/-- Only a page with room for a seal can be sealed. -/
theorem le_of_sealed {page q : Page} (h : (page.sealed : Checked ε Page) = .ok q) : 6 ≤ page.size := by
  simp only [«sealed», bind, Except.bind] at h
  split at h
  · cases h
  · split at h
    · cases h
    · next flagged hflagged =>
      obtain ⟨hin, rfl⟩ := write_eq_ok_iff.mp hflagged
      rw [checksum, size_written hin] at h
      by_contra hlt
      rw [if_neg hlt] at h
      cases h

theorem length_bare {page : Page} (h : 6 ≤ page.size) : page.bare.length = page.size := by
  obtain ⟨kind, flags, a, b, c, d, rest, hp⟩ := toList_fields h
  rw [← length_toList, bare, hp]
  simp

@[simp] theorem size_withSeal {page : Page} (h : 6 ≤ page.size) : page.withSeal.size = page.size := by
  rw [← length_toList, toList_seal]
  have hl := length_bare h
  simp only [List.length_append, List.length_take, List.length_drop, Word.length_bytes, Word.width, hl]
  omega

/-- The bytes of a page before it is sealed and after. The flags and the seal stand behind the kind. -/
theorem exists_sealed {page : Page} (h : 6 ≤ page.size) : ∃ kind flags s₀ s₁ s₂ s₃ rest,
    page.bare = kind :: (flags ||| PageHeader.checksumFlag) :: 0 :: 0 :: 0 :: 0 :: rest ∧
      Word.bytes (Checksum.crc32 page.bare) = [s₀, s₁, s₂, s₃] ∧
      page.withSeal.toList = kind :: (flags ||| PageHeader.checksumFlag) :: s₀ :: s₁ :: s₂ :: s₃ :: rest := by
  obtain ⟨kind, flags, a, b, c, d, rest, hp⟩ := toList_fields h
  have hbare := bare_of_toList hp
  refine ⟨kind, flags, _, _, _, _, rest, hbare, rfl, ?_⟩
  rw [toList_seal, hbare]
  rfl

theorem bare_withSeal {page : Page} (h : 6 ≤ page.size) : page.withSeal.bare = page.bare := by
  obtain ⟨kind, flags, s₀, s₁, s₂, s₃, rest, hbare, -, hsealed⟩ := exists_sealed h
  have hidem : flags ||| PageHeader.checksumFlag ||| PageHeader.checksumFlag =
      flags ||| PageHeader.checksumFlag := by
    rw [UInt8.or_assoc, UInt8.or_self]
  rw [bare_of_toList hsealed, hbare, hidem]

/-- A page and its sealed form are alike. -/
theorem alike_withSeal {page : Page} (h : 6 ≤ page.size) : page.Alike page.withSeal :=
  ⟨(size_withSeal h).symm, (bare_withSeal h).symm⟩

theorem Alike.withSeal_eq {p q : Page} (h : p.Alike q) : p.withSeal = q.withSeal := by
  rw [withSeal, withSeal, h.2]

theorem verify_seal {page : Page} (h : 6 ≤ page.size) : page.withSeal.verify = .ok () := by
  obtain ⟨kind, flags, s₀, s₁, s₂, s₃, rest, hbare, hs, hsealed⟩ := exists_sealed h
  have hsize : 6 ≤ page.withSeal.size := by
    rw [size_withSeal h]
    exact h
  have hsum : (page.withSeal.checksum : Checked PageError UInt32) = .ok (Checksum.crc32 page.bare) := by
    rw [checksum_eq hsize, hsealed, hbare]
    rfl
  have hfield : (page.withSeal.word UInt32 2 : Checked PageError UInt32) =
      .ok (Checksum.crc32 page.bare) := by
    rw [word_checksum hsize hsealed, ← hs, Word.ofBytes_bytes]
  simp only [verify, word_flags hsize hsealed, bind, Except.bind, hfield, hsum, if_true]
  split <;> rfl

/-- A page of zeros was never sealed and passes. -/
theorem verify_zero {n : Nat} (h : 6 ≤ n) : (zero n).verify = .ok () := by
  have hsize : 6 ≤ (zero n).size := by
    rw [size_zero]
    exact h
  have hp : (zero n).toList = 0 :: 0 :: 0 :: 0 :: 0 :: 0 :: List.replicate (n - 6) 0 := by
    rw [toList_zero]
    obtain ⟨m, rfl⟩ : ∃ m, n = m + 6 := ⟨n - 6, by omega⟩
    rfl
  simp only [verify, word_flags hsize hp, bind, Except.bind]
  rfl

end RefStore.Page
