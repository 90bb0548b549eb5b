import RefStore.Proofs.LogFormat
import RefStore.Proofs.Seals

/-!
# Checksums catch the change of a byte

Each step of the CRC-32 is injective in the sum so far and in the byte, so two lists of bytes that
differ in one place have different sums. A sealed page or a record of the log with one byte changed is
therefore refused. Main statement: `Checksum.catches_changes`.
-/

namespace RefStore

/-- Lists of bytes that differ in one place and in no other. -/
def DiffersAt (i : Nat) (xs ys : List UInt8) : Prop :=
  xs.length = ys.length ∧ ∀ j, xs[j]? = ys[j]? ↔ j ≠ i

namespace DiffersAt

variable {i n : Nat} {xs ys : List UInt8}

theorem lt_length (h : DiffersAt i xs ys) : i < xs.length := by
  by_contra hge
  apply (h.2 i).mp _ rfl
  rw [List.getElem?_eq_none (by omega), List.getElem?_eq_none (by rw [← h.1]; omega)]

theorem take_eq (h : DiffersAt i xs ys) (hn : n ≤ i) : xs.take n = ys.take n := by
  apply List.ext_getElem?
  intro j
  rw [List.getElem?_take, List.getElem?_take]
  split
  · exact (h.2 j).mpr (by omega)
  · rfl

theorem drop_eq (h : DiffersAt i xs ys) (hn : i < n) : xs.drop n = ys.drop n := by
  apply List.ext_getElem?
  intro j
  rw [List.getElem?_drop, List.getElem?_drop]
  exact (h.2 _).mpr (by omega)

theorem take (h : DiffersAt i xs ys) (hn : i < n) : DiffersAt i (xs.take n) (ys.take n) := by
  constructor
  · rw [List.length_take, List.length_take, h.1]
  · intro j
    rw [List.getElem?_take, List.getElem?_take]
    split
    · exact h.2 j
    · simp only [true_iff]
      omega

theorem drop (h : DiffersAt i xs ys) (hn : n ≤ i) : DiffersAt (i - n) (xs.drop n) (ys.drop n) := by
  constructor
  · rw [List.length_drop, List.length_drop, h.1]
  · intro j
    rw [List.getElem?_drop, List.getElem?_drop, h.2]
    omega

/-- What stands before and after the place is the same on both sides. -/
theorem exists_split (h : DiffersAt i xs ys) :
    ∃ front x y back, xs = front ++ x :: back ∧ ys = front ++ y :: back ∧ x ≠ y := by
  have hx := h.lt_length
  have hy : i < ys.length := h.1 ▸ hx
  refine ⟨xs.take i, xs[i], ys[i], xs.drop (i + 1), ?_, ?_, ?_⟩
  · rw [← List.drop_eq_getElem_cons hx, List.take_append_drop]
  · rw [h.take_eq (Nat.le_refl i), h.drop_eq (Nat.lt_succ_self i), ← List.drop_eq_getElem_cons hy,
      List.take_append_drop]
  · intro he
    apply (h.2 i).mp _ rfl
    rw [List.getElem?_eq_getElem hx, List.getElem?_eq_getElem hy, he]

theorem set {y : UInt8} (hi : i < xs.length) (hy : xs[i] ≠ y) : DiffersAt i xs (xs.set i y) := by
  constructor
  · rw [List.length_set]
  · intro j
    rw [List.getElem?_set]
    split
    · next heq =>
      subst heq
      rw [List.getElem?_eq_getElem hi, Option.some.injEq]
      simp [hy]
    · next hne =>
      simp only [true_iff]
      exact Ne.symm hne

theorem ne (h : DiffersAt i xs ys) : xs ≠ ys := by
  rintro rfl
  exact (h.2 i).mp rfl rfl

end DiffersAt

/-- Words of a width are the same only if their bytes are. -/
theorem Word.ofBytes_inj {α : Type} [Word α] {xs ys : List UInt8} (hx : xs.length = width α)
    (hy : ys.length = width α) (h : (ofBytes xs : α) = ofBytes ys) : xs = ys := by
  rw [← bytes_ofBytes xs hx, h, bytes_ofBytes ys hy]

/-! ## The sum -/

namespace Checksum

theorem low_eq_one_iff (crc : UInt32) : crc &&& 1 = 1 ↔ crc.toBitVec.getLsbD 0 = true := by
  rw [← UInt32.toBitVec_inj, UInt32.toBitVec_and]
  constructor
  · intro h
    have hbit := congrArg (fun b => b.getLsbD 0) h
    simpa using hbit
  · intro h
    apply BitVec.eq_of_getLsbD_eq
    intro i _
    by_cases h0 : i = 0
    · subst h0
      simp [h]
    · simp [BitVec.getLsbD_one, h0]

/-- A bit after the shift is the next bit, turned where the polynomial has one if the low bit is set. -/
theorem getLsbD_shiftBit (crc : UInt32) (i : Nat) :
    (shiftBit crc).toBitVec.getLsbD i =
      (crc.toBitVec.getLsbD (i + 1) ^^ (crc.toBitVec.getLsbD 0 && polynomial.toBitVec.getLsbD i)) := by
  rw [shiftBit]
  split
  · next h =>
    rw [low_eq_one_iff] at h
    simp [h, Nat.add_comm]
  · next h =>
    rw [low_eq_one_iff, Bool.not_eq_true] at h
    rw [h, Bool.false_and, Bool.xor_false]
    simp [Nat.add_comm]

/-- The top bit of the polynomial tells the low bit that was shifted out. -/
theorem shiftBit_injective {a b : UInt32} (h : shiftBit a = shiftBit b) : a = b := by
  have hbit : ∀ i, (a.toBitVec.getLsbD (i + 1) ^^ (a.toBitVec.getLsbD 0 && polynomial.toBitVec.getLsbD i)) =
      (b.toBitVec.getLsbD (i + 1) ^^ (b.toBitVec.getLsbD 0 && polynomial.toBitVec.getLsbD i)) := by
    intro i
    rw [← getLsbD_shiftBit, ← getLsbD_shiftBit, h]
  have htop : polynomial.toBitVec.getLsbD 31 = true := by decide
  have hlow : a.toBitVec.getLsbD 0 = b.toBitVec.getLsbD 0 := by
    have h31 := hbit 31
    rw [BitVec.getLsbD_of_ge a.toBitVec 32 (Nat.le_refl 32), BitVec.getLsbD_of_ge b.toBitVec 32 (Nat.le_refl 32),
      htop] at h31
    simpa using h31
  apply UInt32.toBitVec_inj.mp
  apply BitVec.eq_of_getLsbD_eq
  intro i _
  cases i with
  | zero => exact hlow
  | succ i =>
    have hnext := hbit i
    rw [hlow] at hnext
    exact Bool.xor_left_inj.mp hnext

theorem shiftByte_injective {a b : UInt32} (h : shiftByte a = shiftByte b) : a = b := by
  rw [shiftByte, shiftByte] at h
  iterate 8 replace h := shiftBit_injective h
  exact h

theorem feed_left {a b : UInt32} {x : UInt8} (h : feed a x = feed b x) : a = b :=
  (UInt32.xor_left_inj _).mp (shiftByte_injective h)

theorem feed_right {a : UInt32} {x y : UInt8} (h : feed a x = feed a y) : x = y :=
  UInt8.toUInt32_inj.mp ((UInt32.xor_right_inj _).mp (shiftByte_injective h))

theorem foldl_feed_injective {a b : UInt32} {bs : List UInt8} (h : bs.foldl feed a = bs.foldl feed b) : a = b := by
  induction bs generalizing a b with
  | nil => exact h
  | cons x bs ih => exact feed_left (ih h)

/-- One byte changed changes the sum. -/
theorem crc32_ne {i : Nat} {xs ys : List UInt8} (h : DiffersAt i xs ys) : crc32 xs ≠ crc32 ys := by
  intro hsum
  obtain ⟨front, x, y, back, rfl, rfl, hne⟩ := h.exists_split
  apply hne
  rw [crc32, crc32, UInt32.xor_left_inj, List.foldl_append, List.foldl_append, List.foldl_cons,
    List.foldl_cons] at hsum
  exact feed_right (foldl_feed_injective hsum)

end Checksum

/-! ## Sealed pages -/

namespace Page

variable {page q r : Page} {i : Nat}

/-- Whether the flags of a page say that it is sealed. -/
def Flagged (page : Page) : Prop := page.toList.getD 1 0 &&& PageHeader.checksumFlag ≠ 0

instance : DecidablePred Flagged := fun page =>
  inferInstanceAs (Decidable (page.toList.getD 1 0 &&& PageHeader.checksumFlag ≠ 0))

/-- The bytes that a seal is about, the checksum field as zero. -/
def covered (page : Page) : List UInt8 :=
  page.toList.take 2 ++ List.replicate 4 0 ++ page.toList.drop 6

/-- The checksum field. -/
def field (page : Page) : UInt32 := Word.ofBytes (page.bytesAt 2 4)

theorem verify_of_flagged (h : 6 ≤ page.size) (hf : page.Flagged) :
    page.verify = if page.field = Checksum.crc32 page.covered then .ok () else
      refuse (.checksumMismatch page.field (Checksum.crc32 page.covered)) := by
  obtain ⟨kind, flags, a, b, c, d, rest, hp⟩ := toList_fields h
  have hset : flags &&& PageHeader.checksumFlag ≠ 0 := by simpa [Flagged, hp] using hf
  have hfield : page.field = Word.ofBytes [a, b, c, d] := by simp [field, bytesAt, hp]
  simp only [verify, word_flags h hp, bind, Except.bind, hset, if_false, word_checksum h hp,
    checksum_eq h, hfield]
  rfl

theorem verify_of_not_flagged (h : 6 ≤ page.size) (hf : ¬ page.Flagged) : page.verify = .ok () := by
  obtain ⟨kind, flags, a, b, c, d, rest, hp⟩ := toList_fields h
  have hclear : flags &&& PageHeader.checksumFlag = 0 := by simpa [Flagged, hp] using hf
  simp only [verify, word_flags h hp, bind, Except.bind, hclear, if_true]
  rfl

theorem flagged_withSeal (h : 6 ≤ page.size) : page.withSeal.Flagged := by
  obtain ⟨kind, flags, a, b, c, d, rest, -, -, hsealed⟩ := exists_sealed h
  have hflags : page.withSeal.toList.getD 1 0 = flags ||| PageHeader.checksumFlag := by rw [hsealed]; rfl
  rw [Flagged, hflags]
  intro hclear
  have hone : PageHeader.checksumFlag.toBitVec.getLsbD 0 = true := by decide
  have hbit : ((flags.toBitVec ||| PageHeader.checksumFlag.toBitVec) &&&
      PageHeader.checksumFlag.toBitVec).getLsbD 0 = false := by
    rw [← UInt8.toBitVec_or, ← UInt8.toBitVec_and, hclear]
    rfl
  rw [BitVec.getLsbD_and, BitVec.getLsbD_or, hone, Bool.or_true, Bool.true_and] at hbit
  cases hbit

theorem flagged_of_differs (hf : q.Flagged) (h : DiffersAt i q.toList r.toList) (hi : i ≠ 1) : r.Flagged := by
  rw [Flagged, List.getD_eq_getElem?_getD, ← (h.2 1).mpr hi.symm, ← List.getD_eq_getElem?_getD]
  exact hf

theorem getElem?_covered (h : 6 ≤ page.size) (j : Nat) :
    page.covered[j]? = if 2 ≤ j ∧ j < 6 then some 0 else page.toList[j]? := by
  obtain ⟨kind, flags, a, b, c, d, rest, hp⟩ := toList_fields h
  have hcovered : page.covered = kind :: flags :: 0 :: 0 :: 0 :: 0 :: rest := by simp [covered, hp]
  rw [hcovered, hp]
  match j with
  | 0 | 1 | 2 | 3 | 4 | 5 => rfl
  | j + 6 => rw [if_neg (by omega)]; rfl

/-- The checksum field is left out of the covered bytes. -/
theorem covered_eq (hq : 6 ≤ q.size) (hr : 6 ≤ r.size) (h : DiffersAt i q.toList r.toList)
    (hi : 2 ≤ i ∧ i < 6) : q.covered = r.covered := by
  apply List.ext_getElem?
  intro j
  rw [getElem?_covered hq, getElem?_covered hr]
  split
  · rfl
  · exact (h.2 j).mpr (by omega)

/-- All other bytes are covered. -/
theorem covered_differs (hq : 6 ≤ q.size) (hr : 6 ≤ r.size) (h : DiffersAt i q.toList r.toList)
    (hi : ¬ (2 ≤ i ∧ i < 6)) : DiffersAt i q.covered r.covered := by
  constructor
  · have hlen := h.1
    simp only [covered, List.length_append, List.length_take, List.length_drop, hlen]
  · intro j
    rw [getElem?_covered hq, getElem?_covered hr]
    split
    · simp only [true_iff]
      omega
    · exact h.2 j

/-- A sealed page with one byte changed is refused, unless the change says that it is not sealed. -/
theorem verify_changed (hq : 6 ≤ q.size) (hf : q.Flagged) (hv : q.verify = .ok ())
    (h : DiffersAt i q.toList r.toList) (hr : r.Flagged) :
    ∃ expected actual, r.verify = .error (.error (.checksumMismatch expected actual)) := by
  have hsize : 6 ≤ r.size := by
    rw [← length_toList, ← h.1]
    exact hq
  have hsum : q.field = Checksum.crc32 q.covered := by
    rw [verify_of_flagged hq hf] at hv
    by_contra hne
    rw [if_neg hne] at hv
    cases hv
  refine ⟨r.field, Checksum.crc32 r.covered, ?_⟩
  rw [verify_of_flagged hsize hr, if_neg]
  · rfl
  by_cases hi : 2 ≤ i ∧ i < 6
  · rw [← covered_eq hq hsize h hi, ← hsum]
    intro heq
    have hbytes : r.bytesAt 2 4 = q.bytesAt 2 4 :=
      Word.ofBytes_inj (length_bytesAt hsize) (length_bytesAt hq) heq
    exact ((h.drop hi.1).take (by omega)).ne hbytes.symm
  · have hbytes : q.bytesAt 2 4 = r.bytesAt 2 4 := by
      rcases Nat.lt_or_ge i 2 with hlt | hge
      · rw [bytesAt, bytesAt, h.drop_eq hlt]
      · exact (h.drop hge).take_eq (by omega)
    rw [field, ← hbytes, ← field, hsum]
    exact Checksum.crc32_ne (covered_differs hq hsize h hi)

end Page

/-! ## Records of the log -/

namespace LogRecord

variable {r : LogRecord} {bs front sum : List UInt8} {i : Nat}

/-- Bytes of the length they tell, with a sum at the end that is not theirs. -/
theorem decode_mismatch (hlength : (Word.ofBytes (front.take 4) : UInt32).toNat = front.length + checksumSize)
    (hroom : headerSize ≤ front.length) (hsize : sum.length = checksumSize)
    (hsum : (Word.ofBytes sum : UInt32) ≠ Checksum.crc32 front) (rest : List UInt8) :
    decode (front ++ sum ++ rest) = .error (.checksumMismatch (Word.ofBytes sum) (Checksum.crc32 front)) := by
  have hheader : headerSize = 13 := rfl
  have hfour : (front ++ (sum ++ rest)).take 4 = front.take 4 := List.take_append_of_le_length (by omega)
  rw [decode, List.append_assoc, hfour, hlength, Nat.add_sub_cancel, List.take_left, List.drop_left,
    List.take_left' hsize]
  dsimp only
  rw [if_neg, if_pos hsum]
  rw [List.length_append, List.length_append]
  omega

/-- A record with one byte after its length changed is refused. -/
theorem decode_changed (hr : r.encode.length < 4294967296) (h : DiffersAt i r.encode bs) (hi : 4 ≤ i)
    (rest : List UInt8) : ∃ expected actual, decode (bs ++ rest) = .error (.checksumMismatch expected actual) := by
  have hbody := length_body r
  have hencode : r.encode.length = r.body.length + checksumSize := by rw [encode, List.length_append]; rfl
  have hheader : headerSize = 13 := rfl
  have htake : r.encode.take r.body.length = r.body := List.take_left
  have hdrop : r.encode.drop r.body.length = Word.bytes (Checksum.crc32 r.body) := List.drop_left
  have hfront : (bs.take r.body.length).length = r.body.length := by
    rw [List.length_take, ← h.1]
    omega
  have hback : (bs.drop r.body.length).length = checksumSize := by
    rw [List.length_drop, ← h.1]
    omega
  have hlength : (Word.ofBytes ((bs.take r.body.length).take 4) : UInt32).toNat = r.body.length + checksumSize := by
    rw [List.take_take, Nat.min_eq_left (by omega), take_four hr (h.take_eq hi).symm, hencode]
  have hsum : (Word.ofBytes (bs.drop r.body.length) : UInt32) ≠ Checksum.crc32 (bs.take r.body.length) := by
    rcases Nat.lt_or_ge i r.body.length with hlt | hge
    · have hdiffers := h.take hlt
      rw [htake] at hdiffers
      rw [← h.drop_eq hlt, hdrop, Word.ofBytes_bytes]
      exact Checksum.crc32_ne hdiffers
    · rw [← h.take_eq hge, htake]
      intro heq
      apply (h.drop hge).ne
      rw [hdrop, ← heq, Word.bytes_ofBytes _ hback]
  have hmismatch := decode_mismatch (by rw [hfront]; exact hlength) (by omega) hback hsum rest
  rw [List.take_append_drop] at hmismatch
  exact ⟨_, _, hmismatch⟩

/-- So are bytes that were read as a record. -/
theorem decode_changed_of_decode {bs' : List UInt8} {n : Nat} (hr : decode bs = .ok (r, n))
    (h : DiffersAt i bs bs') (hi : 4 ≤ i) (hn : i < n) :
    ∃ expected actual, decode bs' = .error (.checksumMismatch expected actual) := by
  obtain ⟨hencode, hroom⟩ := encode_of_decode hr
  have hd := h.take hn
  rw [← hencode] at hd
  have hchanged := decode_changed hroom.length_encode_lt hd hi (bs'.drop n)
  rwa [List.take_append_drop] at hchanged

end LogRecord

/-- A page with a seal passes. With one byte changed it is refused, unless the change clears the flag
that says there is a seal. A record that has room for its length, or the bytes of one in a log, with one
byte after the length changed is refused, whatever follows it. -/
theorem Checksum.catches_changes :
    (∀ page : Page, PageHeader.size ≤ page.size → ∃ q, (page.sealed : Checked PageError Page) = .ok q ∧
      q.Flagged ∧ q.verify = .ok () ∧ ∀ (r : Page) (i : Nat), DiffersAt i q.toList r.toList →
        if i = 1 ∧ ¬ r.Flagged then r.verify = .ok ()
        else ∃ expected actual, r.verify = .error (.error (.checksumMismatch expected actual))) ∧
    (∀ (r : LogRecord) (bs rest : List UInt8) (i : Nat), r.encode.length < UInt32.size →
      DiffersAt i r.encode bs → 4 ≤ i →
      ∃ expected actual, LogRecord.decode (bs ++ rest) = .error (.checksumMismatch expected actual)) ∧
    (∀ (r : LogRecord) (bs bs' : List UInt8) (n i : Nat), LogRecord.decode bs = .ok (r, n) →
      DiffersAt i bs bs' → 4 ≤ i → i < n →
      ∃ expected actual, LogRecord.decode bs' = .error (.checksumMismatch expected actual)) := by
  refine ⟨?_, ?_, ?_⟩
  · intro page hsize
    have h : 6 ≤ page.size := by
      rw [PageHeader.size] at hsize
      omega
    have hq : 6 ≤ page.withSeal.size := by
      rw [Page.size_withSeal h]
      exact h
    refine ⟨page.withSeal, Page.sealed_eq h, Page.flagged_withSeal h, Page.verify_seal h, ?_⟩
    intro r i hd
    split
    · next hcleared =>
      apply Page.verify_of_not_flagged _ hcleared.2
      rw [← Page.length_toList, ← hd.1]
      exact hq
    · next hkept =>
      apply Page.verify_changed hq (Page.flagged_withSeal h) (Page.verify_seal h) hd
      by_contra hcleared
      by_cases hi : i = 1
      · exact hkept ⟨hi, hcleared⟩
      · exact hcleared (Page.flagged_of_differs (Page.flagged_withSeal h) hd hi)
  · intro r bs rest i hr hd hi
    exact LogRecord.decode_changed hr hd hi rest
  · intro r bs bs' n i hr hd hi hn
    exact LogRecord.decode_changed_of_decode hr hd hi hn

/-- The last byte of a sealed page changed, and the id in a commit record. -/
theorem Checksum.catches_changes_commit :
    (∃ q r : Page, ((Page.zero 8).sealed : Checked PageError Page) = .ok q ∧ DiffersAt 7 q.toList r.toList ∧
      ∃ expected actual, r.verify = .error (.error (.checksumMismatch expected actual))) ∧
    ∃ expected actual, LogRecord.decode ((LogRecord.encode ⟨7, .commit⟩).set 5 0) =
      .error (.checksumMismatch expected actual) := by
  obtain ⟨hpages, hrecords, -⟩ := catches_changes
  constructor
  · obtain ⟨q, hq, -, -, hchanged⟩ := hpages (.zero 8) (Nat.le_of_eq (Page.size_zero 8).symm)
    have h6 : 6 ≤ (Page.zero 8).size := by simp
    have hlen : q.toList.length = 8 := by
      rw [Page.sealed_eq h6] at hq
      obtain rfl := Except.ok.inj hq
      rw [Page.length_toList, Page.size_withSeal h6, Page.size_zero]
    let r : Page := ⟨Block.ofList (q.toList.set 7 (q.toList[7] + 1))⟩
    have hr : r.toList = q.toList.set 7 (q.toList[7] + 1) := Block.toList_ofList _
    have hd : DiffersAt 7 q.toList r.toList := by
      rw [hr]
      exact .set (by omega) (by simp)
    exact ⟨q, r, hq, hd, hchanged r 7 hd⟩
  · have hd : DiffersAt 5 (LogRecord.encode ⟨7, .commit⟩) ((LogRecord.encode ⟨7, .commit⟩).set 5 0) :=
      .set (by decide) (by decide)
    have hrefused := hrecords _ _ [] 5 (by decide) hd (by decide)
    rwa [List.append_nil] at hrefused

end RefStore
