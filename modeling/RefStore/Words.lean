/-!
# Little-endian words

Numbers as lists of bytes, least significant byte first, and the fixed-width word types that are
stored in this form. Main statements: `Word.ofBytes_bytes` and `Word.bytes_ofBytes`.
-/

namespace RefStore

/-- The `width` low bytes of a number. -/
def littleEndian : Nat → Nat → List UInt8
  | 0, _ => []
  | width + 1, n => UInt8.ofNat n :: littleEndian width (n / 256)

def ofLittleEndian : List UInt8 → Nat
  | [] => 0
  | b :: bs => b.toNat + 256 * ofLittleEndian bs

/-- How many numbers fit a number of bytes. -/
def wordCount : Nat → Nat
  | 0 => 1
  | width + 1 => 256 * wordCount width

@[simp] theorem length_littleEndian (width n : Nat) : (littleEndian width n).length = width := by
  induction width generalizing n with
  | zero => rfl
  | succ width ih => simp [littleEndian, ih]

theorem ofLittleEndian_lt (bs : List UInt8) : ofLittleEndian bs < wordCount bs.length := by
  induction bs with
  | nil => decide
  | cons b bs ih =>
    have hb := b.toNat_lt
    simp only [ofLittleEndian, List.length_cons, wordCount]
    omega

theorem ofLittleEndian_littleEndian (width n : Nat) (h : n < wordCount width) :
    ofLittleEndian (littleEndian width n) = n := by
  induction width generalizing n with
  | zero =>
    have : n = 0 := by simpa [wordCount] using h
    simp [littleEndian, ofLittleEndian, this]
  | succ width ih =>
    have hq : n / 256 < wordCount width := Nat.div_lt_of_lt_mul h
    simp only [littleEndian, ofLittleEndian, ih _ hq]
    have : (UInt8.ofNat n).toNat = n % 256 := by simp
    omega

theorem littleEndian_ofLittleEndian (bs : List UInt8) :
    littleEndian bs.length (ofLittleEndian bs) = bs := by
  induction bs with
  | nil => rfl
  | cons b bs ih =>
    have hb := b.toNat_lt
    have hq : (b.toNat + 256 * ofLittleEndian bs) / 256 = ofLittleEndian bs := by omega
    have hr : UInt8.ofNat (b.toNat + 256 * ofLittleEndian bs) = b := by
      apply UInt8.toNat_inj.mp
      simp
    simp [littleEndian, ofLittleEndian, hq, hr, ih]

/-- Types of a fixed number of bytes, seen through their unsigned value. -/
class Word (α : Type) where
  width : Nat
  toNat : α → Nat
  ofNat : Nat → α
  toNat_lt (a : α) : toNat a < wordCount width
  ofNat_toNat (a : α) : ofNat (toNat a) = a
  toNat_ofNat (n : Nat) (h : n < wordCount width) : toNat (ofNat n) = n

namespace Word

variable {α : Type} [Word α]

def bytes (a : α) : List UInt8 := littleEndian (width α) (toNat a)

def ofBytes (bs : List UInt8) : α := ofNat (ofLittleEndian bs)

@[simp] theorem length_bytes (a : α) : (bytes a).length = width α := by simp [bytes]

@[simp] theorem ofBytes_bytes (a : α) : ofBytes (bytes a) = a := by
  simp [ofBytes, bytes, ofLittleEndian_littleEndian _ _ (toNat_lt a), ofNat_toNat]

theorem bytes_ofBytes (bs : List UInt8) (h : bs.length = width α) :
    bytes (ofBytes bs : α) = bs := by
  have hlt : ofLittleEndian bs < wordCount (width α) := h ▸ ofLittleEndian_lt bs
  rw [bytes, ofBytes, toNat_ofNat _ hlt, ← h, littleEndian_ofLittleEndian]

instance : Word UInt8 where
  width := 1
  toNat := UInt8.toNat
  ofNat := UInt8.ofNat
  toNat_lt a := a.toNat_lt
  ofNat_toNat a := UInt8.ofNat_toNat
  toNat_ofNat n h := by simpa [wordCount] using h

instance : Word UInt16 where
  width := 2
  toNat := UInt16.toNat
  ofNat := UInt16.ofNat
  toNat_lt a := a.toNat_lt
  ofNat_toNat a := UInt16.ofNat_toNat
  toNat_ofNat n h := by simpa [wordCount] using h

instance : Word UInt32 where
  width := 4
  toNat := UInt32.toNat
  ofNat := UInt32.ofNat
  toNat_lt a := a.toNat_lt
  ofNat_toNat a := UInt32.ofNat_toNat
  toNat_ofNat n h := by simpa [wordCount] using h

instance : Word UInt64 where
  width := 8
  toNat := UInt64.toNat
  ofNat := UInt64.ofNat
  toNat_lt a := a.toNat_lt
  ofNat_toNat a := UInt64.ofNat_toNat
  toNat_ofNat n h := by simpa [wordCount] using h

instance : Word Int32 where
  width := 4
  toNat a := a.toUInt32.toNat
  ofNat n := (UInt32.ofNat n).toInt32
  toNat_lt a := a.toUInt32.toNat_lt
  ofNat_toNat a := by simp
  toNat_ofNat n h := by simpa [wordCount] using h

instance : Word Int64 where
  width := 8
  toNat a := a.toUInt64.toNat
  ofNat n := (UInt64.ofNat n).toInt64
  toNat_lt a := a.toUInt64.toNat_lt
  ofNat_toNat a := by simp
  toNat_ofNat n h := by simpa [wordCount] using h

end Word

end RefStore
