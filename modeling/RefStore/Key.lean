import RefStore.Page.Overlay

/-!
# Keys of a shared tree

An entry belongs to a collection and refers to a record. Keys order by collection, cluster and
position, all signed, so the entries of one collection are contiguous. A key takes twenty bytes.
-/

namespace RefStore

abbrev CollectionId := Int64

structure RecordRef where
  cluster : Int32
  position : Int64
  deriving DecidableEq, Repr

namespace RecordRef

instance : Ord RecordRef := ⟨compareLex (compareOn cluster) (compareOn position)⟩

instance : Std.TransOrd RecordRef :=
  inferInstanceAs (Std.TransCmp (compareLex (compareOn cluster) (compareOn position)))

def least : RecordRef := ⟨Int32.minValue, Int64.minValue⟩

def greatest : RecordRef := ⟨Int32.maxValue, Int64.maxValue⟩

def text (r : RecordRef) : String := "#" ++ toString r.cluster ++ ":" ++ toString r.position

end RecordRef

structure Key where
  collection : CollectionId
  cluster : Int32
  position : Int64
  deriving DecidableEq, Repr

inductive KeyError where
  | bufferTooSmall (offset available : Nat)
  deriving DecidableEq, Repr

namespace Key

instance : Ord Key :=
  ⟨compareLex (compareOn collection) (compareLex (compareOn cluster) (compareOn position))⟩

instance : Std.TransOrd Key :=
  inferInstanceAs (Std.TransCmp
    (compareLex (compareOn collection) (compareLex (compareOn cluster) (compareOn position))))

instance : Std.LawfulEqOrd Key where
  eq_of_compare {a b} h := by
    have h' : (compare a.collection b.collection).then
        ((compare a.cluster b.cluster).then (compare a.position b.position)) = .eq := h
    simp only [Ordering.then_eq_eq, Std.LawfulEqOrd.compare_eq_iff_eq] at h'
    cases a
    cases b
    simp_all

def le (a b : Key) : Bool := (compare a b).isLE

def lt (a b : Key) : Bool := (compare a b).isLT

def size : Nat := 20

def of (collection : CollectionId) (r : RecordRef) : Key := ⟨collection, r.cluster, r.position⟩

def record (k : Key) : RecordRef := ⟨k.cluster, k.position⟩

/-- The bounds, both included, of all keys of a collection. -/
def range (collection : CollectionId) : Key × Key := (of collection .least, of collection .greatest)

def text (k : Key) : String := "(" ++ toString k.collection ++ ", " ++ k.record.text ++ ")"

def bytes (k : Key) : List UInt8 :=
  Word.bytes k.collection ++ Word.bytes k.cluster ++ Word.bytes k.position

def ofBytes (bs : List UInt8) : Key :=
  ⟨Word.ofBytes (bs.take 8), Word.ofBytes ((bs.drop 8).take 4), Word.ofBytes ((bs.drop 12).take 8)⟩

@[simp] theorem length_bytes (k : Key) : k.bytes.length = size := by
  simp [bytes, size, Word.width]

/-- Whether a whole key stands at an offset of a buffer of `length` bytes. Nothing is added to the offset, so
the test goes for offsets of any size. -/
def sizeIn (length offset : Nat) : Except KeyError Nat :=
  if length < offset ∨ length - offset < size then .error (.bufferTooSmall offset (length - offset))
  else .ok size

/-- The key at an offset of what holds it. -/
def readFrom {π : Type} [Readable π] (page : π) (offset : Nat) : Checked KeyError Key := do
  let n ← (sizeIn (Readable.size page) offset).mapError .error
  let block ← Readable.slice page offset n
  return ofBytes (Block.toList block)

def decode (buffer : ByteArray) (offset : Nat) : Checked KeyError Key := readFrom buffer offset

/-- Put the fields of a key into a buffer, one after another. -/
def encode (k : Key) (offset : Nat) : Task ByteArray KeyError Unit := do
  let _ ← Task.ofChecked ((sizeIn (← Task.state).size offset).mapError .error)
  Writable.put (.word offset k.collection)
  Writable.put (.word (offset + 8) k.cluster)
  Writable.put (.word (offset + 12) k.position)

def encodeInto (k : Key) (buffer : ByteArray) (offset : Nat) : Checked KeyError ByteArray :=
  (k.encode offset).result buffer

/-- Put a key into a page, or into changes over one, in one piece. -/
def store {π : Type} [Writable π] (k : Key) (offset : Nat) : Task π KeyError Unit := do
  let _ ← Task.ofChecked ((sizeIn (Readable.size (← Task.state)) offset).mapError .error)
  Writable.put ⟨offset, k.bytes⟩

def writeTo {π : Type} [Writable π] (k : Key) (page : π) (offset : Nat) : Checked KeyError π :=
  (k.store offset).result page

end Key

def KeyError.message : KeyError → String
  | bufferTooSmall offset available =>
    s!"composite key at offset {offset} needs " ++ toString Key.size ++
      s!" bytes, {available} available"

end RefStore
