import RefStore.Checksum
import RefStore.Hex
import RefStore.Page

/-!
# Page headers and seals

Every page starts with eight bytes: its kind, flags, a checksum of the rest and two reserved bytes.
A sealed page has the checksum flag set and holds the CRC-32 of its bytes, the checksum field read
as zero.
-/

namespace RefStore

inductive PageKind where
  | sizeEntryPoint | sizeBucket | treeMeta | treeInternal | treeLeaf
  deriving DecidableEq, Repr

namespace PageKind

def code : PageKind → UInt8
  | sizeEntryPoint => 0x10
  | sizeBucket => 0x11
  | treeMeta => 0x20
  | treeInternal => 0x21
  | treeLeaf => 0x22

def ofCode? (b : UInt8) : Option PageKind :=
  if b = 0x10 then some sizeEntryPoint
  else if b = 0x11 then some sizeBucket
  else if b = 0x20 then some treeMeta
  else if b = 0x21 then some treeInternal
  else if b = 0x22 then some treeLeaf
  else none

def name : PageKind → String
  | sizeEntryPoint => "SizeMapEntryPoint"
  | sizeBucket => "SizeMapBucket"
  | treeMeta => "TreeMeta"
  | treeInternal => "TreeInternal"
  | treeLeaf => "TreeLeaf"

@[simp] theorem ofCode?_code (k : PageKind) : ofCode? k.code = some k := by
  cases k <;> rfl

end PageKind

inductive PageError where
  | invalidKind (code : UInt8)
  | wrongKind (expected actual : PageKind)
  | checksumMismatch (expected actual : UInt32)
  deriving DecidableEq, Repr

def PageError.message : PageError → String
  | invalidKind code => "invalid page type: 0x" ++ Hex.lower 2 code.toNat
  | wrongKind expected actual =>
    "wrong page type: expected " ++ expected.name ++ ", found " ++ actual.name
  | checksumMismatch expected actual => s!"checksum mismatch: expected {expected}, got {actual}"

structure PageHeader where
  kind : PageKind
  flags : UInt8
  checksum : UInt32
  deriving DecidableEq, Repr

namespace PageHeader

def size : Nat := 8

def checksumFlag : UInt8 := 1

def bytes (h : PageHeader) : List UInt8 := h.kind.code :: h.flags :: Word.bytes h.checksum ++ [0, 0]

def ofBytes (bs : List UInt8) : Except PageError PageHeader :=
  match PageKind.ofCode? (bs.headD 0) with
  | none => .error (.invalidKind (bs.headD 0))
  | some kind => .ok ⟨kind, (bs.drop 1).headD 0, Word.ofBytes ((bs.drop 2).take 4)⟩

/-- The header of a page that was just formatted. -/
def fresh (kind : PageKind) : Write := ⟨0, bytes ⟨kind, 0, 0⟩⟩

def read (page : Page) : Checked PageError PageHeader := do
  let block ← page.slice 0 size
  (ofBytes (Block.toList block)).mapError .error

def expect (page : Page) (expected : PageKind) : Checked PageError Unit := do
  let h ← read page
  if h.kind = expected then return ()
  refuse (.wrongKind expected h.kind)

end PageHeader

namespace Page

variable {ε : Type}

/-- The checksum of a page does not depend on its checksum field. -/
def checksum (page : Page) : Checked ε UInt32 :=
  if 6 ≤ page.size then
    .ok (Checksum.ofBlock (page.bytes.extract 0 2 ++ Block.zeros 4 ++ page.bytes.extract 6 page.size))
  else halt .outsidePage

def sealed (page : Page) : Checked ε Page := do
  let flags ← page.word UInt8 1
  let flagged ← page.write (.word 1 (flags ||| PageHeader.checksumFlag))
  let sum ← flagged.checksum
  flagged.write (.word 2 sum)

/-- A page without the checksum flag passes. -/
def verify (page : Page) : Checked PageError Unit := do
  let flags : UInt8 ← page.word UInt8 1
  if flags &&& PageHeader.checksumFlag = 0 then return ()
  let expected : UInt32 ← page.word UInt32 2
  let actual ← page.checksum
  if expected = actual then return ()
  refuse (.checksumMismatch expected actual)

end Page

end RefStore
