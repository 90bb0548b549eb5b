import RefStore.Page

/-!
# Overlays

Changes to a page that are not applied yet: the page as it was, and the stretches written since.
Stretches that overlap or touch are joined, so they stay in order and apart.
-/

namespace RefStore

structure Patch where
  offset : Nat
  bytes : ByteArray

namespace Patch

def stop (p : Patch) : Nat := p.offset + p.bytes.size

/-- One stretch over two that touch, with the bytes of `p` where both have some. -/
def join (p q : Patch) : Patch :=
  ⟨min p.offset q.offset,
    q.bytes.extract 0 (p.offset - q.offset) ++ p.bytes ++
      q.bytes.extract (p.stop - q.offset) q.bytes.size⟩

def insert (p : Patch) : List Patch → List Patch
  | [] => [p]
  | q :: qs =>
    if q.stop < p.offset then q :: insert p qs
    else if p.stop < q.offset then p :: q :: qs
    else insert (p.join q) qs

/-- The bytes that start at `from` of a page, where the patch covers them. -/
def lay (start : Nat) (block : ByteArray) (p : Patch) : ByteArray :=
  let low := max p.offset start
  let high := min p.stop (start + block.size)
  if low < high then
    Block.splice block (low - start) (p.bytes.extract (low - p.offset) (high - p.offset))
  else block

end Patch

structure Overlay where
  base : Page
  patches : List Patch

namespace Overlay

variable {ε : Type}

def on (base : Page) : Overlay := ⟨base, []⟩

def size (o : Overlay) : Nat := o.base.size

def isEmpty (o : Overlay) : Bool := o.patches.isEmpty

def slice (o : Overlay) (offset length : Nat) : Checked ε ByteArray := do
  let block ← o.base.slice offset length
  return o.patches.foldl (Patch.lay offset) block

def word (α : Type) [Word α] (o : Overlay) (offset : Nat) : Checked ε α := do
  let block ← o.slice offset (Word.width α)
  return Word.ofBytes (Block.toList block)

/-- The patches written into a page. -/
def applyTo (o : Overlay) (page : Page) : Page :=
  ⟨o.patches.foldl (fun block p => Block.splice block p.offset p.bytes) page.bytes⟩

/-- The page with all changes. -/
def page (o : Overlay) : Page := o.applyTo o.base

/-- An empty write leaves no patch. -/
def write (o : Overlay) (w : Write) : Checked ε Overlay :=
  if w.offset + w.bytes.length ≤ o.size then
    .ok (if w.bytes.isEmpty then o
      else { o with patches := Patch.insert ⟨w.offset, Block.ofList w.bytes⟩ o.patches })
  else halt .outsidePage

def writeAll (o : Overlay) (ws : List Write) : Checked ε Overlay := ws.foldlM write o

instance : Writable Overlay where
  size := size
  slice := slice
  write := write

end Overlay

end RefStore
