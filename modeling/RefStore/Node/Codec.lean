import RefStore.Node.Branch
import RefStore.Page.Header

/-!
# Nodes in pages

The page of a node starts with the page header of its kind. Twenty-seven bytes follow: the kind of
node, the number of keys, and the parent, previous and next pages. Then come the entries of a leaf,
or the first child and the keys of a branch, each with the child after it.
-/

namespace RefStore

inductive NodeError where
  | invalidHeader | wrongKind | full
  | page (cause : PageError)
  | key (cause : KeyError)
  deriving DecidableEq, Repr

def NodeError.message : NodeError → String
  | invalidHeader => "invalid node header"
  | wrongKind => "wrong node type for operation"
  | full => "node is full"
  | page cause => "page error: " ++ cause.message
  | key cause => "key error: " ++ cause.message

def NodeError.causes : NodeError → List String
  | page cause => [cause.message]
  | key cause => [cause.message]
  | _ => []

instance : Within PageError NodeError := ⟨.page⟩

inductive NodeKind where
  | branch | leaf
  deriving DecidableEq, Repr

namespace NodeKind

def code : NodeKind → UInt8
  | branch => 0
  | leaf => 1

def ofCode? (b : UInt8) : Option NodeKind :=
  if b = 0 then some branch else if b = 1 then some leaf else none

def pageKind : NodeKind → PageKind
  | branch => .treeInternal
  | leaf => .treeLeaf

end NodeKind

namespace NodeLinks

def read (page : Page) : Checked NodeError (NodeKind × NodeLinks) := do
  let code : UInt8 ← page.word UInt8 8
  match NodeKind.ofCode? code with
  | none => refuse .invalidHeader
  | some kind =>
    PageHeader.expect page kind.pageKind
    let count ← page.word UInt16 9
    let parent ← page.word PageIndex 11
    let previous ← page.word PageIndex 19
    let next ← page.word PageIndex 27
    return (kind, ⟨count, parent, previous, next⟩)

def write (kind : NodeKind) (links : NodeLinks) : Write :=
  ⟨8, kind.code :: Word.bytes links.count ++ Word.bytes links.parent ++ Word.bytes links.previous ++
    Word.bytes links.next⟩

end NodeLinks

/-- Where the contents of a node start. -/
def nodeDataOffset : Nat := 35

namespace Leaf

def entryBytes (e : Entry) : List UInt8 := e.key.bytes ++ Word.bytes e.value

def entriesOfBytes : Nat → List UInt8 → List Entry
  | 0, _ => []
  | n + 1, bs =>
    ⟨Key.ofBytes (bs.take 20), Word.ofBytes ((bs.drop 20).take 4)⟩ :: entriesOfBytes n (bs.drop 24)

def body (leaf : Leaf) : List UInt8 := leaf.entries.flatMap entryBytes

def read (page : Page) : Checked NodeError Leaf := do
  let (kind, links) ← NodeLinks.read page
  if kind ≠ .leaf then refuse .wrongKind
  let count := links.count.toNat
  if capacity page.size < count then refuse .invalidHeader
  let block ← page.slice nodeDataOffset (24 * count)
  return ⟨links, entriesOfBytes count (Block.toList block)⟩

/-- The writes that store a leaf. The stored count is the number of entries. -/
def writes (leaf : Leaf) (pageSize : Nat) : Checked NodeError (List Write) := do
  if pageSize < nodeDataOffset then halt .outsidePage
  if leaf.isOverfull pageSize then refuse .full
  let links := { leaf.links with count := UInt16.ofNat leaf.entries.length }
  return [PageHeader.fresh .treeLeaf, links.write .leaf, ⟨nodeDataOffset, leaf.body⟩]

end Leaf

namespace Branch

def pairsOfBytes : Nat → List UInt8 → List (Key × PageIndex)
  | 0, _ => []
  | n + 1, bs =>
    (Key.ofBytes (bs.take 20), Word.ofBytes ((bs.drop 20).take 8)) :: pairsOfBytes n (bs.drop 28)

/-- Each key with the child after it; a missing child is stored as 0. -/
def pairBytes : List Key → List PageIndex → List UInt8
  | [], _ => []
  | k :: ks, cs => k.bytes ++ Word.bytes (cs.headD 0) ++ pairBytes ks cs.tail

def body (branch : Branch) : List UInt8 :=
  Word.bytes (branch.children.headD 0) ++ pairBytes branch.keys branch.children.tail

def read (page : Page) : Checked NodeError Branch := do
  let (kind, links) ← NodeLinks.read page
  if kind ≠ .branch then refuse .wrongKind
  let count := links.count.toNat
  let first ← page.word PageIndex nodeDataOffset
  if capacity page.size < count then refuse .invalidHeader
  let block ← page.slice (nodeDataOffset + 8) (28 * count)
  let pairs := pairsOfBytes count (Block.toList block)
  return ⟨links, pairs.map Prod.fst, first :: pairs.map Prod.snd⟩

/-- The writes that store a branch. The stored count is the number of keys. -/
def writes (branch : Branch) (pageSize : Nat) : Checked NodeError (List Write) := do
  if pageSize < nodeDataOffset + 8 then halt .outsidePage
  if branch.isOverfull pageSize then refuse .full
  let links := { branch.links with count := UInt16.ofNat branch.keys.length }
  return [PageHeader.fresh .treeInternal, links.write .branch, ⟨nodeDataOffset, branch.body⟩]

end Branch

inductive Node where
  | branch (node : Branch)
  | leaf (node : Leaf)
  deriving DecidableEq, Repr

namespace Node

def read (page : Page) : Checked NodeError Node := do
  match ← NodeLinks.read page with
  | (.branch, _) => return .branch (← Branch.read page)
  | (.leaf, _) => return .leaf (← Leaf.read page)

def writes (node : Node) (pageSize : Nat) : Checked NodeError (List Write) :=
  match node with
  | branch b => b.writes pageSize
  | leaf l => l.writes pageSize

def withParent (parent : PageIndex) : Node → Node
  | branch b => .branch { b with links := { b.links with parent } }
  | leaf l => .leaf { l with links := { l.links with parent } }

end Node

end RefStore
