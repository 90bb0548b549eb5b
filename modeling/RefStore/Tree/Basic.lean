import RefStore.Component
import RefStore.Node.Codec
import RefStore.Storage.Transaction

/-!
# Shared trees

A shared tree is a file of pages: first a page that says where the root is and how many entries
there are, then leaves and branches. This module reads and writes single nodes, and finds the leaf
for a key. Searches count their steps, and one that takes more than there are pages does not end.
-/

namespace RefStore

inductive TreeError where
  | storage (cause : StorageError)
  | node (cause : NodeError)
  | notLoaded (file : String)
  | corrupt (reason : String)
  deriving DecidableEq, Repr

namespace TreeError

def message : TreeError → String
  | storage cause => "storage error: " ++ cause.message
  | node cause => "node error: " ++ cause.message
  | notLoaded file => s!"tree {file} is not loaded"
  | corrupt reason => s!"corrupt tree: {reason}"

def causes : TreeError → List String
  | storage cause => cause.message :: cause.causes
  | node cause => cause.message :: cause.causes
  | _ => []

def inComponent (name operation : String) : TreeError → TreeError
  | .storage cause => .storage (cause.inComponent name operation)
  | cause => cause

end TreeError

instance : Within StorageError TreeError := ⟨.storage⟩

structure Tree where
  component : Component
  deriving DecidableEq, Repr

structure TreeMeta where
  root : PageIndex
  count : UInt64
  deriving DecidableEq, Repr

namespace TreeMeta

def writes (m : TreeMeta) : List Write := [.word 8 m.root, .word 16 m.count]

def read (page : Page) : Checked PageError TreeMeta := do
  PageHeader.expect page .treeMeta
  return ⟨← page.word PageIndex 8, ← page.word UInt64 16⟩

end TreeMeta

/-- What a page of a tree file holds. -/
inductive TreePage where
  | info (m : TreeMeta)
  | node (n : Node)
  deriving DecidableEq, Repr

def TreePage.read (page : Page) : Checked NodeError TreePage :=
  match TreeMeta.read page with
  | .ok m => .ok (.info m)
  | .error (.fault kind) => halt kind
  | .error (.error _) => .node <$> Node.read page

namespace Tree

variable {α : Type}

def extension : String := ".grb"

def named (name : String) : Tree := ⟨.detached name extension⟩

def name (tree : Tree) : String := tree.component.name

def fileName (tree : Tree) : String := tree.component.fileName

def attached (tree : Tree) (file : FileId) : Tree := ⟨{ tree.component with file }⟩

def file (tree : Tree) : Task Transaction TreeError FileId :=
  if tree.component.isAttached then pure tree.component.file else refuse (.notLoaded tree.fileName)

/-- Run part of an operation on a tree, and name the two in storage errors. -/
def during (tree : Tree) (operation : String) (t : Task Transaction TreeError α) :
    Task Transaction TreeError α :=
  t.mapError (TreeError.inComponent tree.fileName operation)

def decoded (x : Checked NodeError α) : Task Transaction TreeError α :=
  Task.ofChecked (x.mapError .node)

def readMeta (file : FileId) : Task Transaction TreeError TreeMeta := do
  let page ← Transaction.loadPage file 0
  decoded ((TreeMeta.read page).mapError .page)

def writeMeta (file : FileId) (m : TreeMeta) : Task Transaction TreeError Unit :=
  Transaction.writePage file 0 m.writes

def readLeaf (file : FileId) (index : PageIndex) : Task Transaction TreeError Leaf := do
  decoded (Leaf.read (← Transaction.loadPage file index))

def readBranch (file : FileId) (index : PageIndex) : Task Transaction TreeError Branch := do
  decoded (Branch.read (← Transaction.loadPage file index))

def writeNode (file : FileId) (index : PageIndex) (node : Node) : Task Transaction TreeError Unit :=
  Transaction.edit file index fun page => do
    let writes ← (node.writes page.size).mapError .node
    return ((), writes)

def appendNode (file : FileId) (node : Node) : Task Transaction TreeError PageIndex := do
  let index ← Transaction.addPage file
  writeNode file index node
  return index

/-- Change the links of a node and leave its contents. -/
def relink (file : FileId) (index : PageIndex) (f : NodeLinks → NodeLinks) :
    Task Transaction TreeError Unit :=
  Transaction.edit file index fun page => do
    let (kind, links) ← (NodeLinks.read page).mapError .node
    return ((), [(f links).write kind])

/-- More steps than a search takes that visits no page twice. -/
def steps (file : FileId) : Task Transaction TreeError Nat := do
  let count ← Transaction.pageCount file
  return count.toNat + 1

/-- Go down from a page to a leaf by the children that `choose` picks. -/
def descend (file : FileId) (choose : Branch → Option PageIndex) :
    Nat → PageIndex → Task Transaction TreeError PageIndex
  | 0, _ => halt .endless
  | fuel + 1, index => do
    let page ← Transaction.loadPage file index
    let (kind, _) ← decoded (NodeLinks.read page)
    if kind = .leaf then return index
    let branch ← decoded (Branch.read page)
    let child := (choose branch).getD 0
    if child = 0 then refuse (.corrupt s!"internal node {index} has a missing child")
    descend file choose fuel child

def findLeaf (file : FileId) (root : PageIndex) (key : Key) :
    Task Transaction TreeError PageIndex := do
  descend file (·.child? key) (← steps file) root

/-- The size of a new file is one page for the meta data and one for an empty root. -/
def create (tree : Tree) : Task Transaction TreeError Tree :=
  tree.during "create" do
    let file ← Transaction.addFile tree.fileName
    let first ← Transaction.addPage file
    Transaction.writePage file first (PageHeader.fresh .treeMeta :: (⟨1, 0⟩ : TreeMeta).writes)
    let _ ← appendNode file (.leaf (.empty 0))
    return tree.attached file

/-- The tree attached to its committed file, if there is one. -/
def load? (tree : Tree) (volume : Volume) : Option Tree :=
  (volume.idOf? tree.fileName).map tree.attached

def delete (tree : Tree) : Task Transaction TreeError Unit := do
  let file ← tree.file
  tree.during "delete" (Transaction.deleteFile file)

def entryCount (tree : Tree) : Task Transaction TreeError UInt64 := do
  return (← readMeta (← tree.file)).count

def get (tree : Tree) (key : Key) : Task Transaction TreeError (Option Int32) := do
  let file ← tree.file
  let m ← readMeta file
  let leaf ← readLeaf file (← findLeaf file m.root key)
  return leaf.get? key

end Tree

end RefStore
