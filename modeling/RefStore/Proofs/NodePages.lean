import RefStore.Node.Codec
import RefStore.Proofs.Seals

/-!
# Nodes stored in pages

When a page holds a node, what is read from it, and that the writes for a node store it. A seal
touches nothing that a node is read from. Main statements: `Node.read_inPage` and
`Node.inPage_writtenAll`.
-/

namespace RefStore

variable {ε : Type}

/-- A page that starts with the header of some kind. -/
def PageHeader.Marks (kind : PageKind) (page : Page) : Prop := page.bytesAt 0 1 = [kind.code]

theorem PageHeader.read_marks {kind : PageKind} {page : Page} (h : Marks kind page)
    (hs : 8 ≤ page.size) : ∃ header, read page = .ok header ∧ header.kind = kind := by
  have hb : (page.bytesAt 0 8).headD 0 = kind.code := by
    rw [Marks, Page.bytesAt, List.drop_zero] at h
    rw [Page.bytesAt, List.drop_zero]
    cases hl : page.toList with
    | nil => simp [hl] at h
    | cons b bs =>
      rw [hl] at h
      simpa using h
  refine ⟨⟨kind, ((page.bytesAt 0 8).drop 1).headD 0,
    Word.ofBytes (((page.bytesAt 0 8).drop 2).take 4)⟩, ?_, rfl⟩
  have hx : Block.toList (page.bytes.extract 0 8) = page.bytesAt 0 8 := Page.toList_extract page 0 8
  rw [read, Page.slice_eq (by simpa [size] using hs)]
  simp only [bind, Except.bind, size, Nat.zero_add, hx, ofBytes, hb, PageKind.ofCode?_code]
  rfl

theorem PageHeader.expect_eq {kind : PageKind} {page : Page} (h : Marks kind page)
    (hs : 8 ≤ page.size) (expected : PageKind) :
    expect page expected =
      if kind = expected then .ok () else refuse (.wrongKind expected kind) := by
  obtain ⟨header, hr, rfl⟩ := read_marks h hs
  rw [expect, hr]
  rfl

theorem PageHeader.length_fresh (kind : PageKind) : (fresh kind).bytes.length = 8 := by
  simp [fresh, bytes, Word.width]

theorem PageHeader.bytesAt_fresh (page : Page) (hs : 8 ≤ page.size) (kind : PageKind) :
    (page.written (fresh kind)).bytesAt 0 8 = (fresh kind).bytes := by
  rw [← length_fresh kind]
  exact Page.bytesAt_written_self (by rw [length_fresh]; exact hs)

theorem PageHeader.marks_fresh (page : Page) (hs : 8 ≤ page.size) (kind : PageKind) :
    Marks kind (page.written (fresh kind)) := by
  have hfirst := Page.bytesAt_bytesAt (page.written (fresh kind)) 0 (show 0 + 1 ≤ 8 by omega)
  rw [bytesAt_fresh page hs] at hfirst
  exact hfirst.trans rfl

namespace NodeLinks

theorem length_write (kind : NodeKind) (links : NodeLinks) :
    (links.write kind).bytes.length = 27 := by
  simp [write, Word.width]

theorem read_eq {page : Page} {kind : NodeKind} {links : NodeLinks}
    (hm : PageHeader.Marks kind.pageKind page) (hl : page.bytesAt 8 27 = (links.write kind).bytes)
    (hs : 35 ≤ page.size) : read page = .ok (kind, links) := by
  have hfield : ∀ start n, start + n ≤ 27 →
      page.bytesAt (8 + start) n = ((links.write kind).bytes.drop start).take n := by
    intro start n hn
    rw [Page.bytesAt_bytesAt page 8 hn, hl]
  have hkind : page.bytesAt 8 1 = Word.bytes kind.code :=
    (hfield 0 1 (by omega)).trans (by simp [write, Word.bytes, littleEndian, Word.width, Word.toNat])
  have hcount : page.bytesAt 9 2 = Word.bytes links.count := (hfield 1 2 (by omega)).trans rfl
  have hparent : page.bytesAt 11 8 = Word.bytes links.parent := (hfield 3 8 (by omega)).trans rfl
  have hprevious : page.bytesAt 19 8 = Word.bytes links.previous :=
    (hfield 11 8 (by omega)).trans rfl
  have hnext : page.bytesAt 27 8 = Word.bytes links.next := (hfield 19 8 (by omega)).trans rfl
  have hcode : NodeKind.ofCode? kind.code = some kind := by
    cases kind <;> rfl
  have w₁ : (page.word UInt8 8 : Checked NodeError UInt8) = .ok kind.code :=
    Page.word_of_bytesAt hkind (by simp only [Word.width]; omega)
  have w₂ : (page.word UInt16 9 : Checked NodeError UInt16) = .ok links.count :=
    Page.word_of_bytesAt hcount (by simp only [Word.width]; omega)
  have w₃ : (page.word PageIndex 11 : Checked NodeError PageIndex) = .ok links.parent :=
    Page.word_of_bytesAt hparent (by simp only [Word.width]; omega)
  have w₄ : (page.word PageIndex 19 : Checked NodeError PageIndex) = .ok links.previous :=
    Page.word_of_bytesAt hprevious (by simp only [Word.width]; omega)
  have w₅ : (page.word PageIndex 27 : Checked NodeError PageIndex) = .ok links.next :=
    Page.word_of_bytesAt hnext (by simp only [Word.width]; omega)
  simp only [read, w₁, bind, Except.bind, hcode, PageHeader.expect_eq hm (by omega), if_true, w₂, w₃,
    w₄, w₅]
  rfl

end NodeLinks

namespace Node

def kind : Node → NodeKind
  | branch _ => .branch
  | leaf _ => .leaf

def links : Node → NodeLinks
  | branch b => b.links
  | leaf l => l.links

def body : Node → List UInt8
  | branch b => b.body
  | leaf l => l.body

/-- The number of keys. -/
def width : Node → Nat
  | branch b => b.keys.length
  | leaf l => l.entries.length

/-- One more child than keys in a branch. -/
def Paired : Node → Prop
  | branch b => b.children.length = b.keys.length + 1
  | leaf _ => True

def withLinks (links : NodeLinks) : Node → Node
  | branch b => .branch { b with links }
  | leaf l => .leaf { l with links }

/-- The node with the number of its keys noted, as it is stored. -/
def counted (node : Node) : Node :=
  node.withLinks { node.links with count := UInt16.ofNat node.width }

/-- Whether a page has room for a node. -/
def FitsIn (pageSize : Nat) : Node → Prop
  | branch b => b.keys.length ≤ Branch.capacity pageSize
  | leaf l => l.entries.length ≤ Leaf.capacity pageSize

/-- The bytes of a page are those of a node. -/
structure InPage (node : Node) (page : Page) : Prop where
  mark : PageHeader.Marks node.kind.pageKind page
  links : page.bytesAt 8 27 = (node.links.write node.kind).bytes
  body : page.bytesAt 35 node.body.length = node.body
  fits : node.FitsIn page.size
  count : node.links.count.toNat = node.width
  paired : node.Paired

end Node

theorem Leaf.length_body (leaf : Leaf) : leaf.body.length = 24 * leaf.entries.length := by
  rw [body]
  induction leaf.entries with
  | nil => rfl
  | cons e es ih =>
    simp only [List.flatMap_cons, entryBytes, List.length_append, Key.length_bytes, Key.size,
      Word.length_bytes, Word.width, List.length_cons]
    rw [ih]
    omega

theorem Key.ofBytes_bytes (k : Key) : Key.ofBytes k.bytes = k := by
  have h₁ : k.bytes.take 8 = Word.bytes k.collection := rfl
  have h₂ : (k.bytes.drop 8).take 4 = Word.bytes k.cluster := rfl
  have h₃ : (k.bytes.drop 12).take 8 = Word.bytes k.position := rfl
  rw [ofBytes, h₁, h₂, h₃, Word.ofBytes_bytes, Word.ofBytes_bytes, Word.ofBytes_bytes]

theorem Leaf.entriesOfBytes_body (es : List Entry) :
    entriesOfBytes es.length (es.flatMap entryBytes) = es := by
  induction es with
  | nil => rfl
  | cons e es ih =>
    have h₁ : (entryBytes e ++ es.flatMap entryBytes).take 20 = e.key.bytes := rfl
    have h₂ : ((entryBytes e ++ es.flatMap entryBytes).drop 20).take 4 = Word.bytes e.value := rfl
    have h₃ : (entryBytes e ++ es.flatMap entryBytes).drop 24 = es.flatMap entryBytes := rfl
    rw [List.length_cons, List.flatMap_cons, entriesOfBytes, h₁, h₂, h₃, ih, Key.ofBytes_bytes,
      Word.ofBytes_bytes]

theorem Branch.length_pairBytes (ks : List Key) (cs : List PageIndex) :
    (pairBytes ks cs).length = 28 * ks.length := by
  induction ks generalizing cs with
  | nil => rfl
  | cons k ks ih =>
    simp only [pairBytes, List.length_append, Key.length_bytes, Key.size, Word.length_bytes,
      Word.width, ih, List.length_cons]
    omega

theorem Branch.length_body (branch : Branch) : branch.body.length = 8 + 28 * branch.keys.length := by
  simp [body, length_pairBytes, Word.width]

theorem Branch.pairsOfBytes_pairBytes {ks : List Key} {cs : List PageIndex}
    (h : cs.length = ks.length) : pairsOfBytes ks.length (pairBytes ks cs) = ks.zip cs := by
  induction ks generalizing cs with
  | nil => rfl
  | cons k ks ih =>
    obtain _ | ⟨c, cs⟩ := cs
    · simp at h
    · have h₁ : (pairBytes (k :: ks) (c :: cs)).take 20 = k.bytes := rfl
      have h₂ : ((pairBytes (k :: ks) (c :: cs)).drop 20).take 8 = Word.bytes c := rfl
      have h₃ : (pairBytes (k :: ks) (c :: cs)).drop 28 = pairBytes ks cs := rfl
      rw [List.length_cons, pairsOfBytes, h₁, h₂, h₃, ih (by simpa using h), Key.ofBytes_bytes,
        Word.ofBytes_bytes, List.zip_cons_cons]

namespace Node

theorem length_body_le {node : Node} {size : Nat} (h : node.FitsIn size) (hs : 64 ≤ size) :
    35 + node.body.length ≤ size := by
  cases node with
  | branch b =>
    simp only [FitsIn, Branch.capacity] at h
    simp only [body, Branch.length_body]
    omega
  | leaf l =>
    simp only [FitsIn, Leaf.capacity] at h
    simp only [body, Leaf.length_body]
    omega

variable {page : Page}

theorem links_inPage {node : Node} (h : node.InPage page) (hs : 64 ≤ page.size) :
    NodeLinks.read page = .ok (node.kind, node.links) :=
  NodeLinks.read_eq h.mark h.links (by omega)

theorem leaf_inPage {leaf : Leaf} (h : (Node.leaf leaf).InPage page) (hs : 64 ≤ page.size) :
    Leaf.read page = .ok leaf := by
  have hlinks := links_inPage h hs
  have hroom := length_body_le h.fits hs
  have hcount : leaf.links.count.toNat = leaf.entries.length := h.count
  have hbody := h.body
  simp only [body, Leaf.length_body] at hbody hroom
  have hfits : ¬ Leaf.capacity page.size < leaf.entries.length := Nat.not_lt.mpr h.fits
  have hslice : (page.slice nodeDataOffset (24 * leaf.entries.length) : Checked NodeError ByteArray) =
      .ok (page.bytes.extract 35 (35 + 24 * leaf.entries.length)) := Page.slice_eq hroom
  simp only [Leaf.read, hlinks, bind, Except.bind, kind, links, ne_eq, not_true, if_false, hcount,
    hfits, hslice, Page.toList_extract, hbody, Leaf.body, Leaf.entriesOfBytes_body]
  rfl

theorem branch_inPage {branch : Branch} (h : (Node.branch branch).InPage page)
    (hs : 64 ≤ page.size) : Branch.read page = .ok branch := by
  have hlinks := links_inPage h hs
  have hroom := length_body_le h.fits hs
  have hcount : branch.links.count.toNat = branch.keys.length := h.count
  have hpaired : branch.children.length = branch.keys.length + 1 := h.paired
  have hbody := h.body
  simp only [body, Branch.length_body] at hbody hroom
  obtain ⟨links, keys, _ | ⟨first, children⟩⟩ := branch
  · simp at hpaired
  dsimp only at hcount hroom
  have hlen : children.length = keys.length := by simpa using hpaired
  have hfits : ¬ Branch.capacity page.size < keys.length := Nat.not_lt.mpr h.fits
  have hfirst : page.bytesAt 35 8 = Word.bytes first := by
    have := Page.bytesAt_bytesAt page 35 (show 0 + 8 ≤ 8 + 28 * keys.length by omega)
    rw [hbody] at this
    exact this.trans rfl
  have hrest : page.bytesAt 43 (28 * keys.length) = Branch.pairBytes keys children := by
    have := Page.bytesAt_bytesAt page 35
      (show 8 + 28 * keys.length ≤ 8 + 28 * keys.length by omega)
    rw [hbody] at this
    refine this.trans ?_
    rw [← Branch.length_pairBytes keys children]
    exact List.take_length
  have hword : (page.word PageIndex nodeDataOffset : Checked NodeError PageIndex) = .ok first :=
    Page.word_of_bytesAt hfirst (by simp only [Word.width, nodeDataOffset]; omega)
  have hslice : (page.slice (nodeDataOffset + 8) (28 * keys.length) : Checked NodeError ByteArray) =
      .ok (page.bytes.extract 43 (43 + 28 * keys.length)) :=
    Page.slice_eq (by simp only [nodeDataOffset]; omega)
  simp only [Branch.read, hlinks, bind, Except.bind, kind, Node.links, ne_eq, not_true, if_false,
    hcount, hfits, hword, hslice, Page.toList_extract, hrest,
    Branch.pairsOfBytes_pairBytes hlen]
  rw [List.map_fst_zip (by omega), List.map_snd_zip (by omega)]
  rfl

/-- A page that holds a node is read as that node. -/
theorem read_inPage {node : Node} (h : node.InPage page) (hs : 64 ≤ page.size) :
    read page = .ok node := by
  cases node with
  | branch b =>
    rw [read, links_inPage h hs, kind]
    exact congrArg (Node.branch <$> ·) (branch_inPage h hs)
  | leaf l =>
    rw [read, links_inPage h hs, kind]
    exact congrArg (Node.leaf <$> ·) (leaf_inPage h hs)

/-- The writes that store a node. -/
def stores (node : Node) : List Write :=
  [PageHeader.fresh node.kind.pageKind, node.counted.links.write node.kind,
    ⟨nodeDataOffset, node.body⟩]

theorem writes_eq {node : Node} {size : Nat} (h : node.FitsIn size) (hs : 64 ≤ size) :
    node.writes size = .ok node.stores := by
  cases node with
  | branch b =>
    have h₁ : ¬ size < nodeDataOffset + 8 := by simp only [nodeDataOffset]; omega
    have h₂ : b.isOverfull size = false := decide_eq_false (Nat.not_lt.mpr h)
    simp only [writes, Branch.writes, h₁, if_false, h₂]
    rfl
  | leaf l =>
    have h₁ : ¬ size < nodeDataOffset := by simp only [nodeDataOffset]; omega
    have h₂ : l.isOverfull size = false := decide_eq_false (Nat.not_lt.mpr h)
    simp only [writes, Leaf.writes, h₁, if_false, h₂]
    rfl

theorem stores_inside {node : Node} {size : Nat} (h : node.FitsIn size) (hs : 64 ≤ size) :
    ∀ w ∈ node.stores, Page.Inside size w := by
  have hb := length_body_le h hs
  intro w hw
  simp only [stores, List.mem_cons, List.not_mem_nil, or_false] at hw
  obtain rfl | rfl | rfl := hw
  · simp only [Page.Inside, PageHeader.fresh, PageHeader.bytes, List.length_cons, List.length_append,
      Word.length_bytes, Word.width, List.length_nil]
    omega
  · simp only [Page.Inside, NodeLinks.length_write]
    simp only [NodeLinks.write]
    omega
  · exact hb

@[simp] theorem kind_withLinks (links : NodeLinks) (node : Node) :
    (node.withLinks links).kind = node.kind := by
  cases node <;> rfl

@[simp] theorem links_withLinks (links : NodeLinks) (node : Node) :
    (node.withLinks links).links = links := by
  cases node <;> rfl

@[simp] theorem body_withLinks (links : NodeLinks) (node : Node) :
    (node.withLinks links).body = node.body := by
  cases node <;> rfl

@[simp] theorem width_withLinks (links : NodeLinks) (node : Node) :
    (node.withLinks links).width = node.width := by
  cases node <;> rfl

theorem fitsIn_withLinks {links : NodeLinks} {node : Node} {size : Nat} (h : node.FitsIn size) :
    (node.withLinks links).FitsIn size := by
  cases node <;> exact h

theorem paired_withLinks {links : NodeLinks} {node : Node} (h : node.Paired) :
    (node.withLinks links).Paired := by
  cases node <;> exact h

theorem width_le {node : Node} {size : Nat} (h : node.FitsIn size) : 24 * node.width ≤ size := by
  cases node with
  | branch b =>
    simp only [FitsIn, Branch.capacity] at h
    simp only [width]
    omega
  | leaf l =>
    simp only [FitsIn, Leaf.capacity] at h
    simp only [width]
    omega

/-- Written into any page, a node is stored there. -/
theorem inPage_writtenAll {node : Node} (h : node.FitsIn page.size) (hp : node.Paired)
    (hs : 64 ≤ page.size) (hmax : page.size ≤ 65536) :
    node.counted.InPage (page.writtenAll node.stores) := by
  have hin := stores_inside h hs
  have hroom := length_body_le h hs
  set header := PageHeader.fresh node.kind.pageKind with hh
  set links := node.counted.links.write node.kind with hl
  have hlinks : links.bytes.length = 27 := NodeLinks.length_write _ _
  have i₁ : header.offset + header.bytes.length ≤ page.size := hin _ (by simp [stores, hh])
  have s₁ := Page.size_written i₁
  have i₂ : links.offset + links.bytes.length ≤ (page.written header).size := by
    rw [s₁]
    exact hin _ (by simp [stores, hl])
  have s₂ := Page.size_written i₂
  have i₃ : 35 + node.body.length ≤ ((page.written header).written links).size := by
    rw [s₂, s₁]
    exact hroom
  have hall : page.writtenAll node.stores =
      ((page.written header).written links).written ⟨35, node.body⟩ := rfl
  have hsize : (page.writtenAll node.stores).size = page.size := Page.size_writtenAll hin
  refine ⟨?_, ?_, ?_, ?_, ?_, paired_withLinks hp⟩
  · rw [PageHeader.Marks, hall, Page.bytesAt_written_of_apart i₃ (.inl (by simp)),
      Page.bytesAt_written_of_apart i₂ (.inl (by simp [hl, NodeLinks.write]))]
    rw [counted, kind_withLinks]
    exact PageHeader.marks_fresh page (by omega) _
  · rw [hall, Page.bytesAt_written_of_apart i₃ (.inl (by simp)), counted, kind_withLinks]
    rw [← hlinks]
    exact Page.bytesAt_written_self i₂
  · rw [hall, counted, body_withLinks]
    exact Page.bytesAt_written_self (w := ⟨35, node.body⟩) i₃
  · rw [hsize]
    exact fitsIn_withLinks h
  · rw [counted, links_withLinks, width_withLinks]
    have := width_le h
    simp only [UInt16.toNat_ofNat']
    omega

/-- Writing the links of a node leaves its contents. -/
theorem inPage_relinked {node : Node} (h : node.InPage page) (hs : 64 ≤ page.size)
    {links : NodeLinks} (hc : links.count = node.links.count) :
    (node.withLinks links).InPage (page.writtenAll [links.write node.kind]) := by
  have hlen := NodeLinks.length_write node.kind links
  have hi : (links.write node.kind).offset + (links.write node.kind).bytes.length ≤ page.size := by
    rw [hlen]
    simp only [NodeLinks.write]
    omega
  have hall : page.writtenAll [links.write node.kind] = page.written (links.write node.kind) := rfl
  refine ⟨?_, ?_, ?_, ?_, ?_, paired_withLinks h.paired⟩
  · rw [PageHeader.Marks, hall, Page.bytesAt_written_of_apart hi (.inl (by simp [NodeLinks.write])),
      kind_withLinks]
    exact h.mark
  · rw [hall, links_withLinks, kind_withLinks, ← hlen]
    exact Page.bytesAt_written_self hi
  · rw [hall, body_withLinks, Page.bytesAt_written_of_apart hi (.inr (by rw [hlen]; exact Nat.le_refl 35))]
    exact h.body
  · rw [hall, Page.size_written hi]
    exact fitsIn_withLinks h.fits
  · rw [links_withLinks, width_withLinks, hc]
    exact h.count

/-- A seal leaves the node that a page holds. -/
theorem inPage_alike {node : Node} {q : Page} (h : node.InPage page) (hs : 64 ≤ page.size)
    (ha : page.Alike q) : node.InPage q := by
  have hs' : 8 ≤ q.size := by
    rw [← ha.1]
    omega
  refine ⟨?_, ?_, ?_, ?_, h.count, h.paired⟩
  · rw [PageHeader.Marks, ← Page.bytesAt_alike (by omega) ha (.inl (by omega))]
    exact h.mark
  · rw [← Page.bytesAt_alike (by omega) ha (.inr (by omega))]
    exact h.links
  · rw [← Page.bytesAt_alike (by omega) ha (.inr (by omega))]
    exact h.body
  · rw [← ha.1]
    exact h.fits

end Node

end RefStore
