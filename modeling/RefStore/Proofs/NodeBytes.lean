import RefStore.Proofs.PageViews

/-!
# Storing nodes and reading them back

A node that fits is stored in any page and read back, and a page that a node was read from holds the
bytes of that node. So writing a node back where it was read clears the seal of the page and changes
nothing else. Main statement: `PageView.roundTrips`.
-/

namespace RefStore

variable {page : Page} {v : PageView}

/-! ## The bytes a node was read from -/

theorem Key.bytes_ofBytes {bs : List UInt8} (h : bs.length = size) : (ofBytes bs).bytes = bs := by
  rw [size] at h
  have hcollection : (bs.take 8).length = Word.width CollectionId := by simp [Word.width, h]
  have hcluster : ((bs.drop 8).take 4).length = Word.width Int32 := by simp [Word.width, h]
  have hposition : ((bs.drop 12).take 8).length = Word.width Int64 := by simp [Word.width, h]
  rw [bytes, ofBytes, Word.bytes_ofBytes _ hcollection, Word.bytes_ofBytes _ hcluster,
    Word.bytes_ofBytes _ hposition]
  have h₁ : bs.take 12 = bs.take 8 ++ (bs.drop 8).take 4 := List.take_add (i := 8) (j := 4)
  have h₂ : bs.take 20 = bs.take 12 ++ (bs.drop 12).take 8 := List.take_add (i := 12) (j := 8)
  rw [← h₁, ← h₂, ← h, List.take_length]

theorem Leaf.flatMap_entriesOfBytes {n : Nat} {bs : List UInt8} (h : bs.length = 24 * n) :
    (entriesOfBytes n bs).flatMap entryBytes = bs ∧ (entriesOfBytes n bs).length = n := by
  induction n generalizing bs with
  | zero =>
    rw [List.length_eq_zero_iff.mp h]
    exact ⟨rfl, rfl⟩
  | succ n ih =>
    have hdrop : (bs.drop 24).length = 24 * n := by
      rw [List.length_drop]
      omega
    obtain ⟨hrest, hlen⟩ := ih hdrop
    have hkey : (bs.take 20).length = Key.size := by simp [Key.size, h]; omega
    have hvalue : ((bs.drop 20).take 4).length = Word.width Int32 := by simp [Word.width, h]; omega
    rw [entriesOfBytes, List.flatMap_cons, hrest, entryBytes, Key.bytes_ofBytes hkey,
      Word.bytes_ofBytes _ hvalue, List.length_cons, hlen]
    have hfront : bs.take 24 = bs.take 20 ++ (bs.drop 20).take 4 := List.take_add (i := 20) (j := 4)
    rw [← hfront, List.take_append_drop]
    exact ⟨rfl, rfl⟩

theorem Branch.pairBytes_pairsOfBytes {n : Nat} {bs : List UInt8} (h : bs.length = 28 * n) :
    pairBytes ((pairsOfBytes n bs).map Prod.fst) ((pairsOfBytes n bs).map Prod.snd) = bs ∧
      (pairsOfBytes n bs).length = n := by
  induction n generalizing bs with
  | zero =>
    rw [List.length_eq_zero_iff.mp h]
    exact ⟨rfl, rfl⟩
  | succ n ih =>
    have hdrop : (bs.drop 28).length = 28 * n := by
      rw [List.length_drop]
      omega
    obtain ⟨hrest, hlen⟩ := ih hdrop
    have hkey : (bs.take 20).length = Key.size := by simp [Key.size, h]; omega
    have hchild : ((bs.drop 20).take 8).length = Word.width PageIndex := by simp [Word.width, h]; omega
    rw [pairsOfBytes, List.map_cons, List.map_cons, pairBytes, List.headD_cons, List.tail_cons, hrest,
      Key.bytes_ofBytes hkey, Word.bytes_ofBytes _ hchild, List.length_cons, hlen]
    have hfront : bs.take 28 = bs.take 20 ++ (bs.drop 20).take 8 := List.take_add (i := 20) (j := 8)
    rw [← hfront, List.take_append_drop]
    exact ⟨rfl, rfl⟩

theorem NodeKind.code_of_ofCode? {b : UInt8} {kind : NodeKind} (h : ofCode? b = some kind) :
    kind.code = b := by
  rw [ofCode?] at h
  repeat' split at h
  all_goals cases h
  all_goals simp only [code, *]

theorem NodeLinks.stored_of_read {kind : NodeKind} {links : NodeLinks} (h : read page = .ok (kind, links)) :
    PageHeader.Marks kind.pageKind page ∧ page.bytesAt 8 27 = (links.write kind).bytes := by
  obtain ⟨code, hcode, h⟩ := Checked.bind_eq_ok_iff.mp h
  split at h
  · cases h
  · next kind' hkind =>
    obtain ⟨_, hmark, h⟩ := Checked.bind_eq_ok_iff.mp h
    obtain ⟨count, hcount, h⟩ := Checked.bind_eq_ok_iff.mp h
    obtain ⟨parent, hparent, h⟩ := Checked.bind_eq_ok_iff.mp h
    obtain ⟨previous, hprevious, h⟩ := Checked.bind_eq_ok_iff.mp h
    obtain ⟨next, hnext, h⟩ := Checked.bind_eq_ok_iff.mp h
    cases h
    have hfirst : page.bytesAt 8 1 = [kind.code] := by
      rw [NodeKind.code_of_ofCode? hkind]
      exact (Page.bytesAt_of_word hcode).trans (by simp [Word.bytes, Word.width, littleEndian, Word.toNat])
    constructor
    · exact PageHeader.marks_of_expect (Checked.mapError_eq_ok_iff.mp hmark)
    · have hcount := Page.bytesAt_of_word hcount
      have hparent := Page.bytesAt_of_word hparent
      have hprevious := Page.bytesAt_of_word hprevious
      have hnext := Page.bytesAt_of_word hnext
      simp only [Word.width] at hcount hparent hprevious hnext
      rw [Page.bytesAt_add page 8 19 8, Page.bytesAt_add page 8 11 8, Page.bytesAt_add page 8 3 8,
        Page.bytesAt_add page 8 1 2, hfirst, hcount, hparent, hprevious, hnext]
      rfl

namespace Node

theorem leaf_inPage_of_read {l : Leaf} (h : Leaf.read page = .ok l) : (leaf l).InPage page := by
  obtain ⟨⟨kind, links⟩, hlinks, h⟩ := Checked.bind_eq_ok_iff.mp h
  dsimp only at h
  split at h
  · cases h
  · next hkind =>
    split at h
    · cases h
    · next hfits =>
      obtain rfl : kind = .leaf := not_not.mp hkind
      obtain ⟨block, hblock, h⟩ := Checked.bind_eq_ok_iff.mp h
      cases h
      obtain ⟨hmark, hlinks⟩ := NodeLinks.stored_of_read hlinks
      obtain ⟨hin, hbytes⟩ := Page.toList_of_slice hblock
      have hlen : (Block.toList block).length = 24 * links.count.toNat := by
        rw [hbytes, Page.length_bytesAt hin]
      obtain ⟨hbody, hwidth⟩ := Leaf.flatMap_entriesOfBytes hlen
      constructor
      case mark => exact hmark
      case links => exact hlinks
      case body =>
        simp only [body, Leaf.body, hbody, hlen]
        exact hbytes.symm
      case fits =>
        rw [FitsIn, hwidth]
        exact Nat.le_of_not_lt hfits
      case count => exact hwidth.symm
      case paired => trivial

theorem branch_inPage_of_read {b : Branch} (h : Branch.read page = .ok b) : (branch b).InPage page := by
  obtain ⟨⟨kind, links⟩, hlinks, h⟩ := Checked.bind_eq_ok_iff.mp h
  dsimp only at h
  split at h
  · cases h
  · next hkind =>
    obtain ⟨first, hfirst, h⟩ := Checked.bind_eq_ok_iff.mp h
    split at h
    · cases h
    · next hfits =>
      obtain rfl : kind = .branch := not_not.mp hkind
      obtain ⟨block, hblock, h⟩ := Checked.bind_eq_ok_iff.mp h
      cases h
      obtain ⟨hmark, hlinks⟩ := NodeLinks.stored_of_read hlinks
      obtain ⟨hin, hbytes⟩ := Page.toList_of_slice hblock
      have hlen : (Block.toList block).length = 28 * links.count.toNat := by
        rw [hbytes, Page.length_bytesAt hin]
      obtain ⟨hbody, hwidth⟩ := Branch.pairBytes_pairsOfBytes hlen
      have hchild := Page.bytesAt_of_word hfirst
      constructor
      case mark => exact hmark
      case links => exact hlinks
      case body =>
        simp only [body, Branch.length_body, List.length_map, hwidth]
        rw [Page.bytesAt_add, Branch.body, List.headD_cons, List.tail_cons, hbody, hbytes]
        exact congrArg (· ++ _) hchild
      case fits =>
        rw [FitsIn, List.length_map, hwidth]
        exact Nat.le_of_not_lt hfits
      case count => exact ((List.length_map _).trans hwidth).symm
      case paired => simp [Paired]

/-- The page that a node was read from holds the bytes of the node. -/
theorem inPage_of_read {node : Node} (h : read page = .ok node) : node.InPage page := by
  obtain ⟨⟨kind, links⟩, _, h⟩ := Checked.bind_eq_ok_iff.mp h
  cases kind with
  | branch =>
    obtain ⟨b, hb, h⟩ := Checked.bind_eq_ok_iff.mp h
    cases h
    exact branch_inPage_of_read hb
  | leaf =>
    obtain ⟨l, hl, h⟩ := Checked.bind_eq_ok_iff.mp h
    cases h
    exact leaf_inPage_of_read hl

theorem counted_inPage {node : Node} (h : node.InPage page) : node.counted = node := by
  rw [counted, ← h.count, UInt16.ofNat_toNat]
  cases node <;> rfl

/-- A node that is written where it stands puts a fresh header on the page, and that is all. -/
theorem writtenAll_stores {node : Node} (h : node.InPage page) (hs : 64 ≤ page.size) :
    page.writtenAll node.stores = page.written (PageHeader.fresh node.kind.pageKind) := by
  have hin := stores_inside h.fits hs
  have hroom := length_body_le h.fits hs
  set header := PageHeader.fresh node.kind.pageKind with hheader
  have hinside : Page.Inside page.size header := hin _ (by simp [stores, hheader])
  have hsize : (page.written header).size = page.size := Page.size_written hinside
  have hend : header.offset + header.bytes.length = 8 := by rw [hheader, PageHeader.length_fresh]; rfl
  have hlength := NodeLinks.length_write node.kind node.links
  have hlinks : (page.written header).written (node.links.write node.kind) = page.written header := by
    have hroomy := hin (node.counted.links.write node.kind) (by simp [stores])
    rw [counted_inPage h] at hroomy
    apply Page.written_eq_self
    · rw [hsize]
      exact hroomy
    · have hoffset : (node.links.write node.kind).offset = 8 := rfl
      rw [hlength, hoffset, Page.bytesAt_written_of_apart hinside (.inr (Nat.le_of_eq hend))]
      exact h.links
  have hbody : (page.written header).written ⟨nodeDataOffset, node.body⟩ = page.written header := by
    apply Page.written_eq_self
    · rw [hsize]
      exact hroom
    · have hapart : header.offset + header.bytes.length ≤ nodeDataOffset := by
        rw [hend]
        decide
      rw [Page.bytesAt_written_of_apart hinside (.inr hapart)]
      exact h.body
  rw [Page.writtenAll, stores, counted_inPage h, List.foldl_cons, List.foldl_cons, List.foldl_cons,
    List.foldl_nil, hlinks, hbody]

theorem writes_full {node : Node} {size : Nat} (h : ¬ node.FitsIn size) (hs : 64 ≤ size) :
    node.writes size = refuse .full := by
  cases node with
  | branch b =>
    have h₁ : ¬ size < nodeDataOffset + 8 := by simp only [nodeDataOffset]; omega
    have h₂ : b.isOverfull size = true := decide_eq_true (Nat.lt_of_not_le h)
    simp only [writes, Branch.writes, h₁, if_false, h₂]
    rfl
  | leaf l =>
    have h₁ : ¬ size < nodeDataOffset := by simp only [nodeDataOffset]; omega
    have h₂ : l.isOverfull size = true := decide_eq_true (Nat.lt_of_not_le h)
    simp only [writes, Leaf.writes, h₁, if_false, h₂]
    rfl

end Node

/-- A fresh header on a page of its kind clears the seal and the reserved bytes. -/
theorem PageHeader.agreeOutside_fresh {kind : PageKind} (h : Marks kind page) (hs : 8 ≤ page.size) :
    page.AgreeOutside (Set.Ico 1 8) (page.written (fresh kind)) ∧
      (page.written (fresh kind)).bytesAt 1 7 = List.replicate 7 0 := by
  have hin : Page.Inside page.size (fresh kind) := by
    rw [Page.Inside, length_fresh]
    simpa [fresh] using hs
  refine ⟨⟨(Page.size_written hin).symm, ?_⟩, ?_⟩
  · intro i hi
    rw [Page.getElem?_written hin, length_fresh]
    split
    · next hlt =>
      obtain rfl : i = 0 := by
        rw [Set.mem_Ico] at hi
        simp only [fresh] at hlt
        omega
      have hfirst := Page.getElem?_bytesAt page 0 1 0
      rw [h] at hfirst
      exact hfirst.symm
    · rfl
  · have hrest := Page.bytesAt_bytesAt (page.written (fresh kind)) 0 (show 1 + 7 ≤ 8 by omega)
    rw [bytesAt_fresh page hs] at hrest
    refine hrest.trans ?_
    simp [fresh, bytes, Word.bytes, littleEndian, Word.width, Word.toNat]

namespace PageView

/-- Write a node to a page. -/
def store (node : Node) : Task PageView NodeError Unit :=
  edit fun page => do return ((), ← node.writes page.size)

theorem store_gives {node : Node} (h : node.FitsIn v.page.size) (hs : 64 ≤ v.page.size) :
    ∃ v', (store node).Gives v () v' ∧ v'.page = v.page.writtenAll node.stores := by
  apply edit_gives
  · rw [Node.writes_eq h hs]
    rfl
  · exact Node.stores_inside h hs

theorem store_reads {node : Node} (hfits : node.FitsIn v.page.size) (hpaired : node.Paired)
    (hs : 64 ≤ v.page.size) (hmax : v.page.size ≤ 65536) :
    ∃ v', (store node).Gives v () v' ∧ Node.read v'.page = .ok node.counted ∧
      node.counted.links.count.toNat = node.width := by
  obtain ⟨v', hg, hp⟩ := store_gives hfits hs
  have hstored := Node.inPage_writtenAll hfits hpaired hs hmax
  have hsize := Page.size_writtenAll (Node.stores_inside hfits hs)
  rw [← hp] at hstored hsize
  refine ⟨v', hg, ?_, ?_⟩
  · apply Node.read_inPage hstored
    rw [hsize]
    exact hs
  · rw [hstored.count, Node.counted, Node.width_withLinks]

theorem store_full {node : Node} (hfull : ¬ node.FitsIn v.page.size) (hs : 64 ≤ v.page.size) :
    (store node).start v = (refuse .full, v) := by
  apply edit_fails
  rw [Node.writes_full hfull hs]
  rfl

theorem store_back {node : Node} (hread : Node.read v.page = .ok node) (hs : 64 ≤ v.page.size) :
    ∃ v', (store node).Gives v () v' ∧ v.page.AgreeOutside (Set.Ico 1 8) v'.page ∧
      v'.page.bytesAt 1 7 = List.replicate 7 0 := by
  have hin := Node.inPage_of_read hread
  obtain ⟨v', hg, hp⟩ := store_gives hin.fits hs
  rw [Node.writtenAll_stores hin hs] at hp
  refine ⟨v', hg, ?_⟩
  rw [hp]
  exact PageHeader.agreeOutside_fresh hin.mark (by omega)

/-- How nodes are stored on a page: one that fits is read back with its number of keys noted, one that
does not is refused, and one that was read there is written back with a cleared seal and no other
change. -/
structure RoundTrips (v : PageView) : Prop where
  stored : ∀ node : Node, node.Paired → node.FitsIn v.page.size → ∃ v', (store node).Gives v () v' ∧
    Node.read v'.page = .ok node.counted ∧ node.counted.links.count.toNat = node.width
  full : ∀ node : Node, ¬ node.FitsIn v.page.size → (store node).start v = (refuse .full, v)
  back : ∀ node : Node, Node.read v.page = .ok node → ∃ v', (store node).Gives v () v' ∧
    v.page.AgreeOutside (Set.Ico 1 8) v'.page ∧ v'.page.bytesAt 1 7 = List.replicate 7 0

/-- Nodes round-trip through every page of a size that the settings allow. -/
theorem roundTrips {s : Settings} (valid : s.validate = .ok ()) (pages : v.page.size = s.pageSize) :
    v.RoundTrips := by
  obtain ⟨hmin, hmax⟩ := size_bounds valid pages
  have hs : 64 ≤ v.page.size := by omega
  constructor
  case stored => exact fun _ hpaired hfits => store_reads hfits hpaired hs hmax
  case full => exact fun _ hfull => store_full hfull hs
  case back => exact fun _ hread => store_back hread hs

/-- The smallest page takes a leaf of 41 entries and none of 42. -/
theorem roundTrips_full :
    (∃ v', (store (.leaf ⟨.fresh 7, List.replicate 41 ⟨⟨3, 2, 1⟩, 5⟩⟩)).Gives (.plain (.zero 1024)) () v' ∧
      Node.read v'.page = .ok (.leaf ⟨⟨41, 7, 0, 0⟩, List.replicate 41 ⟨⟨3, 2, 1⟩, 5⟩⟩)) ∧
    (store (.leaf ⟨.fresh 7, List.replicate 42 ⟨⟨3, 2, 1⟩, 5⟩⟩)).start (.plain (.zero 1024)) =
      (refuse .full, .plain (.zero 1024)) := by
  have valid : (⟨"", 1024, 1, false⟩ : Settings).validate = .ok () := rfl
  have hsize : (plain (.zero 1024)).page.size = 1024 := Page.size_zero 1024
  have h := roundTrips valid hsize
  constructor
  · obtain ⟨v', hg, hread, -⟩ := h.stored (.leaf ⟨.fresh 7, List.replicate 41 ⟨⟨3, 2, 1⟩, 5⟩⟩) trivial
      (by simp [hsize, Node.FitsIn, Leaf.capacity])
    exact ⟨v', hg, hread⟩
  · exact h.full _ (by simp [hsize, Node.FitsIn, Leaf.capacity])

end PageView

end RefStore
