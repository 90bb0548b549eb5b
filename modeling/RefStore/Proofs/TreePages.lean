import Mathlib.Data.List.Forall2
import Mathlib.Logic.Function.Basic
import RefStore.Proofs.NodePages
import RefStore.Proofs.Transactions
import RefStore.Tree.Update

/-!
# Pages of a tree as nodes

A sheet lists the nodes in the pages of a tree file. The tasks that read and write single nodes read
and change the sheet that a transaction shows.
-/

namespace RefStore

/-- The bytes of a page are those of a tree's meta data. -/
structure TreeMeta.InPage (m : TreeMeta) (page : Page) : Prop where
  mark : PageHeader.Marks .treeMeta page
  fields : page.bytesAt 8 16 = Word.bytes m.root ++ Word.bytes m.count

namespace TreeMeta

variable {m : TreeMeta} {page : Page}

theorem read_inPage (h : m.InPage page) (hs : 64 ≤ page.size) : read page = .ok m := by
  have hroot : page.bytesAt 8 8 = Word.bytes m.root := by
    have := Page.bytesAt_bytesAt page 8 (show 0 + 8 ≤ 16 by omega)
    rw [h.fields] at this
    exact this.trans rfl
  have hcount : page.bytesAt 16 8 = Word.bytes m.count := by
    have := Page.bytesAt_bytesAt page 8 (show 8 + 8 ≤ 16 by omega)
    rw [h.fields] at this
    exact this.trans rfl
  have w₁ : (page.word PageIndex 8 : Checked PageError PageIndex) = .ok m.root :=
    Page.word_of_bytesAt hroot (by simp only [Word.width]; omega)
  have w₂ : (page.word UInt64 16 : Checked PageError UInt64) = .ok m.count :=
    Page.word_of_bytesAt hcount (by simp only [Word.width]; omega)
  simp only [read, PageHeader.expect_eq h.mark (by omega), if_true, bind, Except.bind, w₁, w₂]
  rfl

theorem writes_inside (m : TreeMeta) {size : Nat} (hs : 64 ≤ size) :
    ∀ w ∈ m.writes, Page.Inside size w := by
  intro w hw
  simp only [writes, List.mem_cons, List.not_mem_nil, or_false] at hw
  obtain rfl | rfl := hw <;>
    simp only [Page.Inside, Write.word, Word.length_bytes, Word.width] <;> omega

/-- Written over any page of the right kind, the meta data are stored there. -/
theorem inPage_writtenAll (m : TreeMeta) (h : PageHeader.Marks .treeMeta page)
    (hs : 64 ≤ page.size) : m.InPage (page.writtenAll m.writes) := by
  have hin := writes_inside m hs
  set root : Write := .word 8 m.root with hr
  set count : Write := .word 16 m.count with hc
  have i₁ : root.offset + root.bytes.length ≤ page.size := hin _ (by simp [writes, hr])
  have i₂ : count.offset + count.bytes.length ≤ (page.written root).size := by
    rw [Page.size_written i₁]
    exact hin _ (by simp [writes, hc])
  have hall : page.writtenAll m.writes = (page.written root).written count := rfl
  have hlr : root.bytes.length = 8 := Word.length_bytes _
  have hlc : count.bytes.length = 8 := Word.length_bytes _
  constructor
  · rw [PageHeader.Marks, hall, Page.bytesAt_written_of_apart i₂ (.inl (by simp [hc, Write.word])),
      Page.bytesAt_written_of_apart i₁ (.inl (by simp [hr, Write.word]))]
    exact h
  · have h₁ : (page.writtenAll m.writes).bytesAt 8 8 = Word.bytes m.root := by
      rw [hall, Page.bytesAt_written_of_apart i₂ (.inl (by simp [hc, Write.word])), ← hlr]
      exact Page.bytesAt_written_self i₁
    have h₂ : (page.writtenAll m.writes).bytesAt 16 8 = Word.bytes m.count := by
      rw [hall, ← hlc]
      exact Page.bytesAt_written_self i₂
    rw [← h₁, ← h₂]
    simp only [Page.bytesAt]
    rw [show 16 = 8 + 8 from rfl, List.take_add, List.drop_drop]

/-- The meta page of a new tree. -/
theorem inPage_fresh (m : TreeMeta) (page : Page) (hs : 64 ≤ page.size) :
    (∀ w ∈ PageHeader.fresh .treeMeta :: m.writes, Page.Inside page.size w) ∧
      m.InPage (page.writtenAll (PageHeader.fresh .treeMeta :: m.writes)) := by
  have hhead : Page.Inside page.size (PageHeader.fresh .treeMeta) := by
    rw [Page.Inside, PageHeader.length_fresh]
    simp only [PageHeader.fresh]
    omega
  refine ⟨fun w hw => ?_, ?_⟩
  · rcases List.mem_cons.mp hw with rfl | hw
    · exact hhead
    · exact m.writes_inside hs w hw
  · have hsize : (page.written (PageHeader.fresh .treeMeta)).size = page.size := Page.size_written hhead
    have hmark := PageHeader.marks_fresh page (by omega) .treeMeta
    rw [Page.writtenAll, List.foldl_cons]
    exact m.inPage_writtenAll hmark (by rw [hsize]; exact hs)

theorem inPage_alike {q : Page} (h : m.InPage page) (hs : 64 ≤ page.size) (ha : page.Alike q) :
    m.InPage q := by
  constructor
  · rw [PageHeader.Marks, ← Page.bytesAt_alike (by omega) ha (.inl (by omega))]
    exact h.mark
  · rw [← Page.bytesAt_alike (by omega) ha (.inr (by omega))]
    exact h.fields

end TreeMeta

namespace Tree

/-- The number of pages of a tree file, its meta data, and the nodes by page. -/
structure Sheet where
  size : Nat
  info : TreeMeta
  node : PageIndex → Option Node

namespace Sheet

def withNode (s : Sheet) (i : PageIndex) (node : Node) : Sheet :=
  { s with node := Function.update s.node i (some node) }

/-- The sheet with a page more at its end. -/
def withPage (s : Sheet) (node : Node) : Sheet :=
  { s.withNode (UInt64.ofNat s.size) node with size := s.size + 1 }

@[simp] theorem size_withNode (s : Sheet) (i : PageIndex) (node : Node) :
    (s.withNode i node).size = s.size := rfl

@[simp] theorem info_withNode (s : Sheet) (i : PageIndex) (node : Node) :
    (s.withNode i node).info = s.info := rfl

@[simp] theorem size_withPage (s : Sheet) (node : Node) : (s.withPage node).size = s.size + 1 := rfl

@[simp] theorem info_withPage (s : Sheet) (node : Node) : (s.withPage node).info = s.info := rfl

theorem node_withNode (s : Sheet) (i j : PageIndex) (node : Node) :
    (s.withNode i node).node j = if j = i then some node else s.node j :=
  Function.update_apply s.node i (some node) j

theorem node_withPage (s : Sheet) (j : PageIndex) (node : Node) :
    (s.withPage node).node j = if j = UInt64.ofNat s.size then some node else s.node j :=
  Function.update_apply s.node _ (some node) j

/-- Whether pages hold what the sheet says. -/
structure On (s : Sheet) (pages : List Page) : Prop where
  size : pages.length = s.size
  info : ∃ p, pages[0]? = some p ∧ s.info.InPage p
  node : ∀ i n, s.node i = some n → i ≠ 0 ∧ ∃ p, pages[i.toNat]? = some p ∧ n.InPage p

/-- Seals do not matter. -/
theorem On.alike {s : Sheet} {pages qages : List Page} (h : s.On pages)
    (hs : ∀ p ∈ pages, 64 ≤ p.size) (ha : List.Forall₂ Page.Alike pages qages) : s.On qages := by
  refine ⟨ha.length_eq ▸ h.size, ?_, fun i n hn => ?_⟩
  · obtain ⟨p, hp, hm⟩ := h.info
    obtain ⟨q, hq, hpq⟩ := Page.Alike.getElem? ha hp
    exact ⟨q, hq, TreeMeta.inPage_alike hm (hs p (List.mem_of_getElem? hp)) hpq⟩
  · obtain ⟨h0, p, hp, hm⟩ := h.node i n hn
    obtain ⟨q, hq, hpq⟩ := Page.Alike.getElem? ha hp
    exact ⟨h0, q, hq, Node.inPage_alike hm (hs p (List.mem_of_getElem? hp)) hpq⟩

/-- Pages with one of them rewritten hold the sheet with the new node. -/
theorem On.set {s : Sheet} {pages : List Page} {i : PageIndex} {node : Node} {p : Page} (hs : s.On pages)
    (h0 : i ≠ 0) (hi : i.toNat < s.size) (hp : node.InPage p) :
    (s.withNode i node).On (pages.set i.toNat p) := by
  have hlt : i.toNat < pages.length := hs.size ▸ hi
  have hz : (0 : Nat) ≠ i.toNat := fun h => h0 (UInt64.toNat_inj.mp h.symm)
  refine ⟨by rw [List.length_set]; exact hs.size, ?_, fun j n hn => ?_⟩
  · rw [List.getElem?_set_ne hz.symm]
    exact hs.info
  · rw [Sheet.node_withNode] at hn
    split at hn
    · next heq =>
      obtain rfl := Option.some.inj hn
      subst heq
      exact ⟨h0, p, List.getElem?_set_self hlt, hp⟩
    · next hne =>
      rw [List.getElem?_set_ne fun heq => hne (UInt64.toNat_inj.mp heq.symm)]
      exact hs.node j n hn

end Sheet

/-- A transaction shows a tree file with the nodes of a sheet. -/
structure Shows (t : Transaction) (file : FileId) (base : List Page) (s : Sheet) : Prop where
  pages : ∃ pages, t.Shows file base pages ∧ s.On pages
  room : 64 ≤ t.mounted.volume.pageSize
  limit : t.mounted.volume.pageSize ≤ 65536

namespace Shows

variable {t : Transaction} {file : FileId} {base : List Page} {s : Sheet}

theorem pageCount (h : Shows t file base s) :
    (Transaction.pageCount file).Gives t (UInt64.ofNat s.size) t := by
  obtain ⟨pages, hp, hs⟩ := h.pages
  rw [← hs.size]
  exact hp.pageCount

theorem size_lt (h : Shows t file base s) : s.size < UInt64.size := by
  obtain ⟨pages, hp, hs⟩ := h.pages
  rw [← hs.size]
  exact hp.drafts.bound

theorem size_toNat (h : Shows t file base s) : (UInt64.ofNat s.size).toNat = s.size :=
  UInt64.toNat_ofNat_of_lt' h.size_lt

theorem node_lt (h : Shows t file base s) {i : PageIndex} {n : Node} (hn : s.node i = some n) :
    i.toNat < s.size := by
  obtain ⟨pages, hp, hs⟩ := h.pages
  obtain ⟨-, p, hpi, -⟩ := hs.node i n hn
  rw [← hs.size]
  exact (List.getElem?_eq_some_iff.mp hpi).1

theorem node_ne_zero (h : Shows t file base s) {i : PageIndex} {n : Node} (hn : s.node i = some n) :
    i ≠ 0 := by
  obtain ⟨pages, hp, hs⟩ := h.pages
  exact (hs.node i n hn).1

theorem size_pos (h : Shows t file base s) : 0 < s.size := by
  obtain ⟨pages, hp, hs⟩ := h.pages
  obtain ⟨p, hp0, -⟩ := hs.info
  rw [← hs.size]
  exact (List.getElem?_eq_some_iff.mp hp0).1

/-- The page of a node. -/
theorem page (h : Shows t file base s) {i : PageIndex} {n : Node} (hn : s.node i = some n) :
    ∃ p, (Transaction.loadPage file i).Gives t p t ∧ n.InPage p ∧ 64 ≤ p.size := by
  obtain ⟨pages, hp, hs⟩ := h.pages
  obtain ⟨-, p, hpi, hin⟩ := hs.node i n hn
  exact ⟨p, hp.loadPage hpi, hin, by rw [hp.size_page hpi]; exact h.room⟩

theorem readMeta (h : Shows t file base s) : (readMeta file).Gives t s.info t := by
  obtain ⟨pages, hp, hs⟩ := h.pages
  obtain ⟨p, hp0, hin⟩ := hs.info
  have hsize : 64 ≤ p.size := by
    rw [hp.size_page (i := 0) hp0]
    exact h.room
  have hread : ((TreeMeta.read p).mapError .page : Checked NodeError TreeMeta) = .ok s.info := by
    rw [TreeMeta.read_inPage hin hsize]
    rfl
  exact (hp.loadPage (i := 0) hp0).embed.bind
    (Task.Gives.ofChecked (x := Checked.mapError TreeError.node _) (by rw [hread]; rfl) t)

theorem readLeaf (h : Shows t file base s) {i : PageIndex} {leaf : Leaf}
    (hn : s.node i = some (.leaf leaf)) : (readLeaf file i).Gives t leaf t := by
  obtain ⟨p, hp, hin, hsize⟩ := h.page hn
  exact hp.embed.bind (Task.Gives.ofChecked (x := Checked.mapError TreeError.node _)
    (by rw [Node.leaf_inPage hin hsize]; rfl) t)

theorem readBranch (h : Shows t file base s) {i : PageIndex} {branch : Branch}
    (hn : s.node i = some (.branch branch)) : (readBranch file i).Gives t branch t := by
  obtain ⟨p, hp, hin, hsize⟩ := h.page hn
  exact hp.embed.bind (Task.Gives.ofChecked (x := Checked.mapError TreeError.node _)
    (by rw [Node.branch_inPage hin hsize]; rfl) t)

theorem steps (h : Shows t file base s) : (steps file).Gives t (s.size + 1) t := by
  refine h.pageCount.embed.bind ?_
  rw [h.size_toNat]
  exact .pure _ t

theorem writeNode (h : Shows t file base s) (node : Node) {i : PageIndex} (h0 : i ≠ 0)
    (hi : i.toNat < s.size) (hf : node.FitsIn t.mounted.volume.pageSize) (hpair : node.Paired) :
    ∃ t', (writeNode file i node).Gives t () t' ∧ Transaction.Alters file t t' ∧
      Shows t' file base (s.withNode i node.counted) := by
  obtain ⟨pages, hp, hs⟩ := h.pages
  have hlt : i.toNat < pages.length := hs.size ▸ hi
  have hpi := List.getElem?_eq_getElem hlt
  have hsize := hp.size_page hpi
  have hroom := h.room
  have hlimit := h.limit
  rw [← hsize] at hf hroom hlimit
  obtain ⟨t', hg, ha, hs'⟩ := hp.edit (ε := TreeError) hpi (a := ()) node.stores
    (f := fun page => do
      let writes ← (node.writes page.size).mapError .node
      return ((), writes))
    (by simp only [Node.writes_eq hf hroom]; rfl) (Node.stores_inside hf hroom)
  exact ⟨t', hg, ha, ⟨_, hs', hs.set h0 hi (Node.inPage_writtenAll hf hpair hroom hlimit)⟩,
    ha.mounted ▸ h.room, ha.mounted ▸ h.limit⟩

theorem relink (h : Shows t file base s) {i : PageIndex} {node : Node} (hn : s.node i = some node)
    {f : NodeLinks → NodeLinks} (hc : (f node.links).count = node.links.count) :
    ∃ t', (relink file i f).Gives t () t' ∧ Transaction.Alters file t t' ∧
      Shows t' file base (s.withNode i (node.withLinks (f node.links))) := by
  obtain ⟨pages, hp, hs⟩ := h.pages
  obtain ⟨h0, p, hpi, hin⟩ := hs.node i node hn
  have hroom := h.room
  rw [← hp.size_page hpi] at hroom
  have hread : NodeLinks.read p = .ok (node.kind, node.links) := Node.links_inPage hin hroom
  have hws : ∀ w ∈ [(f node.links).write node.kind], Page.Inside p.size w := by
    intro w hw
    obtain rfl := List.mem_singleton.mp hw
    rw [Page.Inside, NodeLinks.length_write]
    simp only [NodeLinks.write]
    omega
  obtain ⟨t', hg, ha, hs'⟩ := hp.edit (ε := TreeError) hpi (a := ())
    [(f node.links).write node.kind]
    (f := fun page => do
      let link ← (NodeLinks.read page).mapError .node
      return ((), [(f link.2).write link.1]))
    (by simp only [hread]; rfl) hws
  exact ⟨t', hg, ha, ⟨_, hs', hs.set h0 (h.node_lt hn) (Node.inPage_relinked hin hroom hc)⟩,
    ha.mounted ▸ h.room, ha.mounted ▸ h.limit⟩

theorem writeMeta (h : Shows t file base s) (m : TreeMeta) :
    ∃ t', (writeMeta file m).Gives t () t' ∧ Transaction.Alters file t t' ∧
      Shows t' file base { s with info := m } := by
  obtain ⟨pages, hp, hs⟩ := h.pages
  obtain ⟨p, hp0, hin⟩ := hs.info
  have hroom := h.room
  rw [← hp.size_page (i := 0) hp0] at hroom
  obtain ⟨t', hg, ha, hs'⟩ := hp.writePage (i := 0) hp0 (m.writes_inside hroom)
  obtain ⟨hlt, -⟩ := List.getElem?_eq_some_iff.mp hp0
  refine ⟨t', hg.embed, ha, ⟨_, hs', ?_, ?_, fun j n hn => ?_⟩, ha.mounted ▸ h.room,
    ha.mounted ▸ h.limit⟩
  · rw [List.length_set]
    exact hs.size
  · exact ⟨_, List.getElem?_set_self hlt, m.inPage_writtenAll hin.mark hroom⟩
  · obtain ⟨h0, q, hq, hqin⟩ := hs.node j n hn
    refine ⟨h0, q, ?_, hqin⟩
    rw [List.getElem?_set_ne fun heq => h0 (UInt64.toNat_inj.mp heq.symm)]
    exact hq

theorem appendNode (h : Shows t file base s) (node : Node) (hb : s.size + 1 < UInt64.size)
    (hf : node.FitsIn t.mounted.volume.pageSize) (hpair : node.Paired) :
    ∃ t', (appendNode file node).Gives t (UInt64.ofNat s.size) t' ∧ Transaction.Alters file t t' ∧
      Shows t' file base (s.withPage node.counted) := by
  obtain ⟨pages, hp, hs⟩ := h.pages
  rw [← hs.size] at hb
  obtain ⟨t₁, hg₁, ha₁, hs₁⟩ := hp.addPage hb
  have hon : ({ s with size := s.size + 1 } : Sheet).On
      (pages ++ [.zero t.mounted.volume.pageSize]) := by
    refine ⟨by simp [hs.size], ?_, fun j n hn => ?_⟩
    · obtain ⟨p, hp0, hin⟩ := hs.info
      exact ⟨p, by rw [List.getElem?_append_left (List.getElem?_eq_some_iff.mp hp0).1]; exact hp0, hin⟩
    · obtain ⟨h0, q, hq, hqin⟩ := hs.node j n hn
      exact ⟨h0, q, by rw [List.getElem?_append_left (List.getElem?_eq_some_iff.mp hq).1]; exact hq, hqin⟩
  have h₁ : Shows t₁ file base { s with size := s.size + 1 } :=
    ⟨⟨_, hs₁, hon⟩, ha₁.mounted ▸ h.room, ha₁.mounted ▸ h.limit⟩
  have hn : (UInt64.ofNat s.size).toNat = s.size := h.size_toNat
  have h0 : UInt64.ofNat s.size ≠ 0 := by
    intro heq
    have := congrArg UInt64.toNat heq
    rw [hn] at this
    exact absurd this (Nat.ne_of_gt h.size_pos)
  rw [← ha₁.mounted] at hf
  obtain ⟨t₂, hg₂, ha₂, hs₂⟩ := h₁.writeNode node h0 (by rw [hn]; exact Nat.lt_succ_self _) hf hpair
  rw [hs.size] at hg₁
  exact ⟨t₂, hg₁.embed.bind (hg₂.bind (.pure _ t₂)), ha₁.trans ha₂, hs₂⟩

end Shows

end Tree

end RefStore
