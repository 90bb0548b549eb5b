import RefStore.Proofs.TreeIntact

/-!
# Tree files as they are read

An intact tree seen from outside: the pages of a file, read one by one, hold the tree. Main statement:
`Shows.inOrder`.
-/

namespace RefStore

/-- A node that is in order by itself and small enough for a page. -/
def Node.Regular (pageSize : Nat) : Node → Prop
  | leaf l => Entries.InOrder l.entries ∧ l.entries.length ≤ Leaf.capacity pageSize
  | branch b => b.children.length = b.keys.length + 1 ∧ b.keys.Pairwise (· < ·) ∧
      0 < b.keys.length ∧ b.keys.length ≤ Branch.capacity pageSize

theorem Node.regular_alone {pageSize : Nat} {node : Node} :
    node.alone.Regular pageSize ↔ node.Regular pageSize := by
  cases node <;> rfl

namespace Tree

/-- The nodes that are read from the pages of a file after the first one. -/
def nodesIn (pages : List Page) (i : PageIndex) : Option Node :=
  if i = 0 then none else pages[i.toNat]?.bind fun page => (Node.read page).toOption

/-- The pages of a file as a transaction loads them hold a tree in order. -/
structure InOrder (t : Transaction) (file : FileId) (pages : List Page) (info : TreeMeta) {h : Nat}
    (b : Shape h) : Prop where
  count : (Transaction.pageCount file).Gives t (UInt64.ofNat pages.length) t
  fewer : pages.length < UInt64.size
  load : ∀ (i : PageIndex) p, pages[i.toNat]? = some p → (Transaction.loadPage file i).Gives t p t
  header : ∃ p, pages[0]? = some p ∧ TreeMeta.read p = .ok info
  intact : Intact t.mounted.volume.pageSize ⟨pages.length, info, nodesIn pages⟩ b
  nodes : ∀ i : PageIndex, i ≠ 0 → i.toNat < pages.length →
    ∃ node, nodesIn pages i = some node ∧ node.Regular t.mounted.volume.pageSize
  entries : Entries.InOrder b.entries

namespace Shape

variable {h : Nat}

theorem regular {pageSize : Nat} {node : PageIndex → Option Node} {parent : PageIndex}
    {lo hi : Option Key} {b : Shape h} (hs : b.Stored node parent) (ho : b.Ordered lo hi)
    (hf : b.Fits pageSize) : ∀ i ∈ b.pages, ∃ n, node i = some n ∧ n.Regular pageSize := by
  induction h generalizing parent lo hi with
  | zero =>
    intro i hi
    obtain rfl := List.mem_singleton.mp hi
    exact ⟨_, hs, ho.2.1, hf⟩
  | succ h ih =>
    obtain ⟨hroot, hcs⟩ := stored_branch.mp hs
    obtain ⟨hpos, hfew, hcf⟩ := fits_branch.mp hf
    have hsp := ordered_branch.mp ho
    intro i hi
    rcases List.mem_cons.mp hi with rfl | hi
    · refine ⟨_, hroot, ?_, hsp.keys_pairwise Ordered.span, hpos, hfew⟩
      rw [List.length_map]
      exact hsp.length
    · obtain ⟨c, hc, hi⟩ := List.mem_flatMap.mp hi
      obtain ⟨l, u, hP⟩ := hsp.exists_of_mem c hc
      exact ih (hcs c hc) hP (hcf c hc) i hi

end Shape

/-- A sheet whose nodes are all there is what is read from the pages. -/
theorem Sheet.eq_nodesIn {s : Sheet} {pages : List Page} (hon : s.On pages)
    (hroom : ∀ p ∈ pages, 64 ≤ p.size)
    (hall : ∀ i : PageIndex, i ≠ 0 → i.toNat < pages.length → ∃ n, s.node i = some n) :
    s = ⟨pages.length, s.info, nodesIn pages⟩ := by
  have hnode : s.node = nodesIn pages := by
    funext i
    rw [nodesIn]
    by_cases h0 : i = 0
    · rw [if_pos h0]
      cases hn : s.node i with
      | none => rfl
      | some n => exact absurd h0 (hon.node i n hn).1
    · rw [if_neg h0]
      by_cases hi : i.toNat < pages.length
      · obtain ⟨n, hn⟩ := hall i h0 hi
        obtain ⟨-, p, hp, hin⟩ := hon.node i n hn
        rw [hn, hp, Option.bind_some, Node.read_inPage hin (hroom p (List.mem_of_getElem? hp))]
        rfl
      · rw [List.getElem?_eq_none (Nat.le_of_not_lt hi), Option.bind_none]
        cases hn : s.node i with
        | none => rfl
        | some n =>
          obtain ⟨-, p, hp, -⟩ := hon.node i n hn
          exact absurd (List.getElem?_eq_some_iff.mp hp).1 hi
  rw [← hnode, hon.size]

theorem Shows.inOrder {t : Transaction} {file : FileId} {base : List Page} {s : Sheet} {h : Nat}
    {b : Shape h} (hs : Shows t file base s) (hb : Intact t.mounted.volume.pageSize s b) :
    ∃ pages, InOrder t file pages s.info b := by
  obtain ⟨pages, hp, hon⟩ := hs.pages
  have hroom : ∀ p ∈ pages, 64 ≤ p.size := by
    intro p hm
    rw [hp.drafts.sizes p hm]
    exact hs.room
  have hplain : ∀ i : PageIndex, i ≠ 0 → i.toNat < pages.length →
      ∃ n, s.plain i = some n ∧ n.Regular t.mounted.volume.pageSize := by
    intro i h0 hi
    have hpos : 1 ≤ i.toNat := Nat.pos_of_ne_zero fun h => h0 (UInt64.toNat_inj.mp h)
    have hmem := mem_freshPages hpos (hon.size ▸ hi)
    rw [UInt64.ofNat_toNat] at hmem
    exact Shape.regular hb.stored hb.ordered hb.fits i (hb.pages.mem_iff.mpr hmem)
  have heq : s = ⟨pages.length, s.info, nodesIn pages⟩ := by
    refine Sheet.eq_nodesIn hon hroom fun i h0 hi => ?_
    obtain ⟨_, hn, -⟩ := hplain i h0 hi
    obtain ⟨n, hn, -⟩ := Sheet.plain_eq_some hn
    exact ⟨n, hn⟩
  obtain ⟨p, hp0, hmeta⟩ := hon.info
  refine ⟨pages, hp.pageCount, hp.drafts.bound, fun i p hi => hp.loadPage hi,
    ⟨p, hp0, TreeMeta.read_inPage hmeta (hroom p (List.mem_of_getElem? hp0))⟩, heq ▸ hb,
    fun i h0 hi => ?_, hb.ordered.entries.1⟩
  obtain ⟨_, hn, hr⟩ := hplain i h0 hi
  obtain ⟨n, hn', rfl⟩ := Sheet.plain_eq_some hn
  have hnode : nodesIn pages = s.node := by rw [heq]
  exact ⟨n, hnode ▸ hn', Node.regular_alone.mp hr⟩

namespace InOrder

variable {t : Transaction} {tree : Tree} {pages : List Page} {info : TreeMeta} {h : Nat} {b : Shape h}

/-- The first page tells how many entries there are. -/
theorem entryCount (ho : InOrder t tree.component.file pages info b) (hatt : tree.component.isAttached) :
    ∃ k : UInt64, tree.entryCount.Gives t k t ∧ k.toNat = b.entries.length := by
  obtain ⟨p, hp, hread⟩ := ho.header
  have hmeta : (readMeta tree.component.file).Gives t info t :=
    (ho.load 0 p hp).embed.bind (Task.Gives.ofChecked (x := Checked.mapError TreeError.node _) (by rw [hread]; rfl) t)
  exact ⟨info.count, (Shows.file_gives hatt t).bind (hmeta.bind (.pure _ t)), ho.intact.count⟩

/-- More entries than a leaf can have stand below branches. -/
theorem height_pos (ho : InOrder t tree.component.file pages info b)
    (hlen : Leaf.capacity t.mounted.volume.pageSize < b.entries.length) : 0 < h := by
  cases h with
  | zero =>
    have hleaf : b.entries = Tip.entries b := Shape.entries_leaf b
    have hfits : (Tip.entries b).length ≤ Leaf.capacity t.mounted.volume.pageSize := ho.intact.fits
    exact absurd hlen (Nat.not_lt.mpr (hleaf ▸ hfits))
  | succ h => exact Nat.succ_pos h

end InOrder

end Tree

end RefStore
