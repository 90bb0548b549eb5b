import RefStore.Proofs.TreeInsertion

/-!
# Intact trees

What holds of a tree file between operations, and what is found in such a tree. Main statements:
`Shows.findLeaf` and `Shows.get`.
-/

namespace RefStore.Tree

/-- Pages that are linked in the order of a list, from the one after `previous` to the one before
`next`. -/
def Linked (neighbours : PageIndex → Option (PageIndex × PageIndex)) :
    (previous : PageIndex) → List PageIndex → (next : PageIndex) → Prop
  | _, [], _ => True
  | previous, p :: ps, next =>
    neighbours p = some (previous, ps.headD next) ∧ Linked neighbours p ps next

section

variable {nb nb' : PageIndex → Option (PageIndex × PageIndex)} {previous next : PageIndex}

theorem Linked.congr {ps : List PageIndex} (h : Linked nb previous ps next)
    (hn : ∀ p ∈ ps, nb' p = nb p) : Linked nb' previous ps next := by
  induction ps generalizing previous with
  | nil => trivial
  | cons p ps ih =>
    exact ⟨(hn p List.mem_cons_self).trans h.1, ih h.2 fun q hq => hn q (List.mem_cons_of_mem _ hq)⟩

theorem linked_append {xs ys : List PageIndex} :
    Linked nb previous (xs ++ ys) next ↔
      Linked nb previous xs (ys.headD next) ∧ Linked nb (xs.getLastD previous) ys next := by
  induction xs generalizing previous with
  | nil => simp [Linked]
  | cons x xs ih =>
    have hhead : (xs ++ ys).headD next = xs.headD (ys.headD next) := by
      cases xs <;> rfl
    have hlast : (x :: xs).getLastD previous = xs.getLastD x := by
      cases xs <;> rfl
    rw [List.cons_append, Linked, Linked, ih, hhead, hlast, and_assoc]

/-- A page put between a page and the one after it. -/
theorem Linked.put {xs ys : List PageIndex} {p added : PageIndex} {before : PageIndex × PageIndex}
    (h : Linked nb previous (xs ++ p :: ys) next) (hnd : (xs ++ p :: ys).Nodup)
    (hadded : added ∉ xs ++ p :: ys) (hp : nb p = some before) (hp' : nb' p = some (before.1, added))
    (ha : nb' added = some (p, before.2))
    (hy : ∀ y ∈ ys.head?, ∀ n, nb y = some n → nb' y = some (added, n.2))
    (hrest : ∀ x, x ≠ p → x ≠ added → x ∉ ys.head? → nb' x = nb x) :
    Linked nb' previous (xs ++ p :: added :: ys) next := by
  obtain ⟨hxs, hpn, hys⟩ := linked_append.mp h
  obtain ⟨hndx, hndp, hdis⟩ := List.nodup_append.mp hnd
  obtain ⟨hpy, hndy⟩ := List.nodup_cons.mp hndp
  obtain rfl : before = (xs.getLastD previous, ys.headD next) := Option.some.inj (hp.symm.trans hpn)
  have head_mem : ∀ {x}, x ∈ ys.head? → x ∈ ys := fun hx => List.mem_of_mem_head? hx
  have hx : ∀ x ∈ xs, nb' x = nb x := by
    intro x hx
    refine hrest x (fun h => hdis x hx p List.mem_cons_self h) ?_ fun hm => ?_
    · rintro rfl
      exact hadded (List.mem_append_left _ hx)
    · exact hdis x hx x (List.mem_cons_of_mem _ (head_mem hm)) rfl
  refine linked_append.mpr ⟨hxs.congr hx, hp', ha, ?_⟩
  cases ys with
  | nil => trivial
  | cons y ys =>
    refine ⟨hy y rfl _ hys.1, hys.2.congr fun x hx => hrest x ?_ ?_ ?_⟩
    · rintro rfl
      exact hpy (List.mem_cons_of_mem _ hx)
    · rintro rfl
      exact hadded (List.mem_append_right _ (List.mem_cons_of_mem _ (List.mem_cons_of_mem _ hx)))
    · rintro ⟨⟩
      exact (List.nodup_cons.mp hndy).1 hx

end

/-- A tree laid out in a file: all pages after the first one store the shape, and the leaves are
linked from left to right. -/
structure Laid (pageSize : Nat) (s : Sheet) {h : Nat} (b : Shape h) : Prop where
  stored : b.Stored s.plain 0
  ordered : b.Ordered none none
  fits : b.Fits pageSize
  pages : b.pages.Perm (freshPages 1 s.size)
  linked : Linked s.neighbours 0 (b.tips.map Tip.page) 0

/-- A tree file in order: the meta data name the root and count the entries. -/
structure Intact (pageSize : Nat) (s : Sheet) {h : Nat} (b : Shape h) : Prop
    extends Laid pageSize s b where
  root : b.page = s.info.root
  count : s.info.count.toNat = b.entries.length

theorem within_none (key : Key) : Within none none key := ⟨nofun, nofun⟩

namespace Shape

variable {h : Nat}

theorem Stored.leaf {node : PageIndex → Option Node} {parent : PageIndex} {b : Shape h} {key : Key}
    {tip : Tip} (hs : b.Stored node parent) (hl : b.LeadsTo key tip) :
    ∃ parent, node tip.page = some (.leaf ⟨.fresh parent, tip.entries⟩) := by
  induction h generalizing parent with
  | zero =>
    obtain rfl : b = Shape.leaf tip := hl
    exact ⟨parent, hs⟩
  | succ h ih =>
    obtain ⟨i, c, -, hc, hl⟩ := hl
    exact ih (hs.2 c (List.mem_of_getElem? hc)) hl

/-- The entries before the leaf for a key are below the key, and those after it are above. -/
theorem Ordered.around {lo hi : Option Key} {b : Shape h} (ho : b.Ordered lo hi) {key : Key}
    (hk : Within lo hi key) {tip : Tip} (hl : b.LeadsTo key tip) :
    ∃ xs ys, b.tips = xs ++ tip :: ys ∧ Entries.InOrder tip.entries ∧
      (∀ e ∈ xs.flatMap Tip.entries, e.key < key) ∧ ∀ e ∈ ys.flatMap Tip.entries, key < e.key := by
  induction h generalizing lo hi with
  | zero =>
    obtain rfl : b = leaf tip := hl
    exact ⟨[], [], rfl, ho.2.1, by simp, by simp⟩
  | succ h ih =>
    obtain ⟨i, c, hlead, hci, hl⟩ := hl
    obtain ⟨c', l, u, hc', hcord, hck, -⟩ := Spaced.focus ho Ordered.span hk hlead
    obtain rfl : c = c' := Option.some.inj (hci.symm.trans hc')
    obtain ⟨hbefore, hafter⟩ := Spaced.sides ho hlead
    obtain ⟨xs, ys, htips, hin, hx, hy⟩ := ih hcord hck hl
    refine ⟨(List.take i (Fork.children b)).flatMap tips ++ xs,
      ys ++ (List.drop (i + 1) (Fork.children b)).flatMap tips, ?_, hin, ?_, ?_⟩
    · refine (flatMap_window hci tips).trans ?_
      rw [htips]
      simp only [List.append_assoc, List.cons_append]
    · intro e he
      rw [List.flatMap_append, List.flatMap_assoc] at he
      rcases List.mem_append.mp he with he | he
      · obtain ⟨d, hd, he⟩ := List.mem_flatMap.mp he
        obtain ⟨l', u', hd', hu⟩ := hbefore d hd
        exact lt_of_lt_of_le ((hd'.entries.2 e he).2 u' rfl) hu
      · exact hx e he
    · intro e he
      rw [List.flatMap_append, List.flatMap_assoc] at he
      rcases List.mem_append.mp he with he | he
      · exact hy e he
      · obtain ⟨d, hd, he⟩ := List.mem_flatMap.mp he
        obtain ⟨l', u', hd', hl'⟩ := hafter d hd
        exact lt_of_lt_of_le hl' ((hd'.entries.2 e he).1 l' rfl)

/-- A branch has at least two children, so there are fewer branches than leaves. -/
theorem pages_lt {pageSize : Nat} {lo hi : Option Key} {b : Shape h} (ho : b.Ordered lo hi)
    (hf : b.Fits pageSize) : b.pages.length + 1 ≤ 2 * b.tips.length := by
  induction h generalizing lo hi with
  | zero => exact Nat.le_refl 2
  | succ h ih =>
    obtain ⟨hpos, -, hcs⟩ := fits_branch.mp hf
    have hlen : (Fork.children b).length = (Fork.keys b).length + 1 := Spaced.length ho
    have hall : ∀ c ∈ Fork.children b, c.pages.length + 1 ≤ 2 * c.tips.length := by
      intro c hc
      obtain ⟨l, u, hP⟩ := Spaced.exists_of_mem ho c hc
      exact ih hP (hcs c hc)
    have sum_le : ∀ cs : List (Shape h), (∀ c ∈ cs, c.pages.length + 1 ≤ 2 * c.tips.length) →
        (cs.flatMap pages).length + cs.length ≤ 2 * (cs.flatMap tips).length := by
      intro cs hcs
      induction cs with
      | nil => simp
      | cons c cs ih =>
        have h₁ := hcs c List.mem_cons_self
        have h₂ := ih fun d hd => hcs d (List.mem_cons_of_mem _ hd)
        simp only [List.flatMap_cons, List.length_append, List.length_cons]
        omega
    have hsum := sum_le _ hall
    have hp : b.pages.length = ((Fork.children b).flatMap pages).length + 1 := rfl
    have ht : b.tips.length = ((Fork.children b).flatMap tips).length := rfl
    omega

theorem tips_sublist (b : Shape h) : (b.tips.map Tip.page).Sublist b.pages := by
  induction h with
  | zero => exact List.Sublist.refl [Tip.page b]
  | succ h ih =>
    have ht : b.tips = (Fork.children b).flatMap tips := tips_branch b
    have hp : b.pages = Fork.page b :: (Fork.children b).flatMap pages := pages_branch b
    rw [ht, hp, List.map_flatMap]
    refine List.Sublist.cons _ ?_
    induction Fork.children b with
    | nil => exact List.Sublist.slnil
    | cons c cs ihc => exact (ih c).append ihc

end Shape

namespace Laid

variable {pageSize h : Nat} {s : Sheet} {b : Shape h}

theorem nodup (hb : Laid pageSize s b) (hs : s.size ≤ UInt64.size) : b.pages.Nodup :=
  hb.pages.nodup_iff.mpr (nodup_freshPages hs)

/-- A leaf has one place only. -/
theorem tips_unique (hb : Laid pageSize s b) (hs : s.size ≤ UInt64.size) {tip : Tip}
    {xs ys xs' ys' : List Tip} (h : b.tips = xs ++ tip :: ys) (h' : b.tips = xs' ++ tip :: ys') :
    xs = xs' ∧ ys = ys' := by
  have hnd : b.tips.Nodup := .of_map _ ((hb.nodup hs).sublist b.tips_sublist)
  rw [h, List.nodup_middle, List.nodup_cons, List.mem_append, not_or] at hnd
  obtain ⟨rfl, -, rfl⟩ := (List.append_cons_inj_of_notMem hnd.1.1 hnd.1.2).mp (h.symm.trans h')
  exact ⟨rfl, rfl⟩

theorem size_eq (hb : Laid pageSize s b) (hpos : 0 < s.size) : s.size = b.pages.length + 1 := by
  rw [hb.pages.length_eq, freshPages, List.length_map, List.length_range']
  omega

/-- There are fewer pages than twice the number of leaves. -/
theorem size_le (hb : Laid pageSize s b) (hpos : 0 < s.size) : s.size ≤ 2 * b.tips.length := by
  rw [hb.size_eq hpos]
  exact Shape.pages_lt hb.ordered hb.fits

theorem height_lt (hb : Laid pageSize s b) (hpos : 0 < s.size) : h + 1 < s.size := by
  rw [hb.size_eq hpos]
  exact Nat.succ_lt_succ hb.ordered.height_lt

end Laid

namespace Shows

variable {t : Transaction} {file : FileId} {base : List Page} {s : Sheet}

theorem descend_leaf (hs : Shows t file base s) {i : PageIndex} {leaf : Leaf}
    (hn : s.node i = some (.leaf leaf)) (choose : Branch → Option PageIndex) (fuel : Nat) :
    (descend file choose (fuel + 1) i).Gives t i t := by
  obtain ⟨p, hp, hin, hsize⟩ := hs.page hn
  refine hp.embed.bind ((Task.Gives.ofChecked (x := Checked.mapError TreeError.node _)
    (by rw [Node.links_inPage hin hsize]; rfl) t).bind ?_)
  exact .pure _ t

theorem descend_branch (hs : Shows t file base s) {i : PageIndex} {branch : Branch}
    (hn : s.node i = some (.branch branch)) {choose : Branch → Option PageIndex} {c : PageIndex}
    (hc : choose branch = some c) (h0 : c ≠ 0) {fuel : Nat} {x : PageIndex}
    (hrest : (descend file choose fuel c).Gives t x t) :
    (descend file choose (fuel + 1) i).Gives t x t := by
  obtain ⟨p, hp, hin, hsize⟩ := hs.page hn
  refine hp.embed.bind ((Task.Gives.ofChecked (x := Checked.mapError TreeError.node _)
    (by rw [Node.links_inPage hin hsize]; rfl) t).bind ?_)
  refine Task.Gives.bind (Task.Gives.ofChecked (x := Checked.mapError TreeError.node _)
    (by rw [Node.branch_inPage hin hsize]; rfl) t) ?_
  rw [hc, Option.getD_some]
  dsimp only
  rw [if_neg h0]
  exact hrest

/-- Going down by a key ends at the leaf for the key. -/
theorem descend (hs : Shows t file base s) {key : Key} {tip : Tip} {h : Nat} {b : Shape h}
    {parent : PageIndex} {lo hi : Option Key} (hstored : b.Stored s.plain parent)
    (hord : b.Ordered lo hi) (hl : b.LeadsTo key tip) {fuel : Nat} (hfuel : h < fuel) :
    (descend file (·.child? key) fuel b.page).Gives t tip.page t := by
  obtain ⟨fuel, rfl⟩ := Nat.exists_eq_add_one_of_ne_zero (Nat.ne_of_gt (Nat.zero_lt_of_lt hfuel))
  induction h generalizing parent lo hi fuel with
  | zero =>
    obtain rfl : b = Shape.leaf tip := hl
    obtain ⟨node, hnode, halone⟩ := Sheet.plain_eq_some (Shape.stored_leaf.mp hstored)
    obtain ⟨links, rfl, -⟩ := Node.alone_leaf halone
    exact hs.descend_leaf hnode _ fuel
  | succ h ih =>
    obtain ⟨hroot, hcs⟩ := Shape.stored_branch.mp hstored
    obtain ⟨node, hnode, halone⟩ := Sheet.plain_eq_some hroot
    obtain ⟨links, rfl, -⟩ := Node.alone_branch halone
    obtain ⟨i, c, hlead, hci, hl⟩ := hl
    have hsp := Shape.ordered_branch.mp hord
    have hchild : (⟨links, Fork.keys b, (Fork.children b).map Shape.page⟩ : Branch).child? key =
        some c.page := by
      rw [Branch.child?, Branch.childIndex_eq (hsp.keys_pairwise Shape.Ordered.span) hlead,
        List.getElem?_map, hci]
      rfl
    have hcm := List.mem_of_getElem? hci
    have hne : c.page ≠ 0 := by
      obtain ⟨n, hn⟩ := (hcs c hcm).exists_node _ c.page_mem_pages
      exact hs.plain_ne_zero hn
    obtain ⟨l, u, hcord⟩ := hsp.exists_of_mem c hcm
    obtain ⟨fuel, rfl⟩ := Nat.exists_eq_add_one_of_ne_zero (n := fuel) (by omega)
    exact hs.descend_branch hnode hchild hne (ih (hcs c hcm) hcord hl fuel (by omega))

variable {h : Nat} {b : Shape h}

theorem findLeaf (hs : Shows t file base s) (hb : Intact t.mounted.volume.pageSize s b) {key : Key}
    {tip : Tip} (hl : b.LeadsTo key tip) :
    (findLeaf file s.info.root key).Gives t tip.page t := by
  have hh := hb.height_lt hs.size_pos
  refine hs.steps.bind ?_
  rw [← hb.root]
  exact hs.descend hb.stored hb.ordered hl (by omega)

/-- The leaf for a key is found and read. Its entries cut at the key are all entries cut at it. -/
theorem exists_leafFor (hs : Shows t file base s) (hb : Intact t.mounted.volume.pageSize s b)
    (key : Key) :
    ∃ tip links xs ys, b.LeadsTo key tip ∧ b.tips = xs ++ tip :: ys ∧
      Entries.InOrder tip.entries ∧ (∀ e ∈ xs.flatMap Tip.entries, e.key < key) ∧
      (∀ e ∈ ys.flatMap Tip.entries, key < e.key) ∧
      s.node tip.page = some (.leaf ⟨links, tip.entries⟩) ∧
      (Tree.findLeaf file s.info.root key).Gives t tip.page t := by
  obtain ⟨tip, hl⟩ := hb.ordered.exists_leadsTo (within_none key)
  obtain ⟨xs, ys, htips, hin, hx, hy⟩ := hb.ordered.around (within_none key) hl
  obtain ⟨parent, hleaf⟩ := hb.stored.leaf hl
  obtain ⟨node, hnode, halone⟩ := Sheet.plain_eq_some hleaf
  obtain ⟨links, rfl, -⟩ := Node.alone_leaf halone
  exact ⟨tip, links, xs, ys, hl, htips, hin, hx, hy, hnode, hs.findLeaf hb hl⟩

theorem cut_tips {xs ys : List Tip} {tip : Tip} (htips : b.tips = xs ++ tip :: ys) {key : Key}
    {below above : List Entry} {old : Option Int32} (hcut : Entries.Cut tip.entries key below old above)
    (hx : ∀ e ∈ xs.flatMap Tip.entries, e.key < key)
    (hy : ∀ e ∈ ys.flatMap Tip.entries, key < e.key) :
    Entries.Cut b.entries key (xs.flatMap Tip.entries ++ below) old
      (above ++ ys.flatMap Tip.entries) := by
  have h := hcut.extend hx hy
  rw [Shape.entries, htips]
  simpa using h

theorem file_gives {tree : Tree} (hatt : tree.component.isAttached) (t : Transaction) :
    tree.file.Gives t tree.component.file t := by
  rw [Tree.file, if_pos hatt]
  exact .pure _ t

/-- The value of a key is the one it has among all entries. -/
theorem get {tree : Tree} (hatt : tree.component.isAttached)
    (hs : Shows t tree.component.file base s) (hb : Intact t.mounted.volume.pageSize s b) (key : Key) :
    ∃ below old above, Entries.Cut b.entries key below old above ∧ (tree.get key).Gives t old t := by
  obtain ⟨tip, links, xs, ys, -, htips, hin, hx, hy, hnode, hfind⟩ := hs.exists_leafFor hb key
  obtain ⟨below, old, above, hcut, hget, -⟩ := Leaf.exists_cut ⟨links, tip.entries⟩ hin key
  refine ⟨_, _, _, cut_tips htips hcut hx hy, (file_gives hatt t).bind (hs.readMeta.bind
    (hfind.bind ((hs.readLeaf hnode).bind ?_)))⟩
  rw [hget]
  exact .pure old t

theorem entryCount {tree : Tree} (hatt : tree.component.isAttached)
    (hs : Shows t tree.component.file base s) : tree.entryCount.Gives t s.info.count t :=
  (file_gives hatt t).bind (hs.readMeta.bind (.pure _ t))

end Shows

end RefStore.Tree
