import RefStore.Proofs.TreeShapes

/-!
# Steps of an insertion

What the steps of an insertion into a tree do to its nodes: taking over children, inserting a key
into a branch, splitting a branch. Nodes are given without what they know of their neighbours, which
these steps do not touch.
-/

namespace RefStore

/-- The node with nothing about its neighbours and its size. -/
def Node.alone (node : Node) : Node := node.withLinks (.fresh node.links.parent)

@[simp] theorem Node.alone_counted (node : Node) : node.counted.alone = node.alone := by
  cases node <;> rfl

theorem Node.alone_adopted (node : Node) (parent : PageIndex) :
    (node.withLinks { node.links with parent }).alone = node.alone.withParent parent := by
  cases node <;> rfl

theorem Node.alone_leaf {node : Node} {parent : PageIndex} {entries : List Entry}
    (h : node.alone = .leaf ⟨.fresh parent, entries⟩) :
    ∃ links, node = .leaf ⟨links, entries⟩ ∧ links.parent = parent := by
  cases node with
  | branch b => cases h
  | leaf l =>
    simp only [alone, withLinks, links, NodeLinks.fresh, Node.leaf.injEq, Leaf.mk.injEq,
      NodeLinks.mk.injEq] at h
    obtain ⟨⟨-, hp, -⟩, rfl⟩ := h
    exact ⟨l.links, rfl, hp⟩

theorem Node.alone_branch {node : Node} {parent : PageIndex} {keys : List Key}
    {children : List PageIndex} (h : node.alone = .branch ⟨.fresh parent, keys, children⟩) :
    ∃ links, node = .branch ⟨links, keys, children⟩ ∧ links.parent = parent := by
  cases node with
  | leaf l => cases h
  | branch b =>
    simp only [alone, withLinks, links, NodeLinks.fresh, Node.branch.injEq, Branch.mk.injEq,
      NodeLinks.mk.injEq] at h
    obtain ⟨⟨-, hp, -⟩, rfl, rfl⟩ := h
    exact ⟨b.links, rfl, hp⟩

namespace Tree

namespace Sheet

def plain (s : Sheet) (i : PageIndex) : Option Node := (s.node i).map Node.alone

/-- The pages before and after the one of a node, by its links. -/
def neighbours (s : Sheet) (i : PageIndex) : Option (PageIndex × PageIndex) :=
  (s.node i).map fun n => (n.links.previous, n.links.next)

theorem plain_withNode (s : Sheet) (i j : PageIndex) (node : Node) :
    (s.withNode i node).plain j = if j = i then some node.alone else s.plain j := by
  rw [plain, node_withNode]
  split <;> rfl

theorem plain_withPage (s : Sheet) (j : PageIndex) (node : Node) :
    (s.withPage node).plain j = if j = UInt64.ofNat s.size then some node.alone else s.plain j := by
  rw [plain, node_withPage]
  split <;> rfl

theorem neighbours_withNode (s : Sheet) (i j : PageIndex) (node : Node) :
    (s.withNode i node).neighbours j =
      if j = i then some (node.links.previous, node.links.next) else s.neighbours j := by
  rw [neighbours, node_withNode]
  split <;> rfl

theorem neighbours_withPage (s : Sheet) (j : PageIndex) (node : Node) :
    (s.withPage node).neighbours j =
      if j = UInt64.ofNat s.size then some (node.links.previous, node.links.next)
      else s.neighbours j := by
  rw [neighbours, node_withPage]
  split <;> rfl

theorem plain_eq_some {s : Sheet} {i : PageIndex} {n : Node} (h : s.plain i = some n) :
    ∃ node, s.node i = some node ∧ node.alone = n := by
  rw [plain, Option.map_eq_some_iff] at h
  exact h

end Sheet

namespace Shows

variable {t : Transaction} {file : FileId} {base : List Page} {s : Sheet}

theorem plain_lt (h : Shows t file base s) {i : PageIndex} {n : Node} (hn : s.plain i = some n) :
    i.toNat < s.size := by
  obtain ⟨node, hnode, -⟩ := Sheet.plain_eq_some hn
  exact h.node_lt hnode

theorem plain_ne_zero (h : Shows t file base s) {i : PageIndex} {n : Node}
    (hn : s.plain i = some n) : i ≠ 0 := by
  obtain ⟨node, hnode, -⟩ := Sheet.plain_eq_some hn
  exact h.node_ne_zero hnode

theorem plain_ne_size (h : Shows t file base s) {i : PageIndex} {n : Node}
    (hn : s.plain i = some n) : i ≠ UInt64.ofNat s.size := by
  rintro rfl
  have := h.plain_lt hn
  rw [h.size_toNat] at this
  exact absurd this (Nat.lt_irrefl _)

theorem adopt (h : Shows t file base s) {i : PageIndex} {n : Node} (hn : s.plain i = some n)
    (parent : PageIndex) :
    ∃ t' s', (adopt file parent i).Gives t () t' ∧ Transaction.Alters file t t' ∧
      Shows t' file base s' ∧ s'.size = s.size ∧ s'.info = s.info ∧
      (∀ j, s'.plain j = if j = i then some (n.withParent parent) else s.plain j) ∧
      ∀ j, s'.neighbours j = s.neighbours j := by
  obtain ⟨node, hnode, rfl⟩ := Sheet.plain_eq_some hn
  obtain ⟨t', hg, ha, hs⟩ := h.relink hnode (f := fun links => { links with parent }) rfl
  refine ⟨t', _, hg, ha, hs, rfl, rfl, fun j => ?_, fun j => ?_⟩
  · rw [Sheet.plain_withNode, Node.alone_adopted]
  · rw [Sheet.neighbours_withNode]
    split
    · next heq =>
      subst heq
      rw [Sheet.neighbours, hnode, Node.links_withLinks]
      rfl
    · rfl

/-- The node before a node is another one. -/
theorem setPrevious (h : Shows t file base s) {i : PageIndex} {node : Node} (hn : s.node i = some node)
    (previous : PageIndex) :
    ∃ t' s', (Tree.relink file i fun links => { links with previous }).Gives t () t' ∧ Transaction.Alters file t t' ∧
      Shows t' file base s' ∧ s'.size = s.size ∧ s'.info = s.info ∧ (∀ j, s'.plain j = s.plain j) ∧
      ∀ j, s'.neighbours j = if j = i then some (previous, node.links.next) else s.neighbours j := by
  obtain ⟨t', hg, ha, hs⟩ := h.relink hn (f := fun links => { links with previous }) rfl
  refine ⟨t', _, hg, ha, hs, rfl, rfl, fun j => ?_, fun j => ?_⟩
  · rw [Sheet.plain_withNode]
    split
    · next heq =>
      rw [heq, Sheet.plain, hn]
      cases node <;> rfl
    · rfl
  · rw [Sheet.neighbours_withNode, Node.links_withLinks]

/-- All of some nodes get one parent. -/
theorem adoptAll (h : Shows t file base s) (parent : PageIndex) {cs : List PageIndex}
    (hcs : ∀ i ∈ cs, ∃ n, s.plain i = some n) :
    ∃ t' s', (cs.forM (Tree.adopt file parent)).Gives t () t' ∧ Transaction.Alters file t t' ∧
      Shows t' file base s' ∧ s'.size = s.size ∧ s'.info = s.info ∧
      (∀ j, s'.plain j = if j ∈ cs then (s.plain j).map (Node.withParent parent) else s.plain j) ∧
      ∀ j, s'.neighbours j = s.neighbours j := by
  induction cs generalizing t s with
  | nil => exact ⟨t, s, .pure () t, .refl file t, h, rfl, rfl, fun _ => rfl, fun _ => rfl⟩
  | cons c cs ih =>
    obtain ⟨n, hn⟩ := hcs c List.mem_cons_self
    obtain ⟨t₁, s₁, hg₁, ha₁, hs₁, hz₁, hi₁, hp₁, hb₁⟩ := h.adopt hn parent
    have hrest : ∀ i ∈ cs, ∃ n, s₁.plain i = some n := by
      intro i hi
      rw [hp₁]
      split
      · exact ⟨_, rfl⟩
      · exact hcs i (List.mem_cons_of_mem _ hi)
    obtain ⟨t₂, s₂, hg₂, ha₂, hs₂, hz₂, hi₂, hp₂, hb₂⟩ := ih hs₁ hrest
    refine ⟨t₂, s₂, hg₁.bind hg₂, ha₁.trans ha₂, hs₂, hz₂.trans hz₁, hi₂.trans hi₁, fun j => ?_,
      fun j => (hb₂ j).trans (hb₁ j)⟩
    rw [hp₂, hp₁]
    by_cases hj : j = c
    · subst hj
      have hidem : (n.withParent parent).withParent parent = n.withParent parent := by
        cases n <;> rfl
      simp [hn, hidem]
    · simp [hj]

/-- A branch that has room for one key more. -/
theorem insertAbove_fits (h : Shows t file base s) {p q : PageIndex} {keys : List Key}
    {children : List PageIndex}
    (hp : s.plain p = some (.branch ⟨.fresh q, keys, children⟩)) {branch : Branch} {m : Key}
    {right : PageIndex} (hb : (⟨.fresh q, keys, children⟩ : Branch).insert m right = branch)
    (hf : branch.keys.length ≤ Branch.capacity t.mounted.volume.pageSize)
    (hpair : branch.children.length = branch.keys.length + 1) (root left : PageIndex) (k : Nat) :
    ∃ t' s', (insertAbove file root (k + 1) left m right p).Gives t root t' ∧
      Transaction.Alters file t t' ∧ Shows t' file base s' ∧ s'.size = s.size ∧ s'.info = s.info ∧
      (∀ j, s'.plain j = if j = p then some (.branch branch) else s.plain j) ∧
      ∀ j, s'.neighbours j = s.neighbours j := by
  obtain ⟨node, hnode, halone⟩ := Sheet.plain_eq_some hp
  obtain ⟨links, rfl, hq⟩ := Node.alone_branch halone
  -- the branch that is read knows its neighbours as well
  have hins : (⟨links, keys, children⟩ : Branch).insert m right = { branch with links } := by
    rw [← hb]
    rfl
  have hlinks : branch.links = .fresh q := by
    rw [← hb]
    rfl
  obtain ⟨t', hg, ha, hs⟩ := h.writeNode (.branch { branch with links })
    (h.node_ne_zero hnode) (h.node_lt hnode) hf hpair
  refine ⟨t', _, ?_, ha, hs, rfl, rfl, fun j => ?_, fun j => ?_⟩
  · rw [insertAbove, if_neg (h.node_ne_zero hnode)]
    refine (h.readBranch hnode).bind ((Transaction.pageSize_gives t).embed.bind ?_)
    have hover : ¬ ({ branch with links } : Branch).isOverfull t.mounted.volume.pageSize = true := by
      simpa [Branch.isOverfull] using hf
    rw [hins, if_neg hover]
    exact hg.bind (.pure root t')
  · rw [Sheet.plain_withNode, Node.alone_counted]
    have halone' : (Node.branch { branch with links }).alone = .branch branch := by
      simp only [Node.alone, Node.withLinks, Node.links, hq, ← hlinks]
    rw [halone']
  · rw [Sheet.neighbours_withNode]
    split
    · next heq =>
      subst heq
      rw [Sheet.neighbours, hnode]
      rfl
    · rfl

/-- The upper half of a node is on a new page, and the lower half is on the page of the node. -/
structure Parted (file : FileId) (base : List Page) (t : Transaction) (s : Sheet) (p : PageIndex)
    (lower upper : Node) (t' : Transaction) (s' : Sheet) : Prop where
  alters : Transaction.Alters file t t'
  shows : Shows t' file base s'
  size : s'.size = s.size + 1
  info : s'.info = s.info
  node : ∀ j, j ≠ p → j ≠ UInt64.ofNat s.size → s'.node j = s.node j
  plain : ∀ j, s'.plain j = if j = p then some lower.alone
    else if j = UInt64.ofNat s.size then some upper.alone else s.plain j
  neighbours : ∀ j, s'.neighbours j = if j = p then some (lower.links.previous, lower.links.next)
    else if j = UInt64.ofNat s.size then some (upper.links.previous, upper.links.next)
    else s.neighbours j

/-- Writing the two halves of a node. -/
theorem part (h : Shows t file base s) {p : PageIndex} {node : Node} (lower upper : Node) (hp : s.node p = some node)
    (hsize : s.size + 1 < UInt64.size) (hfu : upper.FitsIn t.mounted.volume.pageSize) (hpu : upper.Paired)
    (hfl : lower.FitsIn t.mounted.volume.pageSize) (hpl : lower.Paired) :
    ∃ t₁ t₂ s₂, (Tree.appendNode file upper).Gives t (UInt64.ofNat s.size) t₁ ∧
      (Tree.writeNode file p lower).Gives t₁ () t₂ ∧ Parted file base t s p lower upper t₂ s₂ := by
  obtain ⟨t₁, hg₁, ha₁, hs₁⟩ := h.appendNode upper hsize hfu hpu
  obtain ⟨t₂, hg₂, ha₂, hs₂⟩ := hs₁.writeNode lower (h.node_ne_zero hp)
    (Nat.lt_succ_of_lt (h.node_lt hp)) (by rw [ha₁.mounted]; exact hfl) hpl
  refine ⟨t₁, t₂, (s.withPage upper.counted).withNode p lower.counted, hg₁, hg₂, ?_⟩
  constructor
  case alters => exact ha₁.trans ha₂
  case shows => exact hs₂
  case size => rfl
  case info => rfl
  case node =>
    intro j hjp hja
    rw [Sheet.node_withNode, if_neg hjp, Sheet.node_withPage, if_neg hja]
  case plain =>
    intro j
    rw [Sheet.plain_withNode, Node.alone_counted, Sheet.plain_withPage, Node.alone_counted]
  case neighbours =>
    intro j
    rw [Sheet.neighbours_withNode, Sheet.neighbours_withPage, Node.counted, Node.counted,
      Node.links_withLinks, Node.links_withLinks]

/-- A branch that is split. The insertion goes on at its parent. -/
theorem insertAbove_splits (h : Shows t file base s) {p q : PageIndex} {keys : List Key}
    {children : List PageIndex}
    (hp : s.plain p = some (.branch ⟨.fresh q, keys, children⟩)) {branch : Branch} {m : Key}
    {right : PageIndex} (hb : (⟨.fresh q, keys, children⟩ : Branch).insert m right = branch)
    (hover : branch.keys.length = Branch.capacity t.mounted.volume.pageSize + 1)
    (hpair : branch.children.length = branch.keys.length + 1) {median : Key}
    (hm : branch.keys[branch.keys.length / 2]? = some median)
    (hcs : ∀ c ∈ branch.children.drop (branch.keys.length / 2 + 1), c ≠ p ∧ ∃ n, s.plain c = some n)
    (hsize : s.size + 1 < UInt64.size) (root left : PageIndex) (k : Nat) :
    ∃ t' s', (insertAbove file root (k + 1) left m right p).start t =
        (insertAbove file root k p median (UInt64.ofNat s.size) q).start t' ∧
      Transaction.Alters file t t' ∧ Shows t' file base s' ∧ s'.size = s.size + 1 ∧
      s'.info = s.info ∧
      s'.plain p = some (.branch ⟨.fresh q, branch.keys.take (branch.keys.length / 2),
        branch.children.take (branch.keys.length / 2 + 1)⟩) ∧
      s'.plain (UInt64.ofNat s.size) = some (.branch ⟨.fresh q,
        branch.keys.drop (branch.keys.length / 2 + 1),
        branch.children.drop (branch.keys.length / 2 + 1)⟩) ∧
      (∀ j, j ≠ p → j ≠ UInt64.ofNat s.size → s'.plain j =
        if j ∈ branch.children.drop (branch.keys.length / 2 + 1) then
          (s.plain j).map (Node.withParent (UInt64.ofNat s.size))
        else s.plain j) ∧
      ∀ j, j ≠ UInt64.ofNat s.size → s'.neighbours j = s.neighbours j := by
  obtain ⟨node, hnode, halone⟩ := Sheet.plain_eq_some hp
  obtain ⟨links, rfl, hq⟩ := Node.alone_branch halone
  have hins : (⟨links, keys, children⟩ : Branch).insert m right = { branch with links } := by
    rw [← hb]
    rfl
  generalize hmid : branch.keys.length / 2 = middle at *
  have hlt : middle < branch.keys.length := (List.getElem?_eq_some_iff.mp hm).1
  set added := UInt64.ofNat s.size with hadded
  have hne : p ≠ added := h.plain_ne_size hp
  set upper : Branch := ⟨⟨UInt16.ofNat (branch.keys.drop (middle + 1)).length, q, 0, 0⟩,
    branch.keys.drop (middle + 1), branch.children.drop (middle + 1)⟩ with hupper
  set lower : Branch := ⟨links, branch.keys.take middle, branch.children.take (middle + 1)⟩ with hlower
  have hsplit : ({ branch with links } : Branch).split =
      (.ok (lower, median, upper) : Checked TreeError (Branch × Key × Branch)) := by
    rw [hupper, ← hq]
    exact Branch.split_eq hmid hm
  obtain ⟨t₁, t₂, s₂, hg₁, hg₂, hparted⟩ := h.part (.branch lower) (.branch upper) hnode hsize
    (by simp only [Node.FitsIn, hupper, List.length_drop]; omega)
    (by simp only [Node.Paired, hupper, List.length_drop]; omega)
    (by simp only [Node.FitsIn, hlower, List.length_take]; omega)
    (by simp only [Node.Paired, hlower, List.length_take]; omega)
  have hcs₂ : ∀ c ∈ upper.children, ∃ n, s₂.plain c = some n := by
    intro c hc
    obtain ⟨hcp, n, hn⟩ := hcs c hc
    refine ⟨n, ?_⟩
    rw [hparted.plain, if_neg hcp, if_neg (h.plain_ne_size hn)]
    exact hn
  obtain ⟨t₃, s₃, hg₃, ha₃, hs₃, hz₃, hi₃, hp₃, hb₃⟩ := hparted.shows.adoptAll added hcs₂
  have hmem : ∀ {c}, c ∈ upper.children → c ≠ p ∧ c ≠ added := by
    intro c hc
    obtain ⟨hcp, n, hn⟩ := hcs c hc
    exact ⟨hcp, h.plain_ne_size hn⟩
  refine ⟨t₃, s₃, ?_, hparted.alters.trans ha₃, hs₃, hz₃.trans hparted.size, hi₃.trans hparted.info,
    ?_, ?_, fun j hjp hja => ?_, fun j hj => ?_⟩
  · rw [insertAbove, if_neg (h.node_ne_zero hnode)]
    rw [(h.readBranch hnode).start_bind, (Transaction.pageSize_gives t).embed.start_bind]
    have hfull : ({ branch with links } : Branch).isOverfull t.mounted.volume.pageSize = true := by
      simpa [Branch.isOverfull] using (by omega)
    rw [hins, if_pos hfull, (Task.Gives.ofChecked hsplit t).start_bind, hg₁.start_bind,
      hg₂.start_bind, hg₃.start_bind]
    rw [hlower, hq]
  · have hpn : p ∉ upper.children := fun hc => (hmem hc).1 rfl
    rw [hp₃, if_neg hpn, hparted.plain, if_pos rfl]
    simp only [Node.alone, Node.withLinks, Node.links, hlower, hq]
  · have han : added ∉ upper.children := fun hc => (hmem hc).2 rfl
    rw [hp₃, if_neg han, hparted.plain, if_neg hne.symm, if_pos rfl]
    rfl
  · rw [hp₃, hparted.plain, if_neg hjp, if_neg hja]
  · rw [hb₃, hparted.neighbours, if_neg hj]
    split
    · next heq =>
      subst heq
      rw [Sheet.neighbours, hnode]
      rfl
    · rfl

end Shows

end Tree

end RefStore
