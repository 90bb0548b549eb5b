import RefStore.Proofs.TreeIntact

/-!
# Updates of intact trees

A leaf of an intact tree gets other entries. It is written in its place, or split when it has become too
large, and the links and the pages above follow. Main statements: `Shows.refill` and
`Shows.refill_split`.
-/

namespace RefStore.Tree

theorem freshPages_append {a b c : Nat} (hab : a ≤ b) (hbc : b ≤ c) :
    freshPages a b ++ freshPages b c = freshPages a c := by
  rw [freshPages, freshPages, freshPages, ← List.map_append]
  congr 1
  obtain ⟨m, rfl⟩ := Nat.exists_eq_add_of_le hab
  obtain ⟨n, rfl⟩ := Nat.exists_eq_add_of_le hbc
  rw [Nat.add_sub_cancel_left, Nat.add_sub_cancel_left, Nat.add_assoc, Nat.add_sub_cancel_left,
    List.range'_append_1]

/-- A sheet after the entries of a leaf were replaced. -/
structure RewrittenAt (s s₁ : Sheet) (tip : Tip) (parent : PageIndex) (es : List Entry) : Prop where
  size : s₁.size = s.size
  whole : s.plain tip.page = some (.leaf ⟨.fresh parent, tip.entries⟩)
  new : s₁.plain tip.page = some (.leaf ⟨.fresh parent, es⟩)
  others : ∀ i, i ≠ tip.page → s₁.plain i = s.plain i

namespace Shows

variable {t t₁ : Transaction} {file : FileId} {base : List Page} {s s₁ : Sheet}

/-- With other entries in one leaf the shape is the same but for that leaf. -/
theorem rewrite (hs : Shows t file base s) (hs₁ : Shows t₁ file base s₁) {tip : Tip} {key : Key}
    {pl : PageIndex} {es : List Entry} (hnew : RewrittenAt s s₁ tip pl es)
    (ho : Entries.InOrder es) (hkeys : ∀ x ∈ es, x ∈ tip.entries ∨ x.key = key)
    (hroom : es.length ≤ Leaf.capacity t₁.mounted.volume.pageSize) {h : Nat} {b : Shape h}
    {parent : PageIndex} {lo hi : Option Key} (hstored : b.Stored s.plain parent)
    (hord : b.Ordered lo hi) (hfits : b.Fits t₁.mounted.volume.pageSize) (hdup : b.pages.Nodup)
    (hleads : b.LeadsTo key tip) (hkey : Within lo hi key) :
    ∃ b', Climbed file base s t₁ s₁ lo hi tip [⟨tip.page, es⟩] b parent t₁ s₁ [] [b'] ∧
      b'.page = b.page := by
  induction h generalizing parent lo hi with
  | zero =>
    have hbt : b = Shape.leaf tip := hleads
    rw [hbt] at hstored hord ⊢
    obtain rfl : parent = pl := by
      have := hnew.whole.symm.trans (Shape.stored_leaf.mp hstored)
      simp only [Option.some.injEq, Node.leaf.injEq, Leaf.mk.injEq, NodeLinks.fresh,
        NodeLinks.mk.injEq] at this
      exact this.1.2.1.symm
    have hw : ∀ x ∈ es, Within lo hi x.key := by
      intro x hx
      rcases hkeys x hx with hx | hx
      · exact hord.2.2 x hx
      · exact hx ▸ hkey
    have hfresh : freshPages s.size s₁.size = [] := by
      rw [hnew.size, freshPages, Nat.sub_self]
      rfl
    refine ⟨.leaf ⟨tip.page, es⟩, ⟨.refl file t₁, hs₁, rfl, Nat.le_of_eq hnew.size.symm,
      Nat.le_refl _, Nat.le_refl _, ?_, ?_, fun i hi _ => ?_, fun i _ => rfl⟩, rfl⟩
    · rw [hfresh]
      exact .leaf hord.1 ho hw hroom
    · intro c hc
      obtain rfl := List.mem_singleton.mp hc
      exact hnew.new
    · exact hnew.others i fun h => hi (by simp [h])
  | succ h ih =>
    obtain ⟨i, c, hlead, hci, hleads⟩ := hleads
    obtain ⟨-, hcs⟩ := Shape.stored_branch.mp hstored
    obtain ⟨-, -, hcfits⟩ := Shape.fits_branch.mp hfits
    obtain ⟨-, hnd⟩ := Fork.pages_apart hdup
    obtain ⟨c', l, u, hc', hcord, hck, -, -, hput⟩ :=
      (Shape.ordered_branch.mp hord).focus Shape.Ordered.span hkey hlead
    obtain rfl : c = c' := Option.some.inj (hci.symm.trans hc')
    have hcm := List.mem_of_getElem? hci
    obtain ⟨b', hc, hpage⟩ := ih (hcs c hcm) hcord (hcfits c hcm)
      ((List.nodup_flatMap.mp hnd).1 c hcm) hleads hck
    exact ⟨_, hc.graft_one hs hpage hstored hfits hdup hci hlead.1 (hput _ _ hc.becomes.ordered), rfl⟩

/-- What is left of splitting a leaf when both halves are in their pages. -/
theorem splitLeaf_start (hs : Shows t file base s) {tip : Tip} {links : NodeLinks}
    (hnode : s.node tip.page = some (.leaf ⟨links, tip.entries⟩)) {es below above : List Entry}
    {e : Entry} (hbelow : es.take (es.length / 2) = below)
    (habove : es.drop (es.length / 2) = e :: above)
    (hl : below.length ≤ Leaf.capacity t.mounted.volume.pageSize)
    (hr : (e :: above).length ≤ Leaf.capacity t.mounted.volume.pageSize)
    (hnext : links.next ≠ 0 → links.next ≠ tip.page ∧ ∃ n, s.node links.next = some n)
    (hsize : s.size + 1 < UInt64.size) (root : PageIndex) :
    ∃ t₁ s₁, (splitLeaf file root tip.page ⟨links, es⟩).start t =
        (insertAbove file root (2 * (s.size + 2)) tip.page e.key (UInt64.ofNat s.size)
          links.parent).start t₁ ∧
      Transaction.Alters file t t₁ ∧ Shows t₁ file base s₁ ∧ s₁.info = s.info ∧
      SplitAt s s₁ tip links.parent below (e :: above) ∧
      s₁.neighbours tip.page = some (links.previous, UInt64.ofNat s.size) ∧
      s₁.neighbours (UInt64.ofNat s.size) = some (tip.page, links.next) ∧
      (links.next ≠ 0 → ∀ n, s.neighbours links.next = some n →
        s₁.neighbours links.next = some (UInt64.ofNat s.size, n.2)) ∧
      ∀ x, x ≠ tip.page → x ≠ UInt64.ofNat s.size → (links.next = 0 ∨ x ≠ links.next) →
        s₁.neighbours x = s.neighbours x := by
  set added := UInt64.ofNat s.size with hadded
  have hsplit : (⟨links, es⟩ : Leaf).split =
      (.ok (⟨links, below⟩, e.key,
        ⟨⟨UInt16.ofNat (above.length + 1), links.parent, 0, links.next⟩, e :: above⟩) :
        Checked TreeError (Leaf × Key × Leaf)) := by
    simp only [Leaf.split, habove, hbelow]
  have hplain : s.plain tip.page = some (.leaf ⟨.fresh links.parent, tip.entries⟩) := by
    rw [Sheet.plain, hnode]
    rfl
  have hne : tip.page ≠ added := hs.plain_ne_size hplain
  obtain ⟨t₁, t₂, s₂, hg₁, hg₂, hparted⟩ := hs.part (.leaf ⟨{ links with next := added }, below⟩)
    (.leaf ⟨⟨UInt16.ofNat (above.length + 1), links.parent, tip.page, links.next⟩, e :: above⟩) hnode
    hsize hr trivial hl trivial
  have hp₂ : ∀ j, s₂.plain j = if j = tip.page then some (.leaf ⟨.fresh links.parent, below⟩)
      else if j = added then some (.leaf ⟨.fresh links.parent, e :: above⟩) else s.plain j := hparted.plain
  have hb₂ : ∀ j, s₂.neighbours j = if j = tip.page then some (links.previous, added)
      else if j = added then some (tip.page, links.next) else s.neighbours j := hparted.neighbours
  have hat : SplitAt s s₂ tip links.parent below (e :: above) := by
    refine ⟨hparted.size, hplain, ?_, ?_, fun i hi hi' => ?_⟩
    · rw [hp₂, if_pos rfl]
    · rw [hp₂, if_neg hne.symm, if_pos rfl]
    · rw [hp₂, if_neg hi, if_neg hi']
  by_cases h0 : links.next = 0
  · refine ⟨t₂, s₂, ?_, hparted.alters, hparted.shows, hparted.info, hat, ?_, ?_, fun h => absurd h0 h,
      fun x hx hx' _ => ?_⟩
    · rw [splitLeaf, (Task.Gives.ofChecked hsplit t).start_bind]
      dsimp only
      rw [hg₁.start_bind, hg₂.start_bind, if_neg (by simpa using h0), hparted.shows.steps.start_bind,
        hparted.size]
    · rw [hb₂, if_pos rfl]
    · rw [hb₂, if_neg hne.symm, if_pos rfl]
    · rw [hb₂, if_neg hx, if_neg hx']
  · obtain ⟨hnt, n, hn⟩ := hnext h0
    have hna : links.next ≠ added := hs.plain_ne_size (n := n.alone) (by rw [Sheet.plain, hn]; rfl)
    have hn₂ : s₂.node links.next = some n := by
      rw [hparted.node _ hnt hna]
      exact hn
    obtain ⟨t₃, s₃, hg₃, ha₃, hs₃, hz₃, hi₃, hp₃, hb₃⟩ := hparted.shows.setPrevious hn₂ added
    refine ⟨t₃, s₃, ?_, hparted.alters.trans ha₃, hs₃, hi₃.trans hparted.info, ?_, ?_, ?_, fun _ m hm => ?_,
      fun x hx hx' hx'' => ?_⟩
    · rw [splitLeaf, (Task.Gives.ofChecked hsplit t).start_bind]
      dsimp only
      rw [hg₁.start_bind, hg₂.start_bind, if_pos (by simpa using h0), hg₃.start_bind,
        hs₃.steps.start_bind, hz₃, hparted.size]
    · exact ⟨hz₃.trans hparted.size, hplain, (hp₃ _).trans hat.left, (hp₃ _).trans hat.right,
        fun i hi hi' => (hp₃ i).trans (hat.others i hi hi')⟩
    · rw [hb₃, if_neg hnt.symm, hb₂, if_pos rfl]
    · rw [hb₃, if_neg hna.symm, hb₂, if_neg hne.symm, if_pos rfl]
    · rw [Sheet.neighbours, hn] at hm
      rw [hb₃, if_pos rfl, ← Option.some.inj hm]
    · rw [hb₃, if_neg (hx''.resolve_left h0), hb₂, if_neg hx, if_neg hx']

/-- The two halves of a split root get a new root above them. -/
theorem insertAbove_grows (hs : Shows t file base s) {left right : PageIndex} {nl nr : Node}
    (hl : s.plain left = some nl) (hr : s.plain right = some nr) (hne : left ≠ right)
    (hcap : 1 ≤ Branch.capacity t.mounted.volume.pageSize) (hsize : s.size + 1 < UInt64.size)
    (root : PageIndex) (m : Key) (k : Nat) :
    ∃ t' s', (insertAbove file root (k + 1) left m right 0).Gives t (UInt64.ofNat s.size) t' ∧
      Transaction.Alters file t t' ∧ Shows t' file base s' ∧ s'.size = s.size + 1 ∧
      s'.info = s.info ∧
      s'.plain (UInt64.ofNat s.size) = some (.branch ⟨.fresh 0, [m], [left, right]⟩) ∧
      s'.plain left = some (nl.withParent (UInt64.ofNat s.size)) ∧
      s'.plain right = some (nr.withParent (UInt64.ofNat s.size)) ∧
      (∀ j, j ≠ UInt64.ofNat s.size → j ≠ left → j ≠ right → s'.plain j = s.plain j) ∧
      ∀ j, j ≠ UInt64.ofNat s.size → s'.neighbours j = s.neighbours j := by
  set top := UInt64.ofNat s.size with htop
  have hlt : left ≠ top := hs.plain_ne_size hl
  have hrt : right ≠ top := hs.plain_ne_size hr
  obtain ⟨t₁, hg₁, ha₁, hs₁⟩ := hs.appendNode (.branch (.pair 0 left m right)) hsize hcap rfl
  have hl₁ : (s.withPage (Node.branch (.pair 0 left m right)).counted).plain left = some nl := by
    rw [Sheet.plain_withPage, if_neg hlt]
    exact hl
  obtain ⟨t₂, s₂, hg₂, ha₂, hs₂, hz₂, hi₂, hp₂, hb₂⟩ := hs₁.adopt hl₁ top
  have hr₂ : s₂.plain right = some nr := by
    rw [hp₂, if_neg hne.symm, Sheet.plain_withPage, if_neg hrt]
    exact hr
  obtain ⟨t₃, s₃, hg₃, ha₃, hs₃, hz₃, hi₃, hp₃, hb₃⟩ := hs₂.adopt hr₂ top
  refine ⟨t₃, s₃, ?_, (ha₁.trans ha₂).trans ha₃, hs₃, hz₃.trans hz₂, hi₃.trans hi₂, ?_, ?_, ?_,
    fun j hj hjl hjr => ?_, fun j hj => ?_⟩
  · rw [insertAbove, if_pos rfl]
    exact hg₁.bind (hg₂.bind (hg₃.bind (.pure _ t₃)))
  · rw [hp₃, if_neg hrt.symm, hp₂, if_neg hlt.symm, Sheet.plain_withPage, if_pos rfl]
    rfl
  · rw [hp₃, if_neg hne, hp₂, if_pos rfl]
  · rw [hp₃, if_pos rfl]
  · rw [hp₃, if_neg hjr, hp₂, if_neg hjl, Sheet.plain_withPage, if_neg hj]
  · rw [hb₃, hb₂, Sheet.neighbours_withPage, if_neg hj]

end Shows

/-- What follows when a leaf of a tree laid out in a file takes up other entries, which may split it. -/
structure Refilled (t : Transaction) (file : FileId) (base : List Page) (s : Sheet) {h : Nat}
    (b : Shape h) (tip : Tip) (es : List Entry) (t' : Transaction) (s' : Sheet) {h' : Nat}
    (b' : Shape h') : Prop where
  alters : Transaction.Alters file t t'
  shows : Shows t' file base s'
  info : s'.info = s.info
  laid : Laid t.mounted.volume.pageSize s' b'
  tips : ∃ leaves, leaves.flatMap Tip.entries = es ∧ leaves.length ≤ 2 ∧
    ∀ xs ys, b.tips = xs ++ tip :: ys → b'.tips = xs ++ leaves ++ ys

namespace Climbed

variable {t t₁ t' : Transaction} {file : FileId} {base : List Page} {s s₁ s' : Sheet} {tip : Tip}
  {leaves : List Tip} {h pageSize : Nat} {b : Shape h}

theorem pages_fresh {keys : List Key} {parts : List (Shape h)} (hb : Laid pageSize s b)
    (hpos : 0 < s.size)
    (hc : Climbed file base s t₁ s₁ none none tip leaves b 0 t' s' keys parts) :
    (parts.flatMap Shape.pages).Perm (freshPages 1 s'.size) := by
  rw [← freshPages_append hpos hc.grown]
  exact hc.becomes.pages.trans (hb.pages.append_right _)

/-- A climb that ends inside the tree leaves a tree. -/
theorem laid {b' : Shape h} (hb : Laid t₁.mounted.volume.pageSize s b) (hpos : 0 < s.size)
    (hc : Climbed file base s t₁ s₁ none none tip leaves b 0 t' s' [] [b'])
    (hl : Linked s'.neighbours 0 (b'.tips.map Tip.page) 0) :
    Laid t₁.mounted.volume.pageSize s' b' where
  stored := hc.stored b' (List.mem_singleton.mpr rfl)
  ordered := by
    cases hc.becomes.ordered with
    | last h => exact h
  fits := hc.becomes.fits b' (List.mem_singleton.mpr rfl)
  pages := by simpa using hc.pages_fresh hb hpos
  linked := hl

/-- A climb past the root needs a new root. -/
theorem laid_grown {m : Key} {l r : Shape h} {s₂ : Sheet} (hb : Laid t₁.mounted.volume.pageSize s b)
    (hpos : 0 < s.size)
    (hc : Climbed file base s t₁ s₁ none none tip leaves b 0 t' s' [m] [l, r])
    (hcap : 1 ≤ Branch.capacity t₁.mounted.volume.pageSize) (hsize : s₂.size = s'.size + 1)
    (htop : s₂.plain (UInt64.ofNat s'.size) = some (.branch ⟨.fresh 0, [m], [l.page, r.page]⟩))
    (hroots : ∀ c ∈ [l, r],
      s₂.plain c.page = (s'.plain c.page).map (Node.withParent (UInt64.ofNat s'.size)))
    (hrest : ∀ j, j ≠ UInt64.ofNat s'.size → j ≠ l.page → j ≠ r.page → s₂.plain j = s'.plain j)
    (hl : Linked s₂.neighbours 0 (([l, r].flatMap Shape.tips).map Tip.page) 0) :
    Laid t₁.mounted.volume.pageSize s₂
      (.branch (h := h) ⟨UInt64.ofNat s'.size, [m], [l, r]⟩) where
  stored := by
    have hperm := hc.pages_fresh hb hpos
    have hnd := hperm.nodup_iff.mpr (nodup_freshPages (Nat.le_of_lt hc.shows.size_lt))
    have hne : ∀ c ∈ [l, r], ∀ x ∈ c.pages, x ≠ UInt64.ofNat s'.size := by
      intro c hm x hx
      obtain ⟨n, hn⟩ := (hc.stored c hm).exists_node x hx
      exact hc.shows.plain_ne_size hn
    refine Shape.stored_branch.mpr ⟨htop, fun c hm => ?_⟩
    refine (hc.stored c hm).adopted ((List.nodup_flatMap.mp hnd).1 c hm) (hroots c hm) ?_
    intro x hx hxc
    -- a page of one half is not the root of the other one
    have not_root : ∀ d ∈ [l, r], x ≠ d.page := by
      rintro d hd rfl
      exact hxc (eq_of_mem_flatMap hnd hm hd hx d.page_mem_pages ▸ rfl)
    exact hrest x (hne c hm x hx) (not_root l (by simp)) (not_root r (by simp))
  ordered := Shape.ordered_branch.mpr hc.becomes.ordered
  fits := Shape.fits_branch.mpr ⟨Nat.one_pos, hcap, hc.becomes.fits⟩
  pages := by
    rw [hsize, freshPages_succ (Nat.le_trans hpos hc.grown), Shape.pages_branch]
    exact ((hc.pages_fresh hb hpos).cons _).trans (List.perm_append_singleton _ _).symm
  linked := hl

end Climbed

namespace Laid

variable {t : Transaction} {file : FileId} {base : List Page} {pageSize h : Nat} {s : Sheet}
  {b : Shape h} {tip : Tip} {links : NodeLinks} {xs ys : List Tip}

/-- The links of a leaf name the leaves around it. -/
theorem links_eq (hb : Laid pageSize s b) (htips : b.tips = xs ++ tip :: ys)
    (hnode : s.node tip.page = some (.leaf ⟨links, tip.entries⟩)) :
    links.previous = (xs.map Tip.page).getLastD 0 ∧ links.next = (ys.map Tip.page).headD 0 := by
  have hl := hb.linked
  rw [htips, List.map_append, List.map_cons] at hl
  have hn := (linked_append.mp hl).2.1
  rw [Sheet.neighbours, hnode] at hn
  simp only [Option.map_some, Option.some.injEq, Prod.mk.injEq] at hn
  exact hn

theorem tip_plain (hb : Laid pageSize s b) {tip : Tip} (hm : tip ∈ b.tips) :
    ∃ n, s.plain tip.page = some n :=
  hb.stored.exists_node _ (b.tips_sublist.subset (List.mem_map_of_mem hm))

/-- The leaf after a leaf is another one. -/
theorem next_node (hs : Shows t file base s) (hb : Laid pageSize s b) (htips : b.tips = xs ++ tip :: ys)
    (hnode : s.node tip.page = some (.leaf ⟨links, tip.entries⟩)) (h0 : links.next ≠ 0) :
    links.next ≠ tip.page ∧ ∃ n, s.node links.next = some n := by
  have hnext := (hb.links_eq htips hnode).2
  cases ys with
  | nil => exact absurd hnext h0
  | cons y ys =>
    replace hnext : links.next = y.page := hnext
    have hnd := (hb.nodup (Nat.le_of_lt hs.size_lt)).sublist b.tips_sublist
    rw [htips, List.map_append, List.map_cons, List.map_cons] at hnd
    obtain ⟨-, hnd, -⟩ := List.nodup_append.mp hnd
    refine ⟨fun heq => (List.nodup_cons.mp hnd).1 (heq ▸ hnext ▸ List.mem_cons_self), ?_⟩
    have hy : y ∈ b.tips := by simp [htips]
    obtain ⟨n, hn⟩ := hb.tip_plain hy
    obtain ⟨node, hnode, -⟩ := Sheet.plain_eq_some hn
    exact ⟨node, hnext ▸ hnode⟩

/-- The leaves are still linked when a new one stands after `tip`. -/
theorem linked_put (hs : Shows t file base s) (hb : Laid pageSize s b)
    (htips : b.tips = xs ++ tip :: ys)
    (hnode : s.node tip.page = some (.leaf ⟨links, tip.entries⟩))
    {nb : PageIndex → Option (PageIndex × PageIndex)}
    (hp : nb tip.page = some (links.previous, UInt64.ofNat s.size))
    (ha : nb (UInt64.ofNat s.size) = some (tip.page, links.next))
    (hnext : links.next ≠ 0 → ∀ n, s.neighbours links.next = some n →
      nb links.next = some (UInt64.ofNat s.size, n.2))
    (hrest : ∀ x, x ≠ tip.page → x ≠ UInt64.ofNat s.size → (links.next = 0 ∨ x ≠ links.next) →
      nb x = s.neighbours x) :
    Linked nb 0 (xs.map Tip.page ++ tip.page :: UInt64.ofNat s.size :: ys.map Tip.page) 0 := by
  have hl := hb.linked
  have hnd := (hb.nodup (Nat.le_of_lt hs.size_lt)).sublist b.tips_sublist
  have hnew : UInt64.ofNat s.size ∉ b.tips.map Tip.page := by
    intro hm
    obtain ⟨d, hd, heq⟩ := List.mem_map.mp hm
    obtain ⟨n, hn⟩ := hb.tip_plain hd
    exact hs.plain_ne_size hn heq
  have htail := (hb.links_eq htips hnode).2
  have hne : ∀ y ∈ (ys.map Tip.page).head?, links.next = y ∧ links.next ≠ 0 := by
    intro y hy
    have hmem : y ∈ b.tips.map Tip.page := by
      rw [htips, List.map_append, List.map_cons]
      exact List.mem_append_right _ (List.mem_cons_of_mem _ (List.mem_of_mem_head? hy))
    obtain ⟨d, hd, rfl⟩ := List.mem_map.mp hmem
    obtain ⟨n, hn⟩ := hb.tip_plain hd
    have heq : links.next = d.page := by rw [htail, List.headD_eq_head?_getD, hy, Option.getD_some]
    exact ⟨heq, heq ▸ hs.plain_ne_zero hn⟩
  rw [htips, List.map_append, List.map_cons] at hl hnd hnew
  have hold : s.neighbours tip.page = some (links.previous, links.next) := by
    rw [Sheet.neighbours, hnode]
    rfl
  refine hl.put hnd hnew hold hp ha (fun y hy n hn => ?_) fun x hx hx' hy => hrest x hx hx' ?_
  · obtain ⟨rfl, h0⟩ := hne y hy
    exact hnext h0 n hn
  · by_cases h0 : links.next = 0
    · exact .inl h0
    · refine .inr ?_
      rintro rfl
      cases ys with
      | nil => exact h0 htail
      | cons y ys => exact hy (htail ▸ rfl)

/-- Later steps that leave the links of these pages alone leave them linked. -/
theorem linked_halves (hs : Shows t file base s) (hb : Laid pageSize s b)
    (htips : b.tips = xs ++ tip :: ys) {nb nb' : PageIndex → Option (PageIndex × PageIndex)}
    (hl : Linked nb 0 (xs.map Tip.page ++ tip.page :: UInt64.ofNat s.size :: ys.map Tip.page) 0)
    (hnb : ∀ i : PageIndex, i.toNat < s.size + 1 → nb' i = nb i) (below above : List Entry) :
    Linked nb' 0
      ((xs ++ [Tip.mk tip.page below, ⟨UInt64.ofNat s.size, above⟩] ++ ys).map Tip.page) 0 := by
  have hmap : (xs ++ [Tip.mk tip.page below, ⟨UInt64.ofNat s.size, above⟩] ++ ys).map Tip.page =
      xs.map Tip.page ++ tip.page :: UInt64.ofNat s.size :: ys.map Tip.page := by simp
  rw [hmap]
  refine hl.congr fun j hj => hnb j ?_
  by_cases hj' : j = UInt64.ofNat s.size
  · rw [hj', hs.size_toNat]
    exact Nat.lt_succ_self _
  · have hold : j ∈ b.tips.map Tip.page := by
      rw [htips, List.map_append, List.map_cons]
      simpa [hj'] using hj
    obtain ⟨d, hd, rfl⟩ := List.mem_map.mp hold
    obtain ⟨n, hn⟩ := hb.tip_plain hd
    exact Nat.lt_succ_of_lt (hs.plain_lt hn)

end Laid

/-- The end of a climb through a whole tree: if it goes on above the root, the root is grown. -/
theorem ClimbEnds.refilled {t t₁ : Transaction} {file : FileId} {base : List Page} {s s₁ : Sheet}
    {tip : Tip} {xs ys leaves : List Tip} {h k : Nat} {b : Shape h}
    {run : Task Transaction TreeError PageIndex} {es : List Entry}
    (ha : Transaction.Alters file t t₁) (hb : Laid t.mounted.volume.pageSize s b) (hpos : 0 < s.size)
    (hinfo : s₁.info = s.info)
    (hends : ClimbEnds file base s t₁ s₁ none none tip leaves b 0 b.page (k + 1) run)
    (hes : leaves.flatMap Tip.entries = es) (hfew : leaves.length ≤ 2)
    (hplaces : ∀ us vs, b.tips = us ++ tip :: vs → us = xs ∧ vs = ys)
    (hchain : ∀ nb, (∀ i : PageIndex, i.toNat < s₁.size → nb i = s₁.neighbours i) →
      Linked nb 0 ((xs ++ leaves ++ ys).map Tip.page) 0)
    (hcap : 1 ≤ Branch.capacity t.mounted.volume.pageSize) (hsize : s₁.size + h + 1 < UInt64.size) :
    ∃ t' s' h', ∃ b' : Shape h', run.Gives t₁ b'.page t' ∧
      Refilled t file base s b tip es t' s' b' := by
  have hps : t₁.mounted.volume.pageSize = t.mounted.volume.pageSize := by rw [ha.mounted]
  have htips : ∀ {parts : List Tip},
      (∃ us vs, b.tips = us ++ tip :: vs ∧ parts = us ++ leaves ++ vs) → parts = xs ++ leaves ++ ys := by
    rintro parts ⟨us, vs, hu, rfl⟩
    obtain ⟨rfl, rfl⟩ := hplaces us vs hu
    rfl
  have hall : ∀ {parts : List Tip}, parts = xs ++ leaves ++ ys →
      ∀ us vs, b.tips = us ++ tip :: vs → parts = us ++ leaves ++ vs := by
    rintro parts rfl us vs hu
    obtain ⟨rfl, rfl⟩ := hplaces us vs hu
    rfl
  rw [← hps] at hb hcap
  cases hends with
  | @done t' s' b' hc hpage hg =>
    have ht := htips hc.becomes.tips
    rw [List.flatMap_singleton] at ht
    refine ⟨t', s', h, b', hpage ▸ hg, ha.trans hc.alters, hc.shows, hc.info.trans hinfo,
      hps ▸ hc.laid hb hpos (ht ▸ hchain _ hc.neighbours), leaves, hes, hfew, hall ht⟩
  | @above t' s' m l r hc hpage hgoes =>
    have ht := htips hc.becomes.tips
    have hnd := (hc.pages_fresh hb hpos).nodup_iff.mpr
      (nodup_freshPages (Nat.le_of_lt hc.shows.size_lt))
    obtain ⟨nl, hnl⟩ := (hc.stored l (by simp)).exists_node _ l.page_mem_pages
    obtain ⟨nr, hnr⟩ := (hc.stored r (by simp)).exists_node _ r.page_mem_pages
    have hne : l.page ≠ r.page := by
      intro heq
      simp only [List.flatMap_cons, List.flatMap_nil, List.append_nil] at hnd
      exact (List.nodup_append.mp hnd).2.2 _ l.page_mem_pages _ r.page_mem_pages heq
    have hgrown := hc.size_le
    obtain ⟨t₂, s₂, hg, ha₂, hs₂, hz₂, hi₂, htop, hl₂, hr₂, hrest₂, hnb₂⟩ :=
      hc.shows.insertAbove_grows hnl hnr hne (by rw [hc.alters.mounted]; exact hcap) (by omega)
        b.page m k
    have hroots : ∀ c ∈ [l, r],
        s₂.plain c.page = (s'.plain c.page).map (Node.withParent (UInt64.ofNat s'.size)) := by
      intro c hm
      rcases List.mem_cons.mp hm with rfl | hm
      · rw [hl₂, hnl]
        rfl
      · obtain rfl := List.mem_singleton.mp hm
        rw [hr₂, hnr]
        rfl
    have hnb : ∀ i : PageIndex, i.toNat < s₁.size → s₂.neighbours i = s₁.neighbours i := by
      intro i hi
      refine (hnb₂ i ?_).trans (hc.neighbours i hi)
      rintro rfl
      rw [hc.shows.size_toNat] at hi
      exact absurd hi (Nat.not_lt.mpr hc.size_ge)
    refine ⟨t₂, s₂, h + 1, .branch (h := h) ⟨UInt64.ofNat s'.size, [m], [l, r]⟩, ?_,
      (ha.trans hc.alters).trans ha₂, hs₂, (hi₂.trans hc.info).trans hinfo, ?_, leaves, hes, hfew,
      hall ht⟩
    · rw [hpage] at hg
      exact hgoes.trans hg
    · rw [← hps]
      exact hc.laid_grown hb hpos hcap hz₂ htop hroots hrest₂ (ht ▸ hchain _ hnb)

namespace Shows

variable {t : Transaction} {file : FileId} {base : List Page} {s : Sheet} {h : Nat} {b : Shape h}
  {tip : Tip} {links : NodeLinks} {key : Key} {es : List Entry}

/-- A leaf that is still small enough is written in its place. -/
theorem refill (hs : Shows t file base s) (hb : Laid t.mounted.volume.pageSize s b)
    (hl : b.LeadsTo key tip) (hnode : s.node tip.page = some (.leaf ⟨links, tip.entries⟩))
    (ho : Entries.InOrder es) (hkeys : ∀ x ∈ es, x ∈ tip.entries ∨ x.key = key)
    (hroom : es.length ≤ Leaf.capacity t.mounted.volume.pageSize) :
    ∃ t' s', ∃ b' : Shape h, (Tree.writeNode file tip.page (.leaf ⟨links, es⟩)).Gives t () t' ∧
      Refilled t file base s b tip es t' s' b' ∧ b'.page = b.page ∧
      b'.tips.length = b.tips.length := by
  obtain ⟨t', hg, ha, hs'⟩ := hs.writeNode (.leaf ⟨links, es⟩) (hs.node_ne_zero hnode)
    (hs.node_lt hnode) hroom trivial
  set s' := s.withNode tip.page (Node.leaf ⟨links, es⟩).counted with hs'd
  have hps : t'.mounted.volume.pageSize = t.mounted.volume.pageSize := by rw [ha.mounted]
  have hnd := hb.nodup (Nat.le_of_lt hs.size_lt)
  have hnew : RewrittenAt s s' tip links.parent es := by
    refine ⟨rfl, by rw [Sheet.plain, hnode]; rfl, ?_, fun i hi => ?_⟩
    · rw [Sheet.plain_withNode, if_pos rfl]
      rfl
    · rw [Sheet.plain_withNode, if_neg hi]
  have hnb : ∀ j, s'.neighbours j = s.neighbours j := by
    intro j
    rw [Sheet.neighbours_withNode]
    split
    · next heq =>
      rw [heq, Sheet.neighbours, hnode]
      rfl
    · rfl
  obtain ⟨b', hc, hpage⟩ := hs.rewrite hs' hnew ho hkeys (hps ▸ hroom) hb.stored hb.ordered
    (hps ▸ hb.fits) hnd hl (within_none key)
  obtain ⟨xs, ys, htips, htips'⟩ := hc.becomes.tips
  rw [List.flatMap_singleton] at htips'
  have hmap : b'.tips.map Tip.page = b.tips.map Tip.page := by
    rw [htips, htips']
    simp
  have hlaid : Laid t'.mounted.volume.pageSize s' b' :=
    hc.laid (hps ▸ hb) hs.size_pos (hmap ▸ hb.linked.congr fun j _ => hnb j)
  refine ⟨t', s', b', hg, ⟨ha, hs', rfl, hps ▸ hlaid, [⟨tip.page, es⟩], by simp, by simp, ?_⟩, hpage,
    by simpa using congrArg List.length hmap⟩
  intro us vs hu
  obtain ⟨rfl, rfl⟩ := hb.tips_unique (Nat.le_of_lt hs.size_lt) htips hu
  exact htips'

/-- A leaf with an entry too many is split, and the right half is noted above, up to a new root. -/
theorem refill_split (hs : Shows t file base s) (hb : Laid t.mounted.volume.pageSize s b)
    (hl : b.LeadsTo key tip) (hnode : s.node tip.page = some (.leaf ⟨links, tip.entries⟩))
    (ho : Entries.InOrder es) (hkeys : ∀ x ∈ es, x ∈ tip.entries ∨ x.key = key)
    (hover : es.length = Leaf.capacity t.mounted.volume.pageSize + 1)
    (hleaf : 1 ≤ Leaf.capacity t.mounted.volume.pageSize)
    (hbranch : 2 ≤ Branch.capacity t.mounted.volume.pageSize) (hsize : 2 * s.size < UInt64.size) :
    ∃ t' s' h', ∃ b' : Shape h', (splitLeaf file b.page tip.page ⟨links, es⟩).Gives t b'.page t' ∧
      Refilled t file base s b tip es t' s' b' := by
  have hhigh := hb.height_lt hs.size_pos
  have hnd := hb.nodup (Nat.le_of_lt hs.size_lt)
  obtain ⟨below, e, above, hbelow, habove⟩ : ∃ below e above,
      es.take (es.length / 2) = below ∧ es.drop (es.length / 2) = e :: above :=
    ⟨_, _, _, rfl, List.drop_eq_getElem_cons (by omega)⟩
  have hes : below ++ e :: above = es := by rw [← hbelow, ← habove, List.take_append_drop]
  have hlow : below.length = es.length / 2 := by
    rw [← hbelow, List.length_take]
    omega
  have hhi : (e :: above).length = es.length - es.length / 2 := by
    rw [← habove, List.length_drop]
  have hbn : below ≠ [] := List.ne_nil_of_length_pos (by omega)
  obtain ⟨xs, ys, htips, -⟩ := hb.ordered.around (within_none key) hl
  obtain ⟨t₁, s₁, hrun, ha₁, hs₁, hinfo, hat, hp, ha, hnext, hrest⟩ :=
    hs.splitLeaf_start hnode hbelow habove (by omega) (by omega)
      (hb.next_node hs htips hnode) (by omega) b.page
  have hlinked := hb.linked_put hs htips hnode hp ha hnext hrest
  have hsize₁ := hat.size
  have hps : t₁.mounted.volume.pageSize = t.mounted.volume.pageSize := by rw [ha₁.mounted]
  obtain ⟨k, hk⟩ : ∃ k, 2 * (s.size + 2) = k + 1 + h := ⟨2 * (s.size + 2) - 1 - h, by omega⟩
  have hends := hs.climb hs₁ hat hbn (hes ▸ ho) (hes ▸ hkeys) (by rw [hps]; omega) (by rw [hps]; omega) b.page hb.stored
    hb.ordered (hps ▸ hb.fits) hnd hl (within_none key) (hps ▸ hbranch) (by omega) (k + 1)
  rw [← hk] at hends
  obtain ⟨t', s', h', b', hg, href⟩ := hends.refilled ha₁ hb hs.size_pos hinfo
    (by simpa using hes) (Nat.le_refl 2)
    (fun us vs hu => hb.tips_unique (Nat.le_of_lt hs.size_lt) hu htips)
    (fun nb hnb => hb.linked_halves hs htips hlinked (hat.size ▸ hnb) below (e :: above))
    (by omega) (by omega)
  exact ⟨t', s', h', b', hrun.trans hg, href⟩

end Shows

end RefStore.Tree
