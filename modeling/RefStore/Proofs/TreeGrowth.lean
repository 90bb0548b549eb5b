import RefStore.Proofs.TreeShapes

/-!
# Growth of shapes

What an insertion or a removal puts in the place of a shape: one shape, or two with a key between
them. The place of a child in a branch is taken by what the child has become, and a branch that grows
too large is halved. Main statements: `Becomes.graft` and `Becomes.halve`.
-/

namespace RefStore.Tree

/-- A child of a branch replaced by shapes with keys between them. -/
def Fork.graft {α : Type} (f : Fork α) (i : Nat) (keys : List Key) (parts : List α) : Fork α :=
  ⟨f.page, f.keys.take i ++ keys ++ f.keys.drop i, f.children.take i ++ parts ++ f.children.drop (i + 1)⟩

def Fork.lower {α : Type} (f : Fork α) (middle : Nat) : Fork α :=
  ⟨f.page, f.keys.take middle, f.children.take (middle + 1)⟩

def Fork.upper {α : Type} (f : Fork α) (added : PageIndex) (middle : Nat) : Fork α :=
  ⟨added, f.keys.drop (middle + 1), f.children.drop (middle + 1)⟩

theorem Fork.length_graft {α : Type} {f : Fork α} {i : Nat} (hi : i ≤ f.keys.length)
    (keys : List Key) (parts : List α) :
    (f.graft i keys parts).keys.length = f.keys.length + keys.length := by
  simp only [graft, List.length_append, List.length_take, List.length_drop]
  omega

theorem flatMap_window {α β : Type} {xs : List α} {i : Nat} {c : α} (hc : xs[i]? = some c)
    (g : α → List β) :
    xs.flatMap g = (xs.take i).flatMap g ++ g c ++ (xs.drop (i + 1)).flatMap g := by
  obtain ⟨hi, rfl⟩ := List.getElem?_eq_some_iff.mp hc
  rw [List.append_assoc, ← List.flatMap_cons, ← List.drop_eq_getElem_cons hi, ← List.flatMap_append,
    List.take_append_drop]

/-- `b` may become `parts`, with `keys` between them: the leaf `tip` gives way to `leaves`, `new` pages
are taken up, and the span and the limits on nodes are kept. -/
structure Becomes (pageSize : Nat) (lo hi : Option Key) (tip : Tip) (leaves : List Tip)
    (new : List PageIndex) {h : Nat} (b : Shape h) (keys : List Key) (parts : List (Shape h)) :
    Prop where
  ordered : Spaced Shape.Ordered lo keys parts hi
  fits : ∀ c ∈ parts, c.Fits pageSize
  pages : (parts.flatMap Shape.pages).Perm (b.pages ++ new)
  tips : ∃ xs ys, b.tips = xs ++ tip :: ys ∧ parts.flatMap Shape.tips = xs ++ leaves ++ ys

namespace Becomes

variable {pageSize h : Nat} {lo hi l u : Option Key} {tip : Tip} {leaves : List Tip}
  {new : List PageIndex}

/-- A leaf that is still small enough. -/
theorem leaf {es : List Entry} (hs : Span lo hi) (ho : Entries.InOrder es)
    (hw : ∀ e ∈ es, Within lo hi e.key) (hf : es.length ≤ Leaf.capacity pageSize) :
    Becomes pageSize lo hi tip [⟨tip.page, es⟩] [] (.leaf tip) [] [.leaf ⟨tip.page, es⟩] where
  ordered := .last ⟨hs, ho, hw⟩
  fits c hc := by
    obtain rfl := List.mem_singleton.mp hc
    exact hf
  pages := List.Perm.refl [tip.page]
  tips := ⟨[], [], rfl, rfl⟩

/-- A leaf cut in two before an entry. -/
theorem halves {below above : List Entry} {e : Entry} {added : PageIndex} (hb : below ≠ [])
    (ho : Entries.InOrder (below ++ e :: above))
    (hw : ∀ x ∈ below ++ e :: above, Within lo hi x.key)
    (hl : below.length ≤ Leaf.capacity pageSize)
    (hr : (e :: above).length ≤ Leaf.capacity pageSize) :
    Becomes pageSize lo hi tip [⟨tip.page, below⟩, ⟨added, e :: above⟩] [added] (.leaf tip)
      [e.key] [.leaf ⟨tip.page, below⟩, .leaf ⟨added, e :: above⟩] where
  ordered := by
    obtain ⟨hbo, hao, hlt⟩ := List.pairwise_append.mp ho
    have hbelow : ∀ x ∈ below, x.key < e.key := fun x hx => hlt x hx e List.mem_cons_self
    have hwe : Within lo hi e.key := hw e (by simp)
    obtain ⟨b, hbm⟩ := List.exists_mem_of_ne_nil below hb
    refine .cons ⟨?_, hbo, fun x hx => ⟨?_, ?_⟩⟩
      (.last ⟨?_, hao, fun x hx => ⟨?_, ?_⟩⟩)
    · rintro x hx u ⟨⟩
      exact lt_of_le_of_lt ((hw b (List.mem_append_left _ hbm)).1 x hx) (hbelow b hbm)
    · exact (hw x (List.mem_append_left _ hx)).1
    · rintro u ⟨⟩
      exact hbelow x hx
    · rintro x ⟨⟩ u hu
      exact hwe.2 u hu
    · rintro y ⟨⟩
      rcases List.mem_cons.mp hx with rfl | hx
      · exact le_refl _
      · exact le_of_lt ((List.pairwise_cons.mp hao).1 x hx)
    · exact (hw x (List.mem_append_right _ hx)).2
  fits c hc := by
    rcases List.mem_cons.mp hc with rfl | hc
    · exact hl
    · obtain rfl := List.mem_singleton.mp hc
      exact hr
  pages := List.Perm.refl [tip.page, added]
  tips := ⟨[], [], rfl, rfl⟩

section

variable {f : Fork (Shape h)} {c : Shape h} {i : Nat} {keys : List Key} {parts : List (Shape h)}

theorem pages_graft (hb : Becomes pageSize l u tip leaves new c keys parts)
    (hc : f.children[i]? = some c) :
    ((f.graft i keys parts).children.flatMap Shape.pages).Perm
      (f.children.flatMap Shape.pages ++ new) := by
  rw [flatMap_window hc, Fork.graft, List.flatMap_append, List.flatMap_append, List.append_assoc,
    List.append_assoc, List.append_assoc]
  refine List.Perm.append_left _ ?_
  refine (hb.pages.append_right _).trans ?_
  rw [List.append_assoc]
  exact List.perm_append_comm.append_left _

theorem tips_graft (hb : Becomes pageSize l u tip leaves new c keys parts)
    (hc : f.children[i]? = some c) :
    ∃ xs ys, f.children.flatMap Shape.tips = xs ++ tip :: ys ∧
      (f.graft i keys parts).children.flatMap Shape.tips = xs ++ leaves ++ ys := by
  obtain ⟨xs, ys, hx, hy⟩ := hb.tips
  refine ⟨(f.children.take i).flatMap Shape.tips ++ xs,
    ys ++ (f.children.drop (i + 1)).flatMap Shape.tips, ?_, ?_⟩
  · rw [flatMap_window hc, hx]
    simp only [List.append_assoc, List.cons_append]
  · rw [Fork.graft, List.flatMap_append, List.flatMap_append, hy]
    simp only [List.append_assoc]

theorem fits_graft (hb : Becomes pageSize l u tip leaves new c keys parts)
    (hf : ∀ d ∈ f.children, d.Fits pageSize) :
    ∀ d ∈ (f.graft i keys parts).children, d.Fits pageSize := by
  intro d hd
  rcases List.mem_append.mp hd with hd | hd
  · rcases List.mem_append.mp hd with hd | hd
    · exact hf d (List.mem_of_mem_take hd)
    · exact hb.fits d hd
  · exact hf d (List.mem_of_mem_drop hd)

/-- A branch with room for what its child has become. -/
theorem graft (hb : Becomes pageSize l u tip leaves new c keys parts)
    (hc : f.children[i]? = some c) (hf : (Shape.branch f).Fits pageSize) (hi : i ≤ f.keys.length)
    (hs : (Shape.branch (f.graft i keys parts)).Ordered lo hi')
    (hroom : (f.graft i keys parts).keys.length ≤ Branch.capacity pageSize) :
    Becomes pageSize lo hi' tip leaves new (.branch f) [] [.branch (f.graft i keys parts)] where
  ordered := .last hs
  fits d hd := by
    obtain ⟨hpos, -, hcs⟩ := Shape.fits_branch.mp hf
    obtain rfl := List.mem_singleton.mp hd
    refine Shape.fits_branch.mpr ⟨?_, hroom, hb.fits_graft hcs⟩
    rw [Fork.length_graft hi]
    exact Nat.lt_of_lt_of_le hpos (Nat.le_add_right _ _)
  pages := by
    rw [List.flatMap_singleton]
    exact (hb.pages_graft hc).cons f.page
  tips := by
    rw [List.flatMap_singleton]
    exact hb.tips_graft hc

/-- A branch that has grown by one key too many. -/
theorem halve {m : Key} {added : PageIndex} (hb : Becomes pageSize l u tip leaves new c keys parts)
    (hc : f.children[i]? = some c) (hf : (Shape.branch f).Fits pageSize) {g : Fork (Shape h)}
    (hg : f.graft i keys parts = g) (hs : (Shape.branch g).Ordered lo hi')
    (hfew : g.keys.length ≤ Branch.capacity pageSize + 1) (hmany : 2 < g.keys.length)
    (hm : g.keys[g.keys.length / 2]? = some m) :
    Becomes pageSize lo hi' tip leaves (new ++ [added]) (.branch f) [m]
      [.branch (g.lower (g.keys.length / 2)), .branch (g.upper added (g.keys.length / 2))] where
  ordered := by
    obtain ⟨hl, hr⟩ := Spaced.cut hs hm
    exact .cons hl (.last hr)
  fits d hd := by
    obtain ⟨-, -, hcs⟩ := Shape.fits_branch.mp hf
    have hparts := hb.fits_graft (i := i) hcs
    rw [hg] at hparts
    rcases List.mem_cons.mp hd with rfl | hd
    · refine Shape.fits_branch.mpr ⟨?_, ?_, fun d hd => hparts d (List.mem_of_mem_take hd)⟩ <;>
        simp only [Fork.lower, List.length_take] <;> omega
    · obtain rfl := List.mem_singleton.mp hd
      refine Shape.fits_branch.mpr ⟨?_, ?_, fun d hd => hparts d (List.mem_of_mem_drop hd)⟩ <;>
        simp only [Fork.upper, List.length_drop] <;> omega
  pages := by
    have hp := hb.pages_graft hc
    rw [hg, ← List.take_append_drop (g.keys.length / 2 + 1) g.children, List.flatMap_append] at hp
    simp only [List.flatMap_cons, List.flatMap_nil, List.append_nil, Shape.pages_branch, Fork.lower,
      Fork.upper, List.cons_append]
    have hpage : g.page = f.page := by
      rw [← hg]
      rfl
    rw [hpage]
    refine List.Perm.cons f.page (List.perm_middle.trans ?_)
    rw [← List.append_assoc]
    exact (hp.cons added).trans (List.perm_append_singleton added _).symm
  tips := by
    obtain ⟨xs, ys, hx, hy⟩ := hb.tips_graft hc
    refine ⟨xs, ys, hx, ?_⟩
    rw [hg, ← List.take_append_drop (g.keys.length / 2 + 1) g.children, List.flatMap_append] at hy
    simpa [Fork.lower, Fork.upper] using hy

end

end Becomes

end RefStore.Tree
