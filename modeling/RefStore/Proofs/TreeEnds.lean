import Mathlib.Data.List.Induction
import RefStore.Proofs.TreeScans

/-!
# The last key of a range

A search for the last key of a range starts at the leaf for the upper bound and follows the links
backwards. It comes to the last entry of the range. A search for the last key of all starts at the last
leaf. Main statements: `Shows.lastKeyBetween`, `Shows.lastKey`.
-/

namespace RefStore.Tree

namespace KeyRange

variable {es : List Entry} {low high : Key}

/-- The last entry up to the upper bound is the last one of the range, or the range is empty. -/
theorem getLast?_pick (h : Entries.InOrder es) :
    ((closed low high).pick es).getLast?.map Entry.key =
      ((es.filter fun e => e.key.le high).getLast?.map Entry.key).filter low.le := by
  have habove (e : Entry) : (!(closed low high).isAbove e.key) = e.key.le high := by
    rw [Bool.eq_iff_iff, Bool.not_eq_true', ← Bool.not_eq_true, isAbove_iff, le_iff]
    exact not_lt
  have hbelow (e : Entry) : (!(closed low high).isBelow e.key) = low.le e.key := by
    rw [Bool.eq_iff_iff, Bool.not_eq_true', ← Bool.not_eq_true, isBelow_iff, le_iff]
    exact not_lt
  have hpick : (closed low high).pick es = (es.filter fun e => e.key.le high).filter fun e => low.le e.key := by
    rw [pick, List.filter_filter]
    exact List.filter_congr fun e _ => by rw [habove, hbelow]
  rw [hpick]
  have hord : Entries.InOrder (es.filter fun e => e.key.le high) := h.filter _
  generalize es.filter (fun e => e.key.le high) = xs at hord
  rcases List.eq_nil_or_concat xs with rfl | ⟨init, e, rfl⟩
  · rfl
  rw [List.concat_eq_append] at hord ⊢
  rw [List.filter_append, List.getLast?_concat, Option.map_some]
  by_cases hlow : low.le e.key = true
  · rw [List.filter_singleton, hlow, cond_true, List.getLast?_concat, Option.filter_some, if_pos hlow]
    rfl
  · -- what stands before the last entry is below the range as well
    have hnone : init.filter (fun x => low.le x.key) = [] := by
      refine List.filter_eq_nil_iff.mpr fun x hx hle => hlow (le_iff.mpr ?_)
      have hlt : x.key < e.key := (List.pairwise_append.mp hord).2.2 x hx e List.mem_cons_self
      exact le_trans (le_iff.mp hle) (le_of_lt hlt)
    rw [Bool.not_eq_true] at hlow
    rw [hnone, List.filter_singleton, hlow, cond_false, Option.filter_some, hlow,
      if_neg Bool.false_ne_true]
    rfl

end KeyRange

namespace Laid

variable {pageSize h : Nat} {s : Sheet} {b : Shape h} {tip : Tip} {links : NodeLinks} {xs ys : List Tip}

/-- To any leaf the links lead backwards through all the leaves before it. -/
theorem trail_back (hb : Laid pageSize s b) (htips : b.tips = xs ++ ys) :
    ∃ leaves, Trail s NodeLinks.previous ((xs.map Tip.page).getLastD 0) leaves ∧
      leaves.map Leaf.entries = xs.reverse.map Tip.entries := by
  induction xs using List.reverseRecOn generalizing ys with
  | nil => exact ⟨[], .stop, rfl⟩
  | append_singleton xs x ih =>
    have hcons : b.tips = xs ++ x :: ys := by simp [htips]
    obtain ⟨links, hnode⟩ := hb.node_tip (by simp [hcons] : x ∈ b.tips)
    obtain ⟨leaves, ht, heq⟩ := ih hcons
    refine ⟨⟨links, x.entries⟩ :: leaves, ?_, by simp [heq]⟩
    rw [List.map_append, List.map_singleton, List.getLastD_concat]
    refine .step hnode ?_
    rw [(hb.links_eq hcons hnode).1]
    exact ht

end Laid

namespace Shows

variable {t : Transaction} {tree : Tree} {base : List Page} {s : Sheet} {h : Nat} {b : Shape h}

/-- The greatest key of a range is that of its last entry. -/
theorem lastKeyBetween (hatt : tree.component.isAttached) (hs : Shows t tree.component.file base s)
    (hb : Intact t.mounted.volume.pageSize s b) (low high : Key) :
    (tree.lastKeyBetween low high).Gives t
      (((KeyRange.closed low high).pick b.entries).getLast?.map Entry.key) t := by
  obtain ⟨tip, links, xs, ys, -, htips, hin, hx, hy, hnode, hfind⟩ := hs.exists_leafFor hb high
  obtain ⟨leaves, ht, hleaves⟩ := hb.trail_back htips
  rw [← (hb.links_eq htips hnode).1] at ht
  have hlen : (⟨links, tip.entries⟩ :: leaves : List Leaf).length ≤ s.size + 1 := by
    have hcount := congrArg List.length hleaves
    have := hb.length_tips_lt hs.size_pos
    rw [htips, List.length_append, List.length_cons] at this
    rw [List.length_map, List.length_map, List.length_reverse] at hcount
    rw [List.length_cons]
    omega
  -- nothing after the leaf for the upper bound is in the range
  have hnone : (ys.flatMap Tip.entries).filter (fun e => e.key.le high) = [] :=
    List.filter_eq_nil_iff.mpr fun e he hle => not_le.mpr (hy e he) (KeyRange.le_iff.mp hle)
  have hback : (tip :: xs.reverse).flatMap (fun x => x.entries.reverse) =
      ((xs ++ [tip]).flatMap Tip.entries).reverse := by
    rw [List.reverse_flatMap, List.reverse_append, List.reverse_singleton, List.singleton_append]
    rfl
  have hshown : (⟨links, tip.entries⟩ :: leaves : List Leaf).findSome? (fun leaf =>
      (leaf.entries.reverse.find? fun e => e.key.le high).map Entry.key) =
        (b.entries.filter fun e => e.key.le high).getLast?.map Entry.key := by
    have hentries : (⟨links, tip.entries⟩ :: leaves : List Leaf).map Leaf.entries =
        (tip :: xs.reverse).map Tip.entries := by
      rw [List.map_cons, List.map_cons, hleaves]
    have hsame {f : List Entry → Option Key} : (⟨links, tip.entries⟩ :: leaves : List Leaf).findSome?
        (fun leaf => f leaf.entries) = (tip :: xs.reverse).findSome? fun x => f x.entries := by
      have hmap := congrArg (List.findSome? f) hentries
      rwa [List.findSome?_map, List.findSome?_map] at hmap
    have hall : b.entries = (xs ++ [tip]).flatMap Tip.entries ++ ys.flatMap Tip.entries := by
      rw [Shape.entries, htips, ← List.flatMap_append, List.append_assoc, List.singleton_append]
    rw [hsame (f := fun es => (es.reverse.find? fun e => e.key.le high).map Entry.key), hall,
      List.filter_append, hnone, List.append_nil, ← List.head?_reverse, ← List.filter_reverse,
      List.head?_filter, ← hback, List.find?_flatMap, List.map_findSome?]
    rfl
  have hwalk := hs.walk (.step hnode ht) (List.cons_ne_nil _ _)
    (fun leaf => (leaf.entries.reverse.find? fun e => e.key.le high).map Entry.key) hlen
  rw [hshown] at hwalk
  refine (file_gives hatt t).bind (hs.readMeta.bind (hfind.bind (hs.steps.bind (hwalk.bind ?_))))
  rw [KeyRange.getLast?_pick hb.ordered.entries.1]
  exact .pure _ t

/-- Going down by the last children ends at the last leaf. -/
theorem descend_last {file : FileId} (hs : Shows t file base s) {parent : PageIndex} {lo hi : Option Key}
    (hstored : b.Stored s.plain parent) (hord : b.Ordered lo hi) {fuel : Nat} (hfuel : h < fuel) :
    ∃ tip xs, b.tips = xs ++ [tip] ∧
      (Tree.descend file (·.children.getLast?) fuel b.page).Gives t tip.page t := by
  obtain ⟨fuel, rfl⟩ := Nat.exists_eq_add_one_of_ne_zero (Nat.ne_of_gt (Nat.zero_lt_of_lt hfuel))
  induction h generalizing parent lo hi fuel with
  | zero => exact ⟨b, [], rfl, hs.descend_tip hstored _ fuel⟩
  | succ h ih =>
    have hsp := Shape.ordered_branch.mp hord
    have hpos : Fork.children b ≠ [] :=
      List.length_pos_iff.mp (by rw [hsp.length]; exact Nat.succ_pos _ : 0 < (Fork.children b).length)
    obtain ⟨cs, c, hchildren⟩ := (List.eq_nil_or_concat _).resolve_left hpos
    rw [List.concat_eq_append] at hchildren
    have hcm : c ∈ Fork.children b := hchildren ▸ List.mem_append_right _ List.mem_cons_self
    obtain ⟨l, u, hcord⟩ := hsp.exists_of_mem c hcm
    obtain ⟨fuel, rfl⟩ := Nat.exists_eq_add_one_of_ne_zero (n := fuel) (by omega)
    obtain ⟨tip, xs, htips, hg⟩ := ih ((Shape.stored_branch.mp hstored).2 c hcm) hcord fuel (by omega)
    refine ⟨tip, cs.flatMap Shape.tips ++ xs, ?_,
      hs.descend_child hstored (p := List.getLast?) hcm (by simp [hchildren]) hg⟩
    have hall : Shape.tips b = (Fork.children b).flatMap Shape.tips := Shape.tips_branch b
    rw [hall, hchildren, List.flatMap_append, List.flatMap_singleton, htips, List.append_assoc]

/-- The greatest key is that of the last entry. -/
theorem lastKey (hatt : tree.component.isAttached) (hs : Shows t tree.component.file base s)
    (hb : Intact t.mounted.volume.pageSize s b) :
    tree.lastKey.Gives t (b.entries.getLast?.map Entry.key) t := by
  have hh := hb.height_lt hs.size_pos
  obtain ⟨tip, xs, htips, hdown⟩ := hs.descend_last hb.stored hb.ordered
    (Nat.lt_succ_of_lt (Nat.lt_of_succ_lt hh))
  have hall : b.tips = (xs ++ [tip]) ++ [] := by simpa using htips
  obtain ⟨leaves, ht, hleaves⟩ := hb.trail_back hall
  rw [List.map_append, List.map_singleton, List.getLastD_concat] at ht
  have hlen : leaves.length = b.tips.length := by
    have := congrArg List.length hleaves
    simpa [htips] using this
  have hlast : leaves.findSome? (fun leaf => leaf.entries.getLast?.map Entry.key) =
      b.entries.getLast?.map Entry.key := by
    have hflat : b.entries.reverse = (leaves.map Leaf.entries).flatMap List.reverse := by
      rw [hleaves, Shape.entries, List.reverse_flatMap, htips, List.flatMap_map]
      rfl
    rw [← List.head?_reverse, hflat, List.flatMap_map, List.head?_flatMap, List.map_findSome?]
    refine congrArg (List.findSome? · leaves) (funext fun leaf => ?_)
    rw [Function.comp_apply, List.head?_reverse]
  refine (file_gives hatt t).bind (hs.readMeta.bind (hs.steps.bind ?_))
  rw [← hb.root]
  refine hdown.bind ?_
  rw [← hlast]
  exact hs.walk ht (by rintro rfl; simp [htips] at hlen) _ (by
    have := hb.length_tips_lt hs.size_pos
    omega)

end Shows

end RefStore.Tree
