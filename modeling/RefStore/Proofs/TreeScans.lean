import RefStore.Proofs.TreeUpdates
import RefStore.Tree.Scan

/-!
# Scans of an intact tree

What following the links between the leaves of a tree comes to: the entries of a range in key order,
and the least key of a range or of the whole tree. Main statements: `Shows.scan` and `Shows.firstKey`.
-/

namespace RefStore.Tree

/-! ## Ranges of entries in order -/

namespace KeyRange

variable {r : KeyRange} {a b key : Key} {es : List Entry}

/-- The keys between the bounds. -/
def Covers (r : KeyRange) (key : Key) : Prop :=
  (if r.includesLow then r.low ≤ key else r.low < key) ∧
    if r.includesHigh then key ≤ r.high else key < r.high

/-- The entries between the bounds. -/
def pick (r : KeyRange) (es : List Entry) : List Entry :=
  es.filter fun e => !r.isBelow e.key && !r.isAbove e.key

theorem lt_iff : a.lt b = true ↔ a < b := by
  rw [Key.lt, Ordering.isLT_iff_eq_lt]
  exact Key.compare_eq_lt

theorem le_iff : a.le b = true ↔ a ≤ b := Iff.rfl

theorem isBelow_iff : r.isBelow key = true ↔ if r.includesLow then key < r.low else key ≤ r.low := by
  rw [isBelow]
  split
  · exact lt_iff
  · exact le_iff

theorem isAbove_iff : r.isAbove key = true ↔ if r.includesHigh then r.high < key else r.high ≤ key := by
  rw [isAbove]
  split
  · exact lt_iff
  · exact le_iff

theorem covers_iff : r.Covers key ↔ ¬ r.isBelow key = true ∧ ¬ r.isAbove key = true := by
  rw [Covers, isBelow_iff, isAbove_iff]
  split <;> split <;> simp only [not_lt, not_le]

theorem isBelow_mono (h : r.isBelow b = true) (hab : a ≤ b) : r.isBelow a = true := by
  rw [isBelow_iff] at h ⊢
  split at h
  · next hl =>
    rw [if_pos hl]
    exact lt_of_le_of_lt hab h
  · next hl =>
    rw [if_neg hl]
    exact le_trans hab h

/-- Keys after one of the range are in the range, as far as its upper bound goes. -/
theorem Covers.after {low high last key : Key} {includesLow includesHigh : Bool}
    (hlast : Covers ⟨low, includesLow, high, includesHigh⟩ last)
    (hkey : Covers ⟨last, false, high, includesHigh⟩ key) :
    Covers ⟨low, includesLow, high, includesHigh⟩ key := by
  rw [covers_iff] at hlast hkey ⊢
  refine ⟨fun hbelow => hlast.1 (isBelow_mono hbelow ?_), hkey.2⟩
  have hlt := hkey.1
  rw [isBelow_iff, if_neg Bool.false_ne_true, not_le] at hlt
  exact le_of_lt hlt

theorem isAbove_mono (h : r.isAbove a = true) (hab : a ≤ b) : r.isAbove b = true := by
  rw [isAbove_iff] at h ⊢
  split at h
  · next hh =>
    rw [if_pos hh]
    exact lt_of_lt_of_le h hab
  · next hh =>
    rw [if_neg hh]
    exact le_trans h hab

theorem mem_pick {e : Entry} : e ∈ r.pick es ↔ e ∈ es ∧ r.Covers e.key := by
  rw [pick, List.mem_filter, covers_iff]
  simp

theorem inOrder_pick (h : Entries.InOrder es) : Entries.InOrder (r.pick es) := h.filter _

/-- The bisection of a leaf skips the entries below the range. -/
theorem drop_leading (h : Entries.InOrder es) :
    es.drop (Bisection.leading es fun e => r.isBelow e.key) = es.filter fun e => !r.isBelow e.key := by
  have hin : Bisection.InOrder es fun e => if r.isBelow e.key then .lt else .gt := by
    refine List.Pairwise.imp (fun {x y} hxy => ?_) h
    by_cases hx : r.isBelow x.key = true
    · exact .inl (if_pos hx)
    · exact .inr (if_neg fun hy => hx (isBelow_mono hy (le_of_lt hxy)))
  have ha := Bisection.search_answers hin
  rw [Bisection.leading]
  cases hf : Bisection.search es fun e => if r.isBelow e.key then .lt else .gt with
  | found i =>
    rw [hf] at ha
    obtain ⟨e, -, he, -⟩ := ha
    dsimp only at he
    split at he <;> cases he
  | absent i =>
    rw [hf] at ha
    obtain ⟨-, hbelow, hrest⟩ := ha
    have htake : (es.take i).filter (fun e => !r.isBelow e.key) = [] := by
      refine List.filter_eq_nil_iff.mpr fun e he => ?_
      have := hbelow e he
      dsimp only at this
      split at this
      · next hb => simp [hb]
      · cases this
    have hdrop : (es.drop i).filter (fun e => !r.isBelow e.key) = es.drop i := by
      refine List.filter_eq_self.mpr fun e he => ?_
      have := hrest e he
      dsimp only at this
      split at this
      · cases this
      · next hb => simpa using hb
    rw [← List.take_append_drop i es, List.filter_append, htake, hdrop, List.take_append_drop,
      List.nil_append]

/-- No entry after the first one above the range is in it. -/
theorem takeWhile_eq_filter (h : Entries.InOrder es) :
    (es.takeWhile fun e => !r.isAbove e.key) = es.filter fun e => !r.isAbove e.key := by
  induction es with
  | nil => rfl
  | cons e es ih =>
    obtain ⟨hlt, hes⟩ := List.pairwise_cons.mp h
    by_cases he : r.isAbove e.key = true
    · have hnone : es.filter (fun x => !r.isAbove x.key) = [] := by
        refine List.filter_eq_nil_iff.mpr fun x hx => ?_
        simp [isAbove_mono he (le_of_lt (hlt x hx))]
      simp [he, hnone]
    · simp [he, ih hes]

end KeyRange

/-! ## Following links -/

/-- All of some entries, or the first of them if there is a limit. -/
def limited (limit : Option Nat) (es : List Entry) : List Entry := es.take (limit.getD es.length)

theorem limited_none (es : List Entry) : limited none es = es := List.take_length

theorem takeWhile_limited (p : Entry → Bool) (limit : Option Nat) (es : List Entry) :
    (limited limit es).takeWhile p = limited limit (es.takeWhile p) := by
  cases limit with
  | none => rw [limited_none, limited_none]
  | some n => exact (List.take_takeWhile ..).symm

/-- Once all entries of a leaf were taken, the leaves after it fill up what is left of the limit. -/
theorem takeWhile_limited_append (p : Entry → Bool) (limit : Option Nat) (es rest : List Entry) :
    (limited limit (es ++ rest)).takeWhile p =
      if ((limited limit es).takeWhile p).length < es.length then (limited limit es).takeWhile p
      else es ++
        (limited (limit.map (· - ((limited limit es).takeWhile p).length)) rest).takeWhile p := by
  have hle : ((limited limit es).takeWhile p).length ≤ (limited limit es).length :=
    (List.takeWhile_prefix p).length_le
  have hall : ¬ ((limited limit es).takeWhile p).length < es.length →
      limited limit es = es ∧ es.takeWhile p = es := by
    intro h
    have hfull : limited limit es = es := by
      refine List.take_of_length_le (Nat.le_of_not_lt fun hlt => h (Nat.lt_of_le_of_lt hle ?_))
      rw [limited, List.length_take]
      omega
    rw [hfull] at h
    exact ⟨hfull, (List.takeWhile_prefix p).eq_of_length_le (Nat.le_of_not_lt h)⟩
  cases limit with
  | none =>
    simp only [limited_none, Option.map_none] at hall ⊢
    rw [List.takeWhile_append]
    split
    · next h => rw [if_neg (by omega)]
    · next h =>
      have := (List.takeWhile_prefix p (l := es)).length_le
      rw [if_pos (by omega)]
  | some n =>
    have hcut : limited (some n) (es ++ rest) = limited (some n) es ++ rest.take (n - es.length) :=
      List.take_append
    rw [hcut, List.takeWhile_append]
    by_cases h : ((limited (some n) es).takeWhile p).length < es.length
    · rw [if_pos h]
      split
      · next hsame =>
        -- the limit ends within the leaf
        have hn : n - es.length = 0 := by
          rw [hsame, limited, List.length_take, Option.getD_some] at h
          omega
        rw [hn, List.take_zero, List.takeWhile_nil, List.append_nil]
        exact ((List.takeWhile_prefix p).eq_of_length hsame).symm
      · rfl
    · obtain ⟨hfull, hes⟩ := hall h
      rw [if_neg h, hfull, hes, if_pos rfl]
      rfl

/-- The leaves from a page on, each reached by a link of the one before it. -/
inductive Trail (s : Sheet) (follow : NodeLinks → PageIndex) : PageIndex → List Leaf → Prop where
  | stop : Trail s follow 0 []
  | step {i : PageIndex} {leaf : Leaf} {leaves : List Leaf} (node : s.node i = some (.leaf leaf))
      (rest : Trail s follow (follow leaf.links) leaves) : Trail s follow i (leaf :: leaves)

namespace Shows

variable {t : Transaction} {file : FileId} {base : List Page} {s : Sheet}
  {follow : NodeLinks → PageIndex} {i : PageIndex} {leaves : List Leaf}

theorem collect (hs : Shows t file base s) (ht : Trail s NodeLinks.next i leaves) (r : KeyRange)
    {fuel : Nat} (hf : leaves.length < fuel) (limit : Option Nat) (es : List Entry) :
    (Tree.collect file r fuel limit es i).Gives t
      ((limited limit (es ++ leaves.flatMap Leaf.entries)).takeWhile fun e => !r.isAbove e.key) t := by
  induction ht generalizing fuel limit es with
  | stop =>
    obtain ⟨fuel, rfl⟩ := Nat.exists_eq_add_one_of_ne_zero (Nat.ne_of_gt hf)
    rw [List.flatMap_nil, List.append_nil, Tree.collect, if_pos (.inr (.inr rfl))]
    exact .pure _ t
  | @step i leaf leaves node rest ih =>
    obtain ⟨fuel, rfl⟩ := Nat.exists_eq_add_one_of_ne_zero (Nat.ne_of_gt (Nat.zero_lt_of_lt hf))
    rw [takeWhile_limited_append]
    set taken := (limited limit es).takeWhile fun e => !r.isAbove e.key with htaken
    have hstart : (Tree.collect file r (fuel + 1) limit es i).start t =
        (if taken.length < es.length ∨ limit.map (· - taken.length) = some 0 ∨ i = 0 then
          return taken
        else do
          let leaf ← Tree.readLeaf file i
          return taken ++ (← Tree.collect file r fuel (limit.map (· - taken.length)) leaf.entries
            leaf.links.next) : Task Transaction TreeError (List Entry)).start t := rfl
    have hgo := ih (Nat.lt_of_succ_lt_succ hf) (limit.map (· - taken.length)) leaf.entries
    rw [Task.Gives, hstart]
    by_cases hshort : taken.length < es.length
    · rw [if_pos (.inl hshort), if_pos hshort]
      rfl
    · have heq : taken = es := by
        have hpre : taken <+: es := (List.takeWhile_prefix _).trans (List.take_prefix _ _)
        exact hpre.eq_of_length_le (Nat.le_of_not_lt hshort)
      rw [if_neg hshort]
      by_cases hnone : limit.map (· - taken.length) = some 0
      · rw [if_pos (.inr (.inl hnone)), hnone, heq]
        simp only [limited, Option.getD_some, List.take_zero, List.takeWhile_nil, List.append_nil]
        rfl
      · rw [if_neg (by simp [hshort, hnone, hs.node_ne_zero node]), (hs.readLeaf node).start_bind,
          hgo.start_bind, heq, List.flatMap_cons]
        rfl

theorem trail_nil_iff (hs : Shows t file base s) (ht : Trail s follow i leaves) :
    i = 0 ↔ leaves = [] := by
  cases ht with
  | stop => simp
  | step node rest => simp [hs.node_ne_zero node]

/-- The first thing that a leaf on the way has to show. -/
theorem walk {α : Type} (hs : Shows t file base s) (ht : Trail s follow i leaves) (h0 : leaves ≠ [])
    (pick : Leaf → Option α) {fuel : Nat} (hf : leaves.length ≤ fuel) :
    (Tree.walk file follow pick fuel i).Gives t (leaves.findSome? pick) t := by
  induction ht generalizing fuel with
  | stop => exact absurd rfl h0
  | @step i leaf leaves node rest ih =>
    obtain ⟨fuel, rfl⟩ := Nat.exists_eq_add_one_of_ne_zero (Nat.ne_of_gt (Nat.zero_lt_of_lt hf))
    rw [Task.Gives, Tree.walk, (hs.readLeaf node).start_bind, List.findSome?_cons]
    cases hp : pick leaf with
    | some a => rfl
    | none =>
      dsimp only
      by_cases hend : follow leaf.links = 0
      · rw [if_pos hend, (hs.trail_nil_iff rest).mp hend]
        rfl
      · rw [if_neg hend]
        exact ih (mt (hs.trail_nil_iff rest).mpr hend) (Nat.le_of_succ_le_succ hf)

end Shows

/-! ## Scans -/

namespace Shape

variable {h : Nat}

theorem Stored.tip {node : PageIndex → Option Node} {parent : PageIndex} {b : Shape h}
    (hs : b.Stored node parent) {tip : Tip} (hm : tip ∈ b.tips) :
    ∃ parent, node tip.page = some (.leaf ⟨.fresh parent, tip.entries⟩) := by
  induction h generalizing parent with
  | zero =>
    obtain rfl := List.mem_singleton.mp hm
    exact ⟨parent, hs⟩
  | succ h ih =>
    obtain ⟨c, hc, hm⟩ := List.mem_flatMap.mp hm
    exact ih (hs.2 c hc) hm

end Shape

namespace Laid

variable {pageSize h : Nat} {s : Sheet} {b : Shape h} {xs ys : List Tip}

theorem node_tip (hb : Laid pageSize s b) {tip : Tip} (hm : tip ∈ b.tips) :
    ∃ links, s.node tip.page = some (.leaf ⟨links, tip.entries⟩) := by
  obtain ⟨parent, hleaf⟩ := hb.stored.tip hm
  obtain ⟨node, hnode, halone⟩ := Sheet.plain_eq_some hleaf
  obtain ⟨links, rfl, -⟩ := Node.alone_leaf halone
  exact ⟨links, hnode⟩

/-- From any leaf on the links lead through all the leaves after it. -/
theorem trail (hb : Laid pageSize s b) (htips : b.tips = xs ++ ys) :
    ∃ leaves, Trail s NodeLinks.next ((ys.map Tip.page).headD 0) leaves ∧
      leaves.map Leaf.entries = ys.map Tip.entries := by
  induction ys generalizing xs with
  | nil => exact ⟨[], .stop, rfl⟩
  | cons y ys ih =>
    have hy : y ∈ b.tips := by simp [htips]
    have hrest : b.tips = (xs ++ [y]) ++ ys := by simp [htips]
    obtain ⟨links, hnode⟩ := hb.node_tip hy
    obtain ⟨leaves, ht, heq⟩ := ih hrest
    have hnext : links.next = (ys.map Tip.page).headD 0 := (hb.links_eq htips hnode).2
    refine ⟨⟨links, y.entries⟩ :: leaves, .step hnode ?_, by simp [heq]⟩
    rw [hnext]
    exact ht

theorem length_tips_lt (hb : Laid pageSize s b) (hpos : 0 < s.size) : b.tips.length < s.size := by
  have hle := b.tips_sublist.length_le
  rw [List.length_map] at hle
  rw [hb.size_eq hpos]
  exact Nat.lt_succ_of_le hle

end Laid

namespace Shows

variable {t : Transaction} {tree : Tree} {file : FileId} {base : List Page} {s : Sheet} {h : Nat}
  {b : Shape h}

/-- From a branch the way down goes on at the child that is picked. -/
theorem descend_child (hs : Shows t file base s) {b : Shape (h + 1)} {parent : PageIndex}
    (hstored : b.Stored s.plain parent) {p : List PageIndex → Option PageIndex} {c : Shape h}
    (hc : c ∈ Fork.children b) (hpick : p ((Fork.children b).map Shape.page) = some c.page) {fuel : Nat}
    {x : PageIndex} (hrest : (Tree.descend file (fun branch => p branch.children) fuel c.page).Gives t x t) :
    (Tree.descend file (fun branch => p branch.children) (fuel + 1) b.page).Gives t x t := by
  obtain ⟨hroot, hcs⟩ := Shape.stored_branch.mp hstored
  obtain ⟨node, hnode, halone⟩ := Sheet.plain_eq_some hroot
  obtain ⟨links, rfl, -⟩ := Node.alone_branch halone
  obtain ⟨n, hn⟩ := (hcs c hc).exists_node _ c.page_mem_pages
  exact hs.descend_branch hnode hpick (hs.plain_ne_zero hn) hrest

/-- A leaf is where the way down ends. -/
theorem descend_tip (hs : Shows t file base s) {b : Shape 0} {parent : PageIndex} (hstored : b.Stored s.plain parent)
    (choose : Branch → Option PageIndex) (fuel : Nat) :
    (Tree.descend file choose (fuel + 1) b.page).Gives t (Tip.page b) t := by
  obtain ⟨node, hnode, halone⟩ := Sheet.plain_eq_some (Shape.stored_leaf.mp hstored)
  obtain ⟨links, rfl, -⟩ := Node.alone_leaf halone
  exact hs.descend_leaf hnode _ fuel

/-- Going down by the first children ends at the first leaf. -/
theorem descend_first (hs : Shows t file base s) {parent : PageIndex} {lo hi : Option Key}
    (hstored : b.Stored s.plain parent) (hord : b.Ordered lo hi) {fuel : Nat} (hfuel : h < fuel) :
    ∃ tip ys, b.tips = tip :: ys ∧
      (Tree.descend file (·.children.head?) fuel b.page).Gives t tip.page t := by
  obtain ⟨fuel, rfl⟩ := Nat.exists_eq_add_one_of_ne_zero (Nat.ne_of_gt (Nat.zero_lt_of_lt hfuel))
  induction h generalizing parent lo hi fuel with
  | zero => exact ⟨b, [], rfl, hs.descend_tip hstored _ fuel⟩
  | succ h ih =>
    have hsp := Shape.ordered_branch.mp hord
    obtain ⟨c, cs, hchildren⟩ := List.exists_cons_of_length_pos
      (by rw [hsp.length]; exact Nat.succ_pos _ : 0 < (Fork.children b).length)
    have hcm : c ∈ Fork.children b := hchildren ▸ List.mem_cons_self
    obtain ⟨l, u, hcord⟩ := hsp.exists_of_mem c hcm
    obtain ⟨fuel, rfl⟩ := Nat.exists_eq_add_one_of_ne_zero (n := fuel) (by omega)
    obtain ⟨tip, ys, htips, hg⟩ := ih ((Shape.stored_branch.mp hstored).2 c hcm) hcord fuel (by omega)
    refine ⟨tip, ys ++ cs.flatMap Shape.tips, ?_,
      hs.descend_child hstored (p := List.head?) hcm (by simp [hchildren]) hg⟩
    have hall : Shape.tips b = (Fork.children b).flatMap Shape.tips := Shape.tips_branch b
    rw [hall, hchildren, List.flatMap_cons, htips, List.cons_append]

/-- A scan finds the entries of the range, the first of them if there is a limit. -/
theorem scan (hatt : tree.component.isAttached) (hs : Shows t tree.component.file base s)
    (hb : Intact t.mounted.volume.pageSize s b) (r : KeyRange) (limit : Option Nat) :
    (tree.scan r limit).Gives t (limited limit (r.pick b.entries)) t := by
  obtain ⟨tip, links, xs, ys, -, htips, hin, hx, hy, hnode, hfind⟩ := hs.exists_leafFor hb r.low
  have hcons : b.tips = (xs ++ [tip]) ++ ys := by simp [htips]
  obtain ⟨leaves, ht, hleaves⟩ := hb.trail hcons
  have hnext : links.next = (ys.map Tip.page).headD 0 := (hb.links_eq htips hnode).2
  rw [← hnext] at ht
  have hflat : leaves.flatMap Leaf.entries = ys.flatMap Tip.entries := by
    rw [List.flatMap, hleaves]
    rfl
  have hlen : leaves.length ≤ b.tips.length := by
    have := congrArg List.length hleaves
    simp only [List.length_map] at this
    rw [hcons, List.length_append]
    omega
  have hfuel : leaves.length < (s.size + 1) * (limit.getD 0 + 1) := by
    have := hb.length_tips_lt hs.size_pos
    have : s.size + 1 ≤ (s.size + 1) * (limit.getD 0 + 1) :=
      Nat.le_mul_of_pos_right _ (Nat.succ_pos _)
    omega
  -- what the scan skips is what stands below the range
  have hbelow : ∀ e ∈ xs.flatMap Tip.entries, r.isBelow e.key = true := by
    intro e he
    rw [KeyRange.isBelow_iff]
    split
    · exact hx e he
    · exact le_of_lt (hx e he)
  have hnot : ∀ e ∈ ys.flatMap Tip.entries, ¬ r.isBelow e.key = true := by
    intro e he
    rw [KeyRange.isBelow_iff]
    split
    · exact not_lt.mpr (le_of_lt (hy e he))
    · exact not_le.mpr (hy e he)
  have hrest : b.entries.filter (fun e => !r.isBelow e.key) =
      tip.entries.filter (fun e => !r.isBelow e.key) ++ ys.flatMap Tip.entries := by
    have hys : (ys.flatMap Tip.entries).filter (fun e => !r.isBelow e.key) = ys.flatMap Tip.entries :=
      List.filter_eq_self.mpr fun e he => by simpa using hnot e he
    rw [Shape.entries, htips, List.flatMap_append, List.flatMap_cons, List.filter_append,
      List.filter_append, List.filter_eq_nil_iff.mpr fun e he => by simp [hbelow e he], hys,
      List.nil_append]
  have hpick : r.pick b.entries =
      (b.entries.filter fun e => !r.isBelow e.key).takeWhile fun e => !r.isAbove e.key := by
    have hord : Entries.InOrder b.entries := hb.ordered.entries.1
    rw [KeyRange.takeWhile_eq_filter (hord.filter _), List.filter_filter]
    exact List.filter_congr fun e _ => Bool.and_comm _ _
  refine (file_gives hatt t).bind (hs.readMeta.bind (hfind.bind ((hs.readLeaf hnode).bind
    (hs.steps.bind ?_))))
  have hg := hs.collect ht r hfuel limit
    (tip.entries.drop (Bisection.leading tip.entries fun e => r.isBelow e.key))
  rwa [KeyRange.drop_leading hin, hflat, ← hrest, takeWhile_limited, ← hpick,
    ← KeyRange.drop_leading hin] at hg

/-- The least key is that of the first entry. -/
theorem firstKey (hatt : tree.component.isAttached) (hs : Shows t tree.component.file base s)
    (hb : Intact t.mounted.volume.pageSize s b) :
    tree.firstKey.Gives t (b.entries.head?.map Entry.key) t := by
  have hh := hb.height_lt hs.size_pos
  obtain ⟨tip, ys, htips, hdown⟩ := hs.descend_first hb.stored hb.ordered
    (Nat.lt_succ_of_lt (Nat.lt_of_succ_lt hh))
  have hall : b.tips = [] ++ tip :: ys := htips
  obtain ⟨leaves, ht, hleaves⟩ := hb.trail hall
  have hlen : leaves.length = b.tips.length := by
    have := congrArg List.length hleaves
    simpa [htips] using this
  have hfirst : leaves.findSome? (fun leaf => leaf.entries.head?.map Entry.key) =
      b.entries.head?.map Entry.key := by
    have hflat : b.entries = leaves.flatMap Leaf.entries := by
      rw [List.flatMap, hleaves, ← htips]
      rfl
    rw [hflat, List.head?_flatMap, List.map_findSome?]
    rfl
  refine (file_gives hatt t).bind (hs.readMeta.bind (hs.steps.bind ?_))
  rw [← hb.root]
  refine hdown.bind ?_
  rw [← hfirst]
  exact hs.walk ht (by rintro rfl; simp [htips] at hlen) _ (by
    have := hb.length_tips_lt hs.size_pos
    omega)

end Shows

end RefStore.Tree
