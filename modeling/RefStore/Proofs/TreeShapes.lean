import Mathlib.Data.List.Perm.Basic
import RefStore.Proofs.NodeOrder
import RefStore.Proofs.TreePages

/-!
# Shapes of trees

A shape is a tree of pages, with the keys and entries in it and all leaves at one depth. It is kept
apart from the pages themselves, which may store it. Main statements: `Spaced.focus`, a child can be
replaced by others that take up the same span, and `Shape.Ordered.entries`, the entries of an ordered
shape are in order.
-/

namespace RefStore.Tree

/-! ## Spans of keys -/

def Above (lo : Option Key) (k : Key) : Prop := ∀ l ∈ lo, l ≤ k

def Below (hi : Option Key) (k : Key) : Prop := ∀ u ∈ hi, k < u

/-- Keys from `lo` on and below `hi`, without a limit where there is none. -/
def Within (lo hi : Option Key) (k : Key) : Prop := Above lo k ∧ Below hi k

def Span (lo hi : Option Key) : Prop := ∀ l ∈ lo, ∀ u ∈ hi, l < u

theorem Span.trans {lo hi : Option Key} {k : Key} (h : Span lo (some k)) (h' : Span (some k) hi) :
    Span lo hi := fun l hl u hu => lt_trans (h l hl k rfl) (h' k rfl u hu)

/-- Children side by side with a key between each two, each child in the span between its keys. -/
inductive Spaced {α : Type} (P : Option Key → Option Key → α → Prop) :
    Option Key → List Key → List α → Option Key → Prop where
  | last {lo hi : Option Key} {c : α} (h : P lo hi c) : Spaced P lo [] [c] hi
  | cons {lo hi : Option Key} {k : Key} {ks : List Key} {c : α} {cs : List α} (h : P lo (some k) c)
      (rest : Spaced P (some k) ks cs hi) : Spaced P lo (k :: ks) (c :: cs) hi

namespace Spaced

variable {α : Type} {P : Option Key → Option Key → α → Prop} {lo hi : Option Key} {ks : List Key}
  {cs : List α}

theorem length (h : Spaced P lo ks cs hi) : cs.length = ks.length + 1 := by
  induction h with
  | last => rfl
  | cons _ _ ih => simp [ih]

theorem exists_of_mem (h : Spaced P lo ks cs hi) : ∀ c ∈ cs, ∃ l u, P l u c := by
  induction h with
  | last hc =>
    intro c hm
    obtain rfl := List.mem_singleton.mp hm
    exact ⟨_, _, hc⟩
  | cons hc _ ih =>
    intro c hm
    rcases List.mem_cons.mp hm with rfl | hm
    · exact ⟨_, _, hc⟩
    · exact ih c hm

theorem append {m : Key} {ks' : List Key} {cs' : List α} (h : Spaced P lo ks cs (some m))
    (h' : Spaced P (some m) ks' cs' hi) : Spaced P lo (ks ++ m :: ks') (cs ++ cs') hi := by
  generalize hm : some m = u at h
  induction h with
  | last hc => exact .cons (hm ▸ hc) h'
  | cons hc _ ih => exact .cons hc (ih hm)

/-- Cut at one of the keys. -/
theorem cut (h : Spaced P lo ks cs hi) {i : Nat} {m : Key} (hm : ks[i]? = some m) :
    Spaced P lo (ks.take i) (cs.take (i + 1)) (some m) ∧
      Spaced P (some m) (ks.drop (i + 1)) (cs.drop (i + 1)) hi := by
  induction h generalizing i with
  | last => simp at hm
  | cons hc rest ih =>
    cases i with
    | zero =>
      obtain rfl := Option.some.inj hm
      exact ⟨.last hc, rest⟩
    | succ i =>
      obtain ⟨hl, hr⟩ := ih hm
      exact ⟨.cons hc hl, hr⟩

theorem span (h : Spaced P lo ks cs hi) (hP : ∀ {lo hi c}, P lo hi c → Span lo hi) : Span lo hi := by
  induction h with
  | last hc => exact hP hc
  | cons hc _ ih => exact (hP hc).trans ih

/-- The keys lie strictly inside the span. -/
theorem keys_inside (h : Spaced P lo ks cs hi) (hP : ∀ {lo hi c}, P lo hi c → Span lo hi) :
    ∀ k ∈ ks, Span lo (some k) ∧ Span (some k) hi := by
  induction h with
  | last => simp
  | cons hc rest ih =>
    intro k hk
    rcases List.mem_cons.mp hk with rfl | hk
    · exact ⟨hP hc, rest.span hP⟩
    · obtain ⟨hl, hu⟩ := ih k hk
      exact ⟨(hP hc).trans hl, hu⟩

theorem keys_pairwise (h : Spaced P lo ks cs hi) (hP : ∀ {lo hi c}, P lo hi c → Span lo hi) :
    ks.Pairwise (· < ·) := by
  induction h with
  | last => exact .nil
  | cons _ rest ih => exact .cons (fun k hk => (rest.keys_inside hP k hk).1 _ rfl k rfl) ih

/-- The child that a key leads to, in the span around the key. What takes up that span can stand in
its place, and any other key of the span leads there too. -/
theorem focus (h : Spaced P lo ks cs hi) (hP : ∀ {lo hi c}, P lo hi c → Span lo hi) {key : Key}
    {i : Nat} (hk : Within lo hi key) (hl : Branch.Leads ks key i) :
    ∃ c l u, cs[i]? = some c ∧ P l u c ∧ Within l u key ∧ (∀ m, Above l m → Above lo m) ∧
      (∀ m, Within l u m → Branch.Leads ks m i) ∧
      ∀ ks' cs', Spaced P l ks' cs' u →
        Spaced P lo (ks.take i ++ ks' ++ ks.drop i) (cs.take i ++ cs' ++ cs.drop (i + 1)) hi := by
  induction h generalizing i with
  | @last lo hi c hc =>
    obtain rfl : i = 0 := by simpa using hl.1
    refine ⟨c, lo, hi, rfl, hc, hk, fun m hm => hm, fun m _ => ⟨Nat.le_refl 0, by simp, by simp⟩,
      fun ks' cs' hs => ?_⟩
    simpa using hs
  | @cons lo hi k ks c cs hc rest ih =>
    cases i with
    | zero =>
      have hlt : key < k := hl.2.2 k (by simp)
      refine ⟨c, lo, some k, rfl, hc, ⟨hk.1, ?_⟩, fun m hm => hm, fun m hm => ?_, fun ks' cs' hs => ?_⟩
      · rintro u ⟨⟩
        exact hlt
      · refine ⟨Nat.zero_le _, by simp, fun x hx => ?_⟩
        have hmk : m < k := hm.2 k rfl
        rcases List.mem_cons.mp hx with rfl | hx
        · exact hmk
        · exact lt_trans hmk ((rest.keys_inside hP x hx).1 k rfl x rfl)
      · simpa using hs.append rest
    | succ i =>
      have hle : k ≤ key := hl.2.1 k (by simp)
      have hl' : Branch.Leads ks key i :=
        ⟨Nat.le_of_succ_le_succ hl.1, fun x hx => hl.2.1 x (by simp [hx]), hl.2.2⟩
      have hk' : Within (some k) hi key := by
        refine ⟨?_, hk.2⟩
        rintro l ⟨⟩
        exact hle
      obtain ⟨d, l, u, hd, hPd, hw, hup, hleads, hput⟩ := ih hk' hl'
      refine ⟨d, l, u, hd, hPd, hw, fun m hm x hx => ?_, fun m hm => ?_, fun ks' cs' hs => ?_⟩
      · exact le_of_lt (lt_of_lt_of_le (hP hc x hx k rfl) (hup m hm k rfl))
      · obtain ⟨hlen, hbefore, hafter⟩ := hleads m hm
        refine ⟨Nat.succ_le_succ hlen, fun x hx => ?_, hafter⟩
        rcases List.mem_cons.mp hx with rfl | hx
        · exact hup m hm.1 x rfl
        · exact hbefore x hx
      · exact .cons hc (hput ks' cs' hs)

/-- Every child starts at a key. -/
theorem exists_low {k : Key} (h : Spaced P (some k) ks cs hi) :
    ∀ d ∈ cs, ∃ l u, P (some l) u d ∧ l ∈ k :: ks := by
  generalize hk : some k = lo at h
  induction h generalizing k with
  | last hc =>
    intro d hd
    obtain rfl := List.mem_singleton.mp hd
    exact ⟨k, _, hk ▸ hc, List.mem_cons_self⟩
  | cons hc _ ih =>
    intro d hd
    rcases List.mem_cons.mp hd with rfl | hd
    · exact ⟨k, _, hk ▸ hc, List.mem_cons_self⟩
    · obtain ⟨l, u, hP, hl⟩ := ih rfl d hd
      exact ⟨l, u, hP, List.mem_cons_of_mem _ hl⟩

/-- The children on both sides of the one that a key leads to end before the key or start after
it. -/
theorem sides (h : Spaced P lo ks cs hi) {key : Key} {i : Nat} (hl : Branch.Leads ks key i) :
    (∀ d ∈ cs.take i, ∃ l u, P l (some u) d ∧ u ≤ key) ∧
      ∀ d ∈ cs.drop (i + 1), ∃ l u, P (some l) u d ∧ key < l := by
  induction h generalizing i with
  | last =>
    obtain rfl : i = 0 := by simpa using hl.1
    simp
  | @cons lo hi k ks c cs hc rest ih =>
    cases i with
    | zero =>
      refine ⟨by simp, fun d hd => ?_⟩
      obtain ⟨l, u, hP, hm⟩ := rest.exists_low d (by simpa using hd)
      exact ⟨l, u, hP, hl.2.2 l hm⟩
    | succ i =>
      have hl' : Branch.Leads ks key i :=
        ⟨Nat.le_of_succ_le_succ hl.1, fun x hx => hl.2.1 x (by simp [hx]), hl.2.2⟩
      obtain ⟨hbefore, hafter⟩ := ih hl'
      refine ⟨fun d hd => ?_, hafter⟩
      rcases List.mem_cons.mp hd with rfl | hd
      · exact ⟨lo, k, hc, hl.2.1 k (by simp)⟩
      · exact hbefore d hd

end Spaced

/-! ## Shapes -/

/-- A leaf and its page. -/
structure Tip where
  page : PageIndex
  entries : List Entry

/-- A branch and its page. -/
structure Fork (α : Type) where
  page : PageIndex
  keys : List Key
  children : List α

/-- Trees of a height. -/
def Shape : Nat → Type
  | 0 => Tip
  | h + 1 => Fork (Shape h)

namespace Shape

def leaf (tip : Tip) : Shape 0 := tip

def branch {h : Nat} (fork : Fork (Shape h)) : Shape (h + 1) := fork

def page : {h : Nat} → Shape h → PageIndex
  | 0, tip => Tip.page tip
  | _ + 1, fork => Fork.page fork

def pages : {h : Nat} → Shape h → List PageIndex
  | 0, tip => [Tip.page tip]
  | _ + 1, fork => Fork.page fork :: (Fork.children fork).flatMap pages

/-- The leaves from left to right. -/
def tips : {h : Nat} → Shape h → List Tip
  | 0, tip => [tip]
  | _ + 1, fork => (Fork.children fork).flatMap tips

def entries {h : Nat} (b : Shape h) : List Entry := b.tips.flatMap Tip.entries

/-- The pages hold the nodes of the shape, each with its parent. The map gives the nodes without
what they know of their neighbours. -/
def Stored (node : PageIndex → Option Node) : {h : Nat} → (parent : PageIndex) → Shape h → Prop
  | 0, parent, tip => node (Tip.page tip) = some (.leaf ⟨.fresh parent, Tip.entries tip⟩)
  | _ + 1, parent, fork =>
    node (Fork.page fork) =
        some (.branch ⟨.fresh parent, Fork.keys fork, (Fork.children fork).map page⟩) ∧
      ∀ c ∈ Fork.children fork, Stored node (Fork.page fork) c

/-- The keys are in order and every entry lies in the span of its leaf. -/
def Ordered : {h : Nat} → (lo hi : Option Key) → Shape h → Prop
  | 0, lo, hi, tip => Span lo hi ∧ Entries.InOrder (Tip.entries tip) ∧
      ∀ e ∈ Tip.entries tip, Within lo hi e.key
  | _ + 1, lo, hi, fork => Spaced Ordered lo (Fork.keys fork) (Fork.children fork) hi

/-- No node is too large for a page, and every branch has a key. -/
def Fits (pageSize : Nat) : {h : Nat} → Shape h → Prop
  | 0, tip => (Tip.entries tip).length ≤ Leaf.capacity pageSize
  | _ + 1, fork => 0 < (Fork.keys fork).length ∧
      (Fork.keys fork).length ≤ Branch.capacity pageSize ∧ ∀ c ∈ Fork.children fork, Fits pageSize c

/-- The leaf that a key leads to. -/
def LeadsTo : {h : Nat} → Shape h → Key → Tip → Prop
  | 0, b, _, tip => b = tip
  | _ + 1, fork, key, tip => ∃ i c, Branch.Leads (Fork.keys fork) key i ∧
      (Fork.children fork)[i]? = some c ∧ LeadsTo c key tip

variable {h : Nat}

@[simp] theorem page_leaf (tip : Tip) : (leaf tip).page = tip.page := rfl

@[simp] theorem page_branch (fork : Fork (Shape h)) : (branch fork).page = fork.page := rfl

@[simp] theorem pages_leaf (tip : Tip) : (leaf tip).pages = [tip.page] := rfl

@[simp] theorem pages_branch (fork : Fork (Shape h)) :
    (branch fork).pages = fork.page :: fork.children.flatMap pages := rfl

@[simp] theorem tips_leaf (tip : Tip) : (leaf tip).tips = [tip] := rfl

@[simp] theorem tips_branch (fork : Fork (Shape h)) :
    (branch fork).tips = fork.children.flatMap tips := rfl

@[simp] theorem entries_leaf (tip : Tip) : (leaf tip).entries = tip.entries := List.append_nil _

@[simp] theorem entries_branch (fork : Fork (Shape h)) :
    (branch fork).entries = fork.children.flatMap entries := List.flatMap_assoc

theorem fits_branch {pageSize : Nat} {fork : Fork (Shape h)} :
    (branch fork).Fits pageSize ↔ 0 < fork.keys.length ∧
      fork.keys.length ≤ Branch.capacity pageSize ∧ ∀ c ∈ fork.children, c.Fits pageSize := Iff.rfl

theorem ordered_branch {lo hi : Option Key} {fork : Fork (Shape h)} :
    (branch fork).Ordered lo hi ↔ Spaced Ordered lo fork.keys fork.children hi := Iff.rfl

theorem stored_leaf {node : PageIndex → Option Node} {parent : PageIndex} {tip : Tip} :
    (leaf tip).Stored node parent ↔
      node tip.page = some (.leaf ⟨.fresh parent, tip.entries⟩) := Iff.rfl

theorem stored_branch {node : PageIndex → Option Node} {parent : PageIndex}
    {fork : Fork (Shape h)} :
    (branch fork).Stored node parent ↔
      node fork.page = some (.branch ⟨.fresh parent, fork.keys, fork.children.map page⟩) ∧
        ∀ c ∈ fork.children, c.Stored node fork.page := Iff.rfl

theorem Ordered.span {lo hi : Option Key} {b : Shape h} (ho : b.Ordered lo hi) : Span lo hi := by
  induction h generalizing lo hi with
  | zero => exact ho.1
  | succ h ih => exact Spaced.span ho ih

/-- Entries of children side by side. -/
theorem Spaced.entries {lo hi : Option Key} {ks : List Key} {cs : List (Shape h)}
    (hs : Spaced Ordered lo ks cs hi)
    (ih : ∀ {lo hi} {b : Shape h}, b.Ordered lo hi →
      Entries.InOrder b.entries ∧ ∀ e ∈ b.entries, Within lo hi e.key) :
    Entries.InOrder (cs.flatMap Shape.entries) ∧
      ∀ e ∈ cs.flatMap Shape.entries, Within lo hi e.key := by
  induction hs with
  | last hc => simpa using ih hc
  | cons hc rest ih' =>
    obtain ⟨hfirst, hin⟩ := ih hc
    obtain ⟨hrest, hin'⟩ := ih'
    rw [List.flatMap_cons]
    refine ⟨List.pairwise_append.mpr ⟨hfirst, hrest, fun a ha b hb => ?_⟩, fun e he => ?_⟩
    · exact lt_of_lt_of_le ((hin a ha).2 _ rfl) ((hin' b hb).1 _ rfl)
    · rcases List.mem_append.mp he with he | he
      · refine ⟨(hin e he).1, fun u hu => ?_⟩
        exact lt_trans ((hin e he).2 _ rfl) (Spaced.span rest Ordered.span _ rfl u hu)
      · refine ⟨fun l hl => ?_, (hin' e he).2⟩
        exact le_trans (le_of_lt (hc.span l hl _ rfl)) ((hin' e he).1 _ rfl)

theorem Ordered.entries {lo hi : Option Key} {b : Shape h} (ho : b.Ordered lo hi) :
    Entries.InOrder b.entries ∧ ∀ e ∈ b.entries, Within lo hi e.key := by
  induction h generalizing lo hi with
  | zero =>
    have he : b.entries = Tip.entries b := entries_leaf b
    rw [he]
    exact ho.2
  | succ h ih =>
    have he : b.entries = (Fork.children b).flatMap Shape.entries := entries_branch b
    rw [he]
    exact Spaced.entries ho ih

theorem Ordered.exists_leadsTo {lo hi : Option Key} {b : Shape h} (ho : b.Ordered lo hi) {key : Key}
    (hk : Within lo hi key) : ∃ tip, b.LeadsTo key tip := by
  induction h generalizing lo hi with
  | zero => exact ⟨b, rfl⟩
  | succ h ih =>
    have hl := Branch.leads_childIndex ⟨.fresh 0, Fork.keys b, []⟩
      (Spaced.keys_pairwise ho Ordered.span) key
    obtain ⟨c, l, u, hc, hP, hw, -⟩ := Spaced.focus ho Ordered.span hk hl
    obtain ⟨tip, ht⟩ := ih hP hw
    exact ⟨tip, _, c, hl, hc, ht⟩

theorem page_mem_pages (b : Shape h) : b.page ∈ b.pages := by
  cases h with
  | zero => exact List.mem_singleton.mpr rfl
  | succ h => exact List.mem_cons_self

/-- A shape is stored by its own pages only. -/
theorem Stored.congr {node node' : PageIndex → Option Node} {parent : PageIndex} {b : Shape h}
    (hs : b.Stored node parent) (hn : ∀ i ∈ b.pages, node' i = node i) :
    b.Stored node' parent := by
  induction h generalizing parent with
  | zero =>
    rw [Stored, hn _ (List.mem_singleton.mpr rfl)]
    exact hs
  | succ h ih =>
    refine ⟨(hn _ List.mem_cons_self).trans hs.1, fun c hc => ih (hs.2 c hc) fun i hi => hn i ?_⟩
    exact List.mem_cons_of_mem _ (List.mem_flatMap.mpr ⟨c, hc, hi⟩)

/-- With another parent noted at its root, a shape is stored under that parent. -/
theorem Stored.adopted {node node' : PageIndex → Option Node} {parent parent' : PageIndex}
    {b : Shape h} (hs : b.Stored node parent) (hd : b.pages.Nodup)
    (hroot : node' b.page = (node b.page).map (Node.withParent parent'))
    (hn : ∀ i ∈ b.pages, i ≠ b.page → node' i = node i) : b.Stored node' parent' := by
  cases h with
  | zero =>
    rw [Stored]
    refine hroot.trans ?_
    rw [show node b.page = _ from hs]
    rfl
  | succ h =>
    obtain ⟨hfork, hcs⟩ := hs
    refine ⟨?_, fun c hc => (hcs c hc).congr fun i hi => hn i ?_ ?_⟩
    · refine hroot.trans ?_
      rw [show node b.page = _ from hfork]
      rfl
    · exact List.mem_cons_of_mem _ (List.mem_flatMap.mpr ⟨c, hc, hi⟩)
    · rintro rfl
      exact (List.nodup_cons.mp hd).1 (List.mem_flatMap.mpr ⟨c, hc, hi⟩)

/-- The depth of a shape is less than its number of pages. -/
theorem Ordered.height_lt {lo hi : Option Key} {b : Shape h} (ho : b.Ordered lo hi) :
    h < b.pages.length := by
  induction h generalizing lo hi with
  | zero => exact Nat.one_pos
  | succ h ih =>
    have hp : b.pages = Fork.page b :: (Fork.children b).flatMap pages := pages_branch b
    obtain ⟨c, cs, hc⟩ := List.exists_cons_of_length_eq_add_one (Spaced.length ho)
    obtain ⟨l, u, hP⟩ := Spaced.exists_of_mem ho c (hc ▸ List.mem_cons_self)
    have := ih hP
    rw [hp, hc, List.length_cons, List.flatMap_cons, List.length_append]
    omega

end Shape

end RefStore.Tree
