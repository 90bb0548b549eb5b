import Mathlib.Data.List.Nodup
import RefStore.Proofs.TreeGrowth
import RefStore.Proofs.TreeSteps

/-!
# From a split leaf to the root

After a leaf was split the insertion climbs, branch by branch. By induction on the height of a shape,
the part of the climb inside it leaves one shape in its place, and is over, or two, and goes on at the
parent. Main statement: `Shows.climb`.
-/

namespace RefStore.Tree

/-- The pages that a file grows by. -/
def freshPages (start stop : Nat) : List PageIndex :=
  (List.range' start (stop - start)).map UInt64.ofNat

theorem toNat_of_mem_freshPages {start stop : Nat} (hs : stop ≤ UInt64.size) {i : PageIndex}
    (h : i ∈ freshPages start stop) : start ≤ i.toNat ∧ i.toNat < stop := by
  obtain ⟨n, hn, rfl⟩ := List.mem_map.mp h
  obtain ⟨hlo, hhi⟩ := List.mem_range'_1.mp hn
  rw [UInt64.toNat_ofNat_of_lt' (by omega)]
  omega

theorem mem_freshPages {start stop n : Nat} (hlo : start ≤ n) (hhi : n < stop) :
    UInt64.ofNat n ∈ freshPages start stop :=
  List.mem_map.mpr ⟨n, List.mem_range'_1.mpr ⟨hlo, by omega⟩, rfl⟩

theorem freshPages_one (start : Nat) : freshPages start (start + 1) = [UInt64.ofNat start] := by
  rw [freshPages, Nat.add_sub_cancel_left]
  rfl

theorem freshPages_succ {start stop : Nat} (h : start ≤ stop) :
    freshPages start (stop + 1) = freshPages start stop ++ [UInt64.ofNat stop] := by
  rw [freshPages, Nat.succ_sub h, List.range'_1_concat, List.map_append, Nat.add_sub_cancel' h]
  rfl

theorem nodup_freshPages {start stop : Nat} (hs : stop ≤ UInt64.size) :
    (freshPages start stop).Nodup := by
  refine List.Nodup.map_on (fun a ha b hb hab => ?_) List.nodup_range'
  have ha' := List.mem_range'_1.mp ha
  have hb' := List.mem_range'_1.mp hb
  have := congrArg UInt64.toNat hab
  rwa [UInt64.toNat_ofNat_of_lt' (by omega), UInt64.toNat_ofNat_of_lt' (by omega)] at this

/-- Lists that are flattened without a repetition share nothing. -/
theorem eq_of_mem_flatMap {α β : Type} {xs : List α} {f : α → List β} (h : (xs.flatMap f).Nodup)
    {a b : α} (ha : a ∈ xs) (hb : b ∈ xs) {x : β} (hxa : x ∈ f a) (hxb : x ∈ f b) : a = b := by
  induction xs with
  | nil => cases ha
  | cons c cs ih =>
    rw [List.flatMap_cons] at h
    obtain ⟨-, hcs, hdis⟩ := List.nodup_append.mp h
    rcases List.mem_cons.mp ha with rfl | hac
    · rcases List.mem_cons.mp hb with rfl | hbc
      · rfl
      · exact absurd rfl (hdis x hxa x (List.mem_flatMap.mpr ⟨b, hbc, hxb⟩))
    · rcases List.mem_cons.mp hb with rfl | hbc
      · exact absurd rfl (hdis x hxb x (List.mem_flatMap.mpr ⟨a, hac, hxa⟩))
      · exact ih hcs hac hbc

namespace Shape

variable {h : Nat}

theorem Stored.exists_node {node : PageIndex → Option Node} {parent : PageIndex} {b : Shape h}
    (hs : b.Stored node parent) : ∀ i ∈ b.pages, ∃ n, node i = some n := by
  induction h generalizing parent with
  | zero =>
    intro i hi
    obtain rfl := List.mem_singleton.mp hi
    exact ⟨_, hs⟩
  | succ h ih =>
    intro i hi
    rcases List.mem_cons.mp hi with rfl | hi
    · exact ⟨_, hs.1⟩
    · obtain ⟨c, hc, hi⟩ := List.mem_flatMap.mp hi
      exact ih (hs.2 c hc) i hi

theorem LeadsTo.fits {pageSize : Nat} {b : Shape h} {key : Key} {tip : Tip} (hl : b.LeadsTo key tip)
    (hf : b.Fits pageSize) : tip.entries.length ≤ Leaf.capacity pageSize := by
  induction h with
  | zero =>
    obtain rfl := hl
    exact hf
  | succ h ih =>
    obtain ⟨i, c, -, hc, hl⟩ := hl
    exact ih hl (hf.2.2 c (List.mem_of_getElem? hc))

end Shape

/-- A sheet after its leaf `tip` was split, with `added` for the right half. -/
structure SplitAt (s s₁ : Sheet) (tip : Tip) (parent : PageIndex) (left right : List Entry) :
    Prop where
  size : s₁.size = s.size + 1
  whole : s.plain tip.page = some (.leaf ⟨.fresh parent, tip.entries⟩)
  left : s₁.plain tip.page = some (.leaf ⟨.fresh parent, left⟩)
  right : s₁.plain (UInt64.ofNat s.size) = some (.leaf ⟨.fresh parent, right⟩)
  others : ∀ i, i ≠ tip.page → i ≠ UInt64.ofNat s.size → s₁.plain i = s.plain i

/-- What the climb from a split leaf leaves of a shape: transaction `t'` with sheet `s'`, where
`parts` stand for it. -/
structure Climbed (file : FileId) (base : List Page) (s : Sheet) (t₁ : Transaction) (s₁ : Sheet)
    (lo hi : Option Key) (tip : Tip) (leaves : List Tip) {h : Nat} (b : Shape h) (parent : PageIndex)
    (t' : Transaction) (s' : Sheet) (keys : List Key) (parts : List (Shape h)) : Prop where
  alters : Transaction.Alters file t₁ t'
  shows : Shows t' file base s'
  info : s'.info = s₁.info
  grown : s.size ≤ s'.size
  size_ge : s₁.size ≤ s'.size
  size_le : s'.size ≤ s₁.size + h
  becomes : Becomes t₁.mounted.volume.pageSize lo hi tip leaves (freshPages s.size s'.size) b keys parts
  stored : ∀ c ∈ parts, c.Stored s'.plain parent
  others : ∀ i, i ∉ b.pages → i ∉ freshPages s.size s'.size → s'.plain i = s.plain i
  neighbours : ∀ i : PageIndex, i.toNat < s₁.size → s'.neighbours i = s₁.neighbours i

/-- The climb inside a shape is over, or it goes on above. -/
inductive ClimbEnds (file : FileId) (base : List Page) (s : Sheet) (t₁ : Transaction) (s₁ : Sheet)
    (lo hi : Option Key) (tip : Tip) (leaves : List Tip) {h : Nat} (b : Shape h) (parent : PageIndex)
    (root : PageIndex) (k : Nat) (run : Task Transaction TreeError PageIndex) : Prop where
  | done {t' : Transaction} {s' : Sheet} {c : Shape h}
      (climbed : Climbed file base s t₁ s₁ lo hi tip leaves b parent t' s' [] [c])
      (page : c.page = b.page) (gives : run.Gives t₁ root t')
  | above {t' : Transaction} {s' : Sheet} {m : Key} {l r : Shape h}
      (climbed : Climbed file base s t₁ s₁ lo hi tip leaves b parent t' s' [m] [l, r])
      (page : l.page = b.page)
      (continues : run.start t₁ = (insertAbove file root k b.page m r.page parent).start t')

section

variable {t t₁ t' : Transaction} {file : FileId} {base : List Page} {s s₁ s' : Sheet}
  {lo hi : Option Key} {tip : Tip} {leaves : List Tip} {h i : Nat} {f : Fork (Shape h)} {c : Shape h}
  {keys : List Key} {parts : List (Shape h)} {parent : PageIndex}

/-- The page of a branch is not one of those below it, nor is it shared between its children. -/
theorem Fork.pages_apart {f : Fork (Shape h)} (hdup : (Shape.branch f).pages.Nodup) :
    (∀ d ∈ f.children, f.page ∉ d.pages) ∧ (f.children.flatMap Shape.pages).Nodup := by
  obtain ⟨hroot, hcs⟩ := List.nodup_cons.mp hdup
  exact ⟨fun d hd hp => hroot (List.mem_flatMap.mpr ⟨d, hd, hp⟩), hcs⟩

theorem Fork.others_apart (hdup : (f.children.flatMap Shape.pages).Nodup)
    (hc : f.children[i]? = some c) {d : Shape h}
    (hd : d ∈ f.children.take i ∨ d ∈ f.children.drop (i + 1)) : ∀ x ∈ d.pages, x ∉ c.pages := by
  rw [flatMap_window hc] at hdup
  obtain ⟨hl, -, hlr⟩ := List.nodup_append.mp hdup
  obtain ⟨-, -, hlc⟩ := List.nodup_append.mp hl
  intro x hx hxc
  rcases hd with hd | hd
  · exact hlc x (List.mem_flatMap.mpr ⟨d, hd, hx⟩) x hxc rfl
  · exact hlr x (List.mem_append_right _ hxc) x (List.mem_flatMap.mpr ⟨d, hd, hx⟩) rfl

/-- Keys and pages of the branch after a child was split are those of an insertion. -/
theorem Fork.insert_eq (parent : PageIndex) {l r : Shape h} {m : Key} (hk : f.keys.Pairwise (· < ·))
    (hm : Branch.Leads f.keys m i) (hc : f.children[i]? = some c) (hl : l.page = c.page) :
    (⟨.fresh parent, f.keys, f.children.map Shape.page⟩ : Branch).insert m r.page =
      ⟨.fresh parent, (f.graft i [m] [l, r]).keys, (f.graft i [m] [l, r]).children.map Shape.page⟩ := by
  have hidx : Branch.childIndex ⟨.fresh parent, f.keys, f.children.map Shape.page⟩ m = i :=
    Branch.childIndex_eq hk hm
  obtain ⟨hi, rfl⟩ := List.getElem?_eq_some_iff.mp hc
  rw [Branch.insert, hidx]
  dsimp only
  rw [insertIdx_eq hm.1, insertIdx_eq (by rw [List.length_map]; exact hi)]
  congr 1
  · simp [graft]
  · rw [List.take_add_one, List.getElem?_map, hc]
    simp [graft, hl]

/-- The plain nodes after a branch was split at `middle`: the lower half has its page, the upper half and
its children are under `added`. -/
structure Fork.Halved (node node' : PageIndex → Option Node) (f : Fork (Shape h)) (middle : Nat)
    (added parent : PageIndex) : Prop where
  lower : node' f.page = some (.branch ⟨.fresh parent, f.keys.take middle,
    (f.children.map Shape.page).take (middle + 1)⟩)
  upper : node' added = some (.branch ⟨.fresh parent, f.keys.drop (middle + 1),
    (f.children.map Shape.page).drop (middle + 1)⟩)
  rest : ∀ x, x ≠ f.page → x ≠ added → node' x =
    if x ∈ (f.children.map Shape.page).drop (middle + 1) then (node x).map (Node.withParent added)
    else node x

namespace Fork.Halved

variable {node node' : PageIndex → Option Node} {middle : Nat} {added : PageIndex} {d : Shape h}
  {x : PageIndex}

theorem exists_upper (hx : x ∈ (f.children.map Shape.page).drop (middle + 1)) :
    ∃ d ∈ f.children.drop (middle + 1), d.page = x := by
  rw [← List.map_drop] at hx
  exact List.mem_map.mp hx

section

variable (hh : f.Halved node node' middle added parent)
  (hcs : ∀ d ∈ f.children, d.Stored node f.page) (hnp : f.page ∉ f.children.flatMap Shape.pages)
  (hnd : (f.children.flatMap Shape.pages).Nodup) (hadded : ∀ {x n}, node x = some n → x ≠ added)

include hh hcs hnp hadded

/-- A page below the branch, what it holds and what it holds afterwards. -/
theorem below (hd : d ∈ f.children) (hx : x ∈ d.pages) : ∃ n, node x = some n ∧ node' x =
    if x ∈ (f.children.map Shape.page).drop (middle + 1) then (node x).map (Node.withParent added)
    else node x := by
  obtain ⟨n, hn⟩ := (hcs d hd).exists_node x hx
  refine ⟨n, hn, hh.rest x ?_ (hadded hn)⟩
  rintro rfl
  exact hnp (List.mem_flatMap.mpr ⟨d, hd, hx⟩)

/-- A node below the branch that is not the root of an upper child keeps its place. -/
theorem stays (hd : d ∈ f.children) (hx : x ∈ d.pages)
    (hno : ∀ d' ∈ f.children.drop (middle + 1), d'.page ≠ x) : node' x = node x := by
  obtain ⟨n, -, hrest⟩ := hh.below hcs hnp hadded hd hx
  rw [hrest, if_neg]
  intro hm
  obtain ⟨d', hd', heq⟩ := exists_upper hm
  exact hno d' hd' heq

include hnd

theorem stored_lower : (Shape.branch (f.lower middle)).Stored node' parent := by
  refine Shape.stored_branch.mpr ⟨?_, fun d hd => ?_⟩
  · rw [Fork.lower, List.map_take]
    exact hh.lower
  · have hdm := List.mem_of_mem_take hd
    refine (hcs d hdm).congr fun x hx => hh.stays hcs hnp hadded hdm hx ?_
    rintro d' hd' rfl
    -- a page of a lower child is none of an upper one
    rw [← List.take_append_drop (middle + 1) f.children, List.flatMap_append] at hnd
    exact (List.nodup_append.mp hnd).2.2 _ (List.mem_flatMap.mpr ⟨d, hd, hx⟩) _
      (List.mem_flatMap.mpr ⟨d', hd', d'.page_mem_pages⟩) rfl

theorem stored_upper : (Shape.branch (f.upper added middle)).Stored node' parent := by
  refine Shape.stored_branch.mpr ⟨?_, fun d hd => ?_⟩
  · rw [Fork.upper, List.map_drop]
    exact hh.upper
  · have hdm := List.mem_of_mem_drop hd
    obtain ⟨n, -, hrest⟩ := hh.below hcs hnp hadded hdm d.page_mem_pages
    refine (hcs d hdm).adopted ((List.nodup_flatMap.mp hnd).1 d hdm) ?_ fun x hx hxd => ?_
    · rw [hrest, if_pos]
      · rfl
      · rw [← List.map_drop]
        exact List.mem_map_of_mem hd
    · refine hh.stays hcs hnp hadded hdm hx ?_
      rintro d' hd' rfl
      have hsame := eq_of_mem_flatMap hnd hdm (List.mem_of_mem_drop hd') hx d'.page_mem_pages
      exact hxd (hsame ▸ rfl)

end

end Fork.Halved

namespace Climbed

theorem fresh_ge (hc : Climbed file base s t₁ s₁ lo hi tip leaves c parent t' s' keys parts)
    {x : PageIndex} (hx : x ∈ freshPages s.size s'.size) : s.size ≤ x.toNat ∧ x.toNat < s'.size :=
  toNat_of_mem_freshPages (Nat.le_of_lt hc.shows.size_lt) hx

/-- A page that a sheet already had is not fresh. -/
theorem not_fresh (hs : Shows t file base s)
    (hc : Climbed file base s t₁ s₁ lo hi tip leaves c parent t' s' keys parts) {x : PageIndex}
    {n : Node} (hx : s.plain x = some n) : x ∉ freshPages s.size s'.size := fun hf =>
  absurd (hs.plain_lt hx) (Nat.not_lt.mpr (hc.fresh_ge hf).1)

/-- The branch above still knows its child under the same page, and has its other children. -/
theorem graft_stored (hs : Shows t file base s)
    (hc : Climbed file base s t₁ s₁ lo hi tip leaves c f.page t' s' keys parts)
    (hf : (Shape.branch f).Stored s.plain parent) (hdup : (Shape.branch f).pages.Nodup)
    (hci : f.children[i]? = some c) :
    s'.plain f.page = some (.branch ⟨.fresh parent, f.keys, f.children.map Shape.page⟩) ∧
      ∀ d ∈ (f.graft i keys parts).children, d.Stored s'.plain f.page := by
  obtain ⟨hroot, hcs⟩ := Shape.stored_branch.mp hf
  obtain ⟨happ, hnd⟩ := Fork.pages_apart hdup
  have hmem := List.mem_of_getElem? hci
  have others_stored : ∀ d, d ∈ f.children.take i ∨ d ∈ f.children.drop (i + 1) →
      d.Stored s'.plain f.page := by
    intro d hd
    have hdm : d ∈ f.children := hd.elim List.mem_of_mem_take List.mem_of_mem_drop
    refine (hcs d hdm).congr fun x hx => hc.others x (Fork.others_apart hnd hci hd x hx) ?_
    obtain ⟨n, hn⟩ := (hcs d hdm).exists_node x hx
    exact hc.not_fresh hs hn
  refine ⟨(hc.others _ (happ c hmem) (hc.not_fresh hs hroot)).trans hroot, fun d hd => ?_⟩
  rcases List.mem_append.mp hd with hd | hd
  · rcases List.mem_append.mp hd with hd | hd
    · exact others_stored d (.inl hd)
    · exact hc.stored d hd
  · exact others_stored d (.inr hd)

/-- The pages below the branch are still all different. -/
theorem graft_nodup (hs : Shows t file base s)
    (hc : Climbed file base s t₁ s₁ lo hi tip leaves c f.page t' s' keys parts)
    (hf : (Shape.branch f).Stored s.plain parent) (hdup : (Shape.branch f).pages.Nodup)
    (hci : f.children[i]? = some c) :
    f.page ∉ (f.graft i keys parts).children.flatMap Shape.pages ∧
      ((f.graft i keys parts).children.flatMap Shape.pages).Nodup := by
  obtain ⟨hroot, hnd⟩ := List.nodup_cons.mp hdup
  have hperm := hc.becomes.pages_graft hci
  rw [hperm.mem_iff, hperm.nodup_iff, List.mem_append]
  refine ⟨fun h => h.elim hroot (hc.not_fresh hs (Shape.stored_branch.mp hf).1),
    List.nodup_append.mpr ⟨hnd, nodup_freshPages (Nat.le_of_lt hc.shows.size_lt), ?_⟩⟩
  rintro x hx y hy rfl
  obtain ⟨d, hd, hx⟩ := List.mem_flatMap.mp hx
  obtain ⟨n, hn⟩ := ((Shape.stored_branch.mp hf).2 d hd).exists_node x hx
  exact hc.not_fresh hs hn hy

theorem others_branch (hc : Climbed file base s t₁ s₁ lo hi tip leaves c f.page t' s' keys parts)
    (hci : f.children[i]? = some c) {x : PageIndex} (hx : x ∉ (Shape.branch f).pages)
    (hf : x ∉ freshPages s.size s'.size) : s'.plain x = s.plain x :=
  hc.others x (fun h => hx (List.mem_cons_of_mem _
    (List.mem_flatMap.mpr ⟨c, List.mem_of_getElem? hci, h⟩))) hf

/-- The child kept its page, so the branch stays as it is. -/
theorem graft_one {b : Shape h} (hs : Shows t file base s)
    (hc : Climbed file base s t₁ s₁ lo hi tip leaves c f.page t' s' [] [b])
    (hpage : b.page = c.page) (hf : (Shape.branch f).Stored s.plain parent)
    (hfits : (Shape.branch f).Fits t₁.mounted.volume.pageSize) (hdup : (Shape.branch f).pages.Nodup)
    (hci : f.children[i]? = some c) (hi : i ≤ f.keys.length) {lo' hi' : Option Key}
    (hord : (Shape.branch (f.graft i [] [b])).Ordered lo' hi') :
    Climbed file base s t₁ s₁ lo' hi' tip leaves (.branch f) parent t' s' []
      [.branch (f.graft i [] [b])] := by
  obtain ⟨hroot, hcs⟩ := hc.graft_stored hs hf hdup hci
  have hkeys : (f.graft i [] [b]).keys = f.keys := by simp [Fork.graft]
  have hchildren : (f.graft i [] [b]).children.map Shape.page = f.children.map Shape.page := by
    obtain ⟨hlt, rfl⟩ := List.getElem?_eq_some_iff.mp hci
    have hb : [b].map Shape.page = [f.children[i]].map Shape.page := by simp [hpage]
    rw [Fork.graft, List.map_append, List.map_append, hb, ← List.map_append, ← List.map_append,
      List.append_assoc, List.singleton_append, ← List.drop_eq_getElem_cons hlt,
      List.take_append_drop]
  refine ⟨hc.alters, hc.shows, hc.info, hc.grown, hc.size_ge, Nat.le_succ_of_le hc.size_le,
    hc.becomes.graft hci hfits hi hord (by rw [hkeys]; exact (Shape.fits_branch.mp hfits).2.1),
    fun d hd => ?_, fun x hx hx' => hc.others_branch hci hx hx', hc.neighbours⟩
  obtain rfl := List.mem_singleton.mp hd
  refine Shape.stored_branch.mpr ⟨?_, hcs⟩
  rw [hkeys, hchildren]
  exact hroot

section

/-! A child was split, and its branch takes the key between the two halves. -/

variable {l r : Shape h} {m : Key} (hs : Shows t file base s)
  (hc : Climbed file base s t₁ s₁ lo hi tip leaves c f.page t' s' [m] [l, r])
  (hpage : l.page = c.page) (hf : (Shape.branch f).Stored s.plain parent)
  (hfits : (Shape.branch f).Fits t₁.mounted.volume.pageSize) (hdup : (Shape.branch f).pages.Nodup)
  (hci : f.children[i]? = some c) (hk : f.keys.Pairwise (· < ·)) (hm : Branch.Leads f.keys m i)
  {lo' hi' : Option Key} (hord : (Shape.branch (f.graft i [m] [l, r])).Ordered lo' hi')

include hs hc hpage hf hfits hdup hci hk hm hord

/-- The branch has room for the key. -/
theorem graft_two (hroom : f.keys.length + 1 ≤ Branch.capacity t₁.mounted.volume.pageSize) (root left : PageIndex)
    (k : Nat) :
    ∃ t₂ s₂, (insertAbove file root (k + 1) left m r.page f.page).Gives t' root t₂ ∧
      Climbed file base s t₁ s₁ lo' hi' tip leaves (.branch f) parent t₂ s₂ []
        [.branch (f.graft i [m] [l, r])] := by
  obtain ⟨hroot, hcs⟩ := hc.graft_stored hs hf hdup hci
  obtain ⟨hnp, -⟩ := hc.graft_nodup hs hf hdup hci
  have hins := Fork.insert_eq parent (r := r) hk hm hci hpage
  have hkeys : (f.graft i [m] [l, r]).keys.length = f.keys.length + 1 := Fork.length_graft hm.1 _ _
  have hpair : (f.graft i [m] [l, r]).children.length = (f.graft i [m] [l, r]).keys.length + 1 :=
    Spaced.length hord
  have hps : t'.mounted.volume.pageSize = t₁.mounted.volume.pageSize := by rw [hc.alters.mounted]
  obtain ⟨t₂, s₂, hg, ha, hs₂, hz, hinfo, hp₂, hb₂⟩ := hc.shows.insertAbove_fits hroot hins
    (by rw [hps]; exact hkeys ▸ hroom) (by simpa using hpair) root left k
  have hstay : ∀ x, x ≠ f.page → s₂.plain x = s'.plain x := fun x hx => by rw [hp₂, if_neg hx]
  refine ⟨t₂, s₂, hg, hc.alters.trans ha, hs₂, hinfo.trans hc.info, hz ▸ hc.grown, hz ▸ hc.size_ge,
    hz ▸ Nat.le_succ_of_le hc.size_le, ?_, fun d hd => ?_, fun x hx hx' => ?_,
    fun x hx => (hb₂ x).trans (hc.neighbours x hx)⟩
  · rw [hz]
    exact hc.becomes.graft hci hfits hm.1 hord (hkeys ▸ hroom)
  · obtain rfl := List.mem_singleton.mp hd
    refine Shape.stored_branch.mpr ⟨?_, fun d hd => (hcs d hd).congr fun x hx => hstay x ?_⟩
    · rw [hp₂]
      exact if_pos rfl
    · rintro rfl
      exact hnp (List.mem_flatMap.mpr ⟨d, hd, hx⟩)
  · rw [hz] at hx'
    rw [hstay x fun h => hx (h ▸ List.mem_cons_self)]
    exact hc.others_branch hci hx hx'

/-- The branch is split, and the climb goes on above it. -/
theorem graft_halve (hfull : f.keys.length = Branch.capacity t₁.mounted.volume.pageSize)
    (hcap : 2 ≤ Branch.capacity t₁.mounted.volume.pageSize) (hsize : s'.size + 1 < UInt64.size)
    (root left : PageIndex) (k : Nat) :
    ∃ t₂ s₂ median lower upper,
      (insertAbove file root (k + 1) left m r.page f.page).start t' =
        (insertAbove file root k f.page median (Shape.page upper) parent).start t₂ ∧
      Shape.page lower = f.page ∧
      Climbed file base s t₁ s₁ lo' hi' tip leaves (.branch f) parent t₂ s₂ [median]
        [lower, upper] := by
  obtain ⟨hroot, hcs⟩ := hc.graft_stored hs hf hdup hci
  obtain ⟨hnp, hnd⟩ := hc.graft_nodup hs hf hdup hci
  have hins := Fork.insert_eq parent (r := r) hk hm hci hpage
  have hkeys : (f.graft i [m] [l, r]).keys.length = f.keys.length + 1 := Fork.length_graft hm.1 _ _
  have hpair : (f.graft i [m] [l, r]).children.length = (f.graft i [m] [l, r]).keys.length + 1 :=
    Spaced.length hord
  have hps : t'.mounted.volume.pageSize = t₁.mounted.volume.pageSize := by rw [hc.alters.mounted]
  obtain ⟨g, hg⟩ : ∃ g, f.graft i [m] [l, r] = g := ⟨_, rfl⟩
  have hgp : g.page = f.page := hg ▸ rfl
  rw [hg] at hins hkeys hpair hcs hnp hnd hord
  generalize hmid : g.keys.length / 2 = middle
  have hlt : middle < g.keys.length := by omega
  have hmed := List.getElem?_eq_getElem hlt
  have hadopted : ∀ x ∈ (g.children.map Shape.page).drop (middle + 1), x ≠ f.page ∧ ∃ n, s'.plain x = some n := by
    intro x hx
    obtain ⟨d, hd, rfl⟩ := Fork.Halved.exists_upper hx
    have hd' := List.mem_of_mem_drop hd
    refine ⟨?_, (hcs d hd').exists_node _ d.page_mem_pages⟩
    intro heq
    exact hnp (heq ▸ List.mem_flatMap.mpr ⟨d, hd', d.page_mem_pages⟩)
  obtain ⟨t₂, s₂, hrun, ha, hs₂, hz, hinfo, hlow, hup, hrest, hb₂⟩ :=
    hc.shows.insertAbove_splits hroot hins (by rw [hps]; exact hkeys.trans (by rw [hfull]))
      (by simpa using hpair) (by dsimp only; rw [hmid]; exact hmed)
      (by dsimp only; rw [hmid]; exact hadopted) hsize root left k
  dsimp only at hrest hlow hup
  rw [hmid] at hrest hlow hup
  rw [← hgp] at hcs hnp hlow hrest
  have hhalved : g.Halved s'.plain s₂.plain middle (UInt64.ofNat s'.size) parent := ⟨hlow, hup, hrest⟩
  have hadded : ∀ {x n}, s'.plain x = some n → x ≠ UInt64.ofNat s'.size := hc.shows.plain_ne_size
  refine ⟨t₂, s₂, g.keys[middle], .branch (g.lower middle),
    .branch (g.upper (UInt64.ofNat s'.size) middle), ?_, hgp, hc.alters.trans ha, hs₂,
    hinfo.trans hc.info, by have := hc.grown; omega, by have := hc.size_ge; omega, by have := hc.size_le; omega, ?_,
    fun d hd => ?_, fun x hx hx' => ?_, fun x hx => ?_⟩
  · exact hrun
  · rw [hz, freshPages_succ hc.grown]
    subst hmid
    exact hc.becomes.halve hci hfits hg hord (by omega) (by omega) hmed
  · rcases List.mem_cons.mp hd with rfl | hd
    · exact hhalved.stored_lower hcs hnp hnd hadded
    · obtain rfl := List.mem_singleton.mp hd
      exact hhalved.stored_upper hcs hnp hnd hadded
  · have hxg : x ≠ g.page := fun h => hx (h ▸ hgp ▸ List.mem_cons_self)
    rw [hz, freshPages_succ hc.grown, List.mem_append, not_or, List.mem_singleton] at hx'
    rw [hrest x hxg hx'.2, if_neg]
    · exact hc.others_branch hci hx hx'.1
    · intro hm
      obtain ⟨d, hd, rfl⟩ := Fork.Halved.exists_upper hm
      have hall : d.page ∈ g.children.flatMap Shape.pages :=
        List.mem_flatMap.mpr ⟨d, List.mem_of_mem_drop hd, d.page_mem_pages⟩
      rw [← hg, (hc.becomes.pages_graft hci).mem_iff, List.mem_append] at hall
      exact hall.elim (fun h => hx (List.mem_cons_of_mem _ h)) hx'.1
  · refine (hb₂ x ?_).trans (hc.neighbours x hx)
    rintro rfl
    rw [hc.shows.size_toNat] at hx
    exact absurd hx (Nat.not_lt.mpr hc.size_ge)

end

end Climbed

end

namespace Shows

variable {t t₁ : Transaction} {file : FileId} {base : List Page} {s s₁ : Sheet}

/-- Before anything climbs, a split leaf is there as its two halves. -/
theorem climbed_halves (hs₁ : Shows t₁ file base s₁) {tip : Tip} {parent : PageIndex}
    {below above : List Entry} {e : Entry} (hsplit : SplitAt s s₁ tip parent below (e :: above))
    (hb : below ≠ []) (ho : Entries.InOrder (below ++ e :: above)) {lo hi : Option Key}
    (hw : ∀ x ∈ below ++ e :: above, Within lo hi x.key)
    (hl : below.length ≤ Leaf.capacity t₁.mounted.volume.pageSize)
    (hr : (e :: above).length ≤ Leaf.capacity t₁.mounted.volume.pageSize) :
    Climbed file base s t₁ s₁ lo hi tip [⟨tip.page, below⟩, ⟨UInt64.ofNat s.size, e :: above⟩]
      (Shape.leaf tip) parent t₁ s₁ [e.key]
      [.leaf ⟨tip.page, below⟩, .leaf ⟨UInt64.ofNat s.size, e :: above⟩] where
  alters := .refl file t₁
  shows := hs₁
  info := rfl
  grown := hsplit.size ▸ Nat.le_succ _
  size_ge := Nat.le_refl _
  size_le := Nat.le_refl _
  becomes := by
    rw [hsplit.size, freshPages_one]
    exact .halves hb ho hw hl hr
  stored c hc := by
    rcases List.mem_cons.mp hc with rfl | hc
    · exact hsplit.left
    · obtain rfl := List.mem_singleton.mp hc
      exact hsplit.right
  others i hi hf := by
    rw [hsplit.size, freshPages_one] at hf
    exact hsplit.others i (fun h => hi (by simp [h])) (fun h => hf (by simp [h]))
  neighbours _ _ := rfl

/-- The right half of a leaf is noted at its parent, which may have to be split in turn. -/
theorem climb (hs : Shows t file base s) (hs₁ : Shows t₁ file base s₁) {tip : Tip} {key : Key}
    {pl : PageIndex} {below above : List Entry} {e : Entry}
    (hsplit : SplitAt s s₁ tip pl below (e :: above)) (hb : below ≠ [])
    (ho : Entries.InOrder (below ++ e :: above))
    (hnew : ∀ x ∈ below ++ e :: above, x ∈ tip.entries ∨ x.key = key)
    (hl : below.length ≤ Leaf.capacity t₁.mounted.volume.pageSize)
    (hr : (e :: above).length ≤ Leaf.capacity t₁.mounted.volume.pageSize) (root : PageIndex) {h : Nat}
    {b : Shape h} {parent : PageIndex} {lo hi : Option Key} (hstored : b.Stored s.plain parent)
    (hord : b.Ordered lo hi) (hfits : b.Fits t₁.mounted.volume.pageSize) (hdup : b.pages.Nodup)
    (hleads : b.LeadsTo key tip) (hkey : Within lo hi key)
    (hcap : 2 ≤ Branch.capacity t₁.mounted.volume.pageSize)
    (hsize : s.size + h + 2 < UInt64.size) (k : Nat) :
    ClimbEnds file base s t₁ s₁ lo hi tip [⟨tip.page, below⟩, ⟨UInt64.ofNat s.size, e :: above⟩] b
      parent root k (insertAbove file root (k + h) tip.page e.key (UInt64.ofNat s.size) pl) := by
  induction h generalizing parent lo hi k with
  | zero =>
    have hbt : b = Shape.leaf tip := hleads
    rw [hbt] at hstored hord ⊢
    obtain rfl : parent = pl := by
      have := hsplit.whole.symm.trans (Shape.stored_leaf.mp hstored)
      simp only [Option.some.injEq, Node.leaf.injEq, Leaf.mk.injEq, NodeLinks.fresh,
        NodeLinks.mk.injEq] at this
      exact this.1.2.1.symm
    have hw : ∀ x ∈ below ++ e :: above, Within lo hi x.key := by
      intro x hx
      rcases hnew x hx with hx | hx
      · exact hord.2.2 x hx
      · exact hx ▸ hkey
    exact .above (hs₁.climbed_halves hsplit hb ho hw hl hr) rfl rfl
  | succ h ih =>
    obtain ⟨i, c, hlead, hci, hleads⟩ := hleads
    obtain ⟨hroot, hcs⟩ := Shape.stored_branch.mp hstored
    obtain ⟨-, hfew, hcfits⟩ := Shape.fits_branch.mp hfits
    obtain ⟨-, hnd⟩ := Fork.pages_apart hdup
    have hsp := Shape.ordered_branch.mp hord
    have hsorted := hsp.keys_pairwise Shape.Ordered.span
    obtain ⟨c', l, u, hc', hcord, hck, -, hmid, hput⟩ := hsp.focus Shape.Ordered.span hkey hlead
    obtain rfl : c = c' := Option.some.inj (hci.symm.trans hc')
    have hcm := List.mem_of_getElem? hci
    have hends := ih (hcs c hcm) hcord (hcfits c hcm) ((List.nodup_flatMap.mp hnd).1 c hcm) hleads hck
      (by omega) (k + 1)
    rw [show k + 1 + h = k + (h + 1) by omega] at hends
    cases hends with
    | done climbed page gives =>
      exact .done (climbed.graft_one hs page hstored hfits hdup hci hlead.1
        (hput _ _ climbed.becomes.ordered)) rfl gives
    | @above t' s' m left right climbed page continues =>
      have hin := climbed.becomes.ordered.keys_inside Shape.Ordered.span m List.mem_cons_self
      have hm : Branch.Leads (Fork.keys b) m i :=
        hmid m ⟨fun x hx => le_of_lt (hin.1 x hx m rfl), fun x hx => hin.2 m rfl x hx⟩
      have hgraft := hput _ _ climbed.becomes.ordered
      have hsize' : s'.size + 1 < UInt64.size := by
        have := climbed.size_le
        have := hsplit.size
        omega
      by_cases hroom : (Fork.keys b).length + 1 ≤ Branch.capacity t₁.mounted.volume.pageSize
      · obtain ⟨t₂, s₂, hg, hc₂⟩ := climbed.graft_two hs page hstored hfits hdup hci hsorted hm hgraft
          hroom root c.page k
        exact .done hc₂ rfl (continues.trans hg)
      · obtain ⟨t₂, s₂, median, lower, upper, hrun, hpage, hc₂⟩ := climbed.graft_halve hs page hstored
          hfits hdup hci hsorted hm hgraft (by omega) hcap hsize' root c.page k
        exact .above hc₂ hpage (continues.trans hrun)

end Shows

end RefStore.Tree
