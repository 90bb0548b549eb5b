import RefStore.Proofs.Overlays
import RefStore.Storage.Transaction

/-!
# What an operation makes of a file

The pages of a file as an operation leaves them, told by its drafts and the pages committed before.
Changing a page or adding one changes this list of pages, and nothing for other files.
-/

namespace RefStore.Operation

/-- The pages of a file in an operation, over those that are committed. Pages of the operation's own
start from zero, drafts of all others from the page that is committed. -/
structure Drafts (op : Operation) (file : FileId) (size : Nat) (base pages : List Page) : Prop where
  kept : file ∉ op.deleted
  count : op.counts[file]? = some (UInt64.ofNat pages.length) ∨
    op.counts[file]? = Option.none ∧ pages.length = base.length
  grown : base.length ≤ pages.length
  bound : pages.length < UInt64.size
  draft : ∀ i d, op.draft? file i = some d → i.toNat < pages.length ∧ d.overlay.Tidy ∧
    pages[i.toNat]? = some d.overlay.page ∧ (d.appended = true ↔ base.length ≤ i.toNat) ∧
    (if d.appended then some (Page.zero size) else base[i.toNat]?) = some d.overlay.base
  plain : ∀ i, op.draft? file i = Option.none → i.toNat < pages.length →
    i.toNat < base.length ∧ base[i.toNat]? = pages[i.toNat]?
  sizes : ∀ p ∈ pages, p.size = size
  baseSizes : ∀ p ∈ base, p.size = size

theorem draft?_withDraft (op : Operation) (file : FileId) (index : PageIndex) (d : Draft)
    (f : FileId) (i : PageIndex) :
    (op.withDraft file index d).draft? f i =
      if f = file ∧ i = index then some d else op.draft? f i := by
  rw [withDraft, draft?, Std.TreeMap.getElem?_alter]
  by_cases hf : f = file
  · subst hf
    simp only [Std.ReflCmp.compare_self, if_true, Option.bind_some, true_and, draft?]
    rw [Std.TreeMap.getElem?_insert]
    by_cases hi : i = index
    · simp [hi]
    · rw [if_neg (by simpa using fun h => hi h.symm), if_neg hi]
      cases op.drafts[f]? <;> simp
  · rw [if_neg (by simpa using fun h => hf h.symm), if_neg (by simp [hf])]
    rfl

theorem mem_pages {op : Operation} {file : FileId} {i : PageIndex} {d : Draft} :
    (file, i, d) ∈ op.pages ↔ op.draft? file i = some d := by
  rw [pages, List.mem_flatMap, draft?]
  constructor
  · rintro ⟨⟨f, drafts⟩, hf, hm⟩
    obtain ⟨⟨j, e⟩, he, heq⟩ := List.mem_map.mp hm
    obtain ⟨rfl, rfl, rfl⟩ : f = file ∧ j = i ∧ e = d := by simpa using heq
    rw [Std.TreeMap.mem_toList_iff_getElem?_eq_some] at hf he
    rw [hf]
    exact he
  · intro hd
    obtain ⟨drafts, hf, hi⟩ := Option.bind_eq_some_iff.mp hd
    refine ⟨(file, drafts), Std.TreeMap.mem_toList_iff_getElem?_eq_some.mpr hf, ?_⟩
    exact List.mem_map.mpr ⟨(i, d), Std.TreeMap.mem_toList_iff_getElem?_eq_some.mpr hi, rfl⟩

/-- Drafts come by file and page. -/
theorem pairwise_pages (op : Operation) :
    op.pages.Pairwise fun a b => a.1 < b.1 ∨ a.1 = b.1 ∧ a.2.1 < b.2.1 := by
  rw [pages, List.flatMap]
  refine List.pairwise_flatten.mpr ⟨fun l hl => ?_, ?_⟩
  · obtain ⟨⟨f, drafts⟩, -, rfl⟩ := List.mem_map.mp hl
    refine List.pairwise_map.mpr ((Std.TreeMap.ordered_keys_toList (t := drafts)).imp ?_)
    intro a b hab
    exact .inr ⟨rfl, Std.compare_eq_lt.mp hab⟩
  · refine List.pairwise_map.mpr ((Std.TreeMap.ordered_keys_toList (t := op.drafts)).imp ?_)
    intro a b hab x hx y hy
    obtain ⟨_, -, rfl⟩ := List.mem_map.mp hx
    obtain ⟨_, -, rfl⟩ := List.mem_map.mp hy
    exact .inl (Std.compare_eq_lt.mp hab)

theorem mem_changes {op : Operation} {file : FileId} {i : PageIndex} {d : Draft} :
    (file, i, d) ∈ op.changes ↔ op.draft? file i = some d ∧ d.isChange = true := by
  rw [changes, List.mem_filter, mem_pages]

/-- The files that an operation deletes, makes or changes. -/
def Concerns (op : Operation) (file : FileId) : Prop :=
  file ∈ op.deleted ∨ (∃ name, (file, name) ∈ op.created) ∨ ∃ i d, (file, i, d) ∈ op.changes

theorem pairwise_changes (op : Operation) :
    op.changes.Pairwise fun a b => a.1 < b.1 ∨ a.1 = b.1 ∧ a.2.1 < b.2.1 :=
  (pairwise_pages op).filter _

theorem Drafts.fresh (id : OperationId) (file : FileId) {size : Nat} {base : List Page}
    (hb : base.length < UInt64.size) (hs : ∀ p ∈ base, p.size = size) :
    (fresh id).Drafts file size base base where
  kept := by simp [Operation.fresh]
  count := .inr ⟨by simp [Operation.fresh], rfl⟩
  grown := Nat.le_refl _
  bound := hb
  draft i d h := by simp [Operation.fresh, draft?] at h
  plain i _ h := ⟨h, rfl⟩
  sizes := hs
  baseSizes := hs

/-- A new operation has the pages that are committed. -/
theorem Drafts.eq_of_fresh {id : OperationId} {file : FileId} {size : Nat} {base pages : List Page}
    (h : (Operation.fresh id).Drafts file size base pages) : pages = base := by
  have hnone : ∀ i, (Operation.fresh id).draft? file i = Option.none := fun i => by
    simp [Operation.fresh, draft?]
  have hlen : pages.length = base.length := by
    rcases h.count with hc | ⟨-, hl⟩
    · simp [Operation.fresh] at hc
    · exact hl
  refine List.ext_getElem? fun k => ?_
  by_cases hk : k < pages.length
  · have hn : (UInt64.ofNat k).toNat = k := UInt64.toNat_ofNat_of_lt' (Nat.lt_trans hk h.bound)
    have := (h.plain (UInt64.ofNat k) (hnone _) (by rwa [hn])).2
    rwa [hn, eq_comm] at this
  · rw [List.getElem?_eq_none (Nat.le_of_not_lt hk), List.getElem?_eq_none (hlen ▸ Nat.le_of_not_lt hk)]

/-- What an operation makes of a file is seen in these places only. -/
theorem Drafts.congr {op op' : Operation} {file : FileId} {size : Nat} {base pages : List Page}
    (h : op.Drafts file size base pages) (hdel : file ∉ op'.deleted)
    (hcount : op'.counts[file]? = op.counts[file]?)
    (hdraft : ∀ i, op'.draft? file i = op.draft? file i) :
    op'.Drafts file size base pages where
  kept := hdel
  count := hcount ▸ h.count
  grown := h.grown
  bound := h.bound
  draft i d hd := h.draft i d (hdraft i ▸ hd)
  plain i hd := h.plain i (hdraft i ▸ hd)
  sizes := h.sizes
  baseSizes := h.baseSizes

/-- The draft of a page: the one there is, or the committed page without changes. -/
def Current (op : Operation) (file : FileId) (base : List Page) (i : PageIndex) (d : Draft) : Prop :=
  op.draft? file i = some d ∨
    op.draft? file i = Option.none ∧ ∃ p, base[i.toNat]? = some p ∧ d = ⟨.on p, false⟩

/-- A current draft shows the page, and says where it started from. -/
theorem Drafts.current {op : Operation} {file : FileId} {size : Nat} {base pages : List Page}
    (h : op.Drafts file size base pages) {i : PageIndex} {p : Page} {d : Draft}
    (hp : pages[i.toNat]? = some p) (hd : op.Current file base i d) :
    d.overlay.Tidy ∧ d.overlay.page = p ∧ (d.appended = true ↔ base.length ≤ i.toNat) ∧
      (if d.appended then some (Page.zero size) else base[i.toNat]?) = some d.overlay.base := by
  rcases hd with hd | ⟨hd, q, hq, rfl⟩
  · obtain ⟨-, ht, hpage, happ, hbase⟩ := h.draft i d hd
    exact ⟨ht, Option.some.inj (hpage.symm.trans hp), happ, hbase⟩
  · obtain ⟨hi, -⟩ := List.getElem?_eq_some_iff.mp hp
    obtain ⟨hlt, hb⟩ := h.plain i hd hi
    refine ⟨Overlay.tidy_on q, Option.some.inj (hq.symm.trans (hb.trans hp)), ?_, hq⟩
    simp only [Bool.false_eq_true, false_iff]
    omega

theorem Drafts.size_current {op : Operation} {file : FileId} {size : Nat} {base pages : List Page}
    (h : op.Drafts file size base pages) {i : PageIndex} {p : Page} {d : Draft}
    (hp : pages[i.toNat]? = some p) (hd : op.Current file base i d) : d.overlay.size = size := by
  obtain ⟨ht, hpage, -⟩ := h.current hp hd
  rw [← Overlay.size_page ht, hpage]
  exact h.sizes p (List.mem_of_getElem? hp)

/-- A change of a page. -/
theorem Drafts.write {op : Operation} {file : FileId} {size : Nat} {base pages : List Page}
    (h : op.Drafts file size base pages) {i : PageIndex} {p : Page} {d : Draft}
    (hp : pages[i.toNat]? = some p) (hd : op.Current file base i d) {ws : List Write}
    (hw : ∀ w ∈ ws, Page.Inside size w) :
    (op.withDraft file i { d with overlay := d.overlay.writtenAll ws }).Drafts file size base
      (pages.set i.toNat (p.writtenAll ws)) := by
  obtain ⟨ht, hpage, happ, hbase⟩ := h.current hp hd
  obtain ⟨hi, -⟩ := List.getElem?_eq_some_iff.mp hp
  have hws : ∀ w ∈ ws, Page.Inside d.overlay.size w := by
    rw [h.size_current hp hd]
    exact hw
  have hpsize : p.size = size := h.sizes p (List.mem_of_getElem? hp)
  refine ⟨h.kept, ?_, ?_, ?_, fun j e he => ?_, fun j he hj => ?_, fun q hq => ?_, h.baseSizes⟩
  · rw [List.length_set]
    exact h.count
  · rw [List.length_set]
    exact h.grown
  · rw [List.length_set]
    exact h.bound
  · rw [draft?_withDraft] at he
    split at he
    · next heq =>
      obtain ⟨-, rfl⟩ := heq
      obtain rfl := Option.some.inj he
      refine ⟨by rw [List.length_set]; exact hi, Overlay.tidy_writtenAll ht hws, ?_, happ, ?_⟩
      · rw [List.getElem?_set_self hi, Overlay.page_writtenAll ht hws, hpage]
      · rw [Overlay.base_writtenAll]
        exact hbase
    · next hne =>
      obtain ⟨hlt, hte, hpe, hae⟩ := h.draft j e he
      refine ⟨by rw [List.length_set]; exact hlt, hte, ?_, hae⟩
      rw [List.getElem?_set_ne fun heq => hne ⟨rfl, UInt64.toNat_inj.mp heq.symm⟩]
      exact hpe
  · rw [draft?_withDraft] at he
    split at he
    · cases he
    · next hne =>
      rw [List.length_set] at hj
      rw [List.getElem?_set_ne fun heq => hne ⟨rfl, UInt64.toNat_inj.mp heq.symm⟩]
      exact h.plain j he hj
  · rcases List.mem_or_eq_of_mem_set hq with hq | rfl
    · exact h.sizes q hq
    · rw [Page.size_writtenAll fun w hwm => by rw [hpsize]; exact hw w hwm, hpsize]

/-- A new zero page at the end. -/
theorem Drafts.append {op : Operation} {file : FileId} {size : Nat} {base pages : List Page}
    (h : op.Drafts file size base pages) (hb : pages.length + 1 < UInt64.size) :
    op.draft? file (UInt64.ofNat pages.length) = Option.none ∧
    { op.withDraft file (UInt64.ofNat pages.length) ⟨.on (.zero size), true⟩ with
      counts := op.counts.insert file (UInt64.ofNat pages.length + 1) }.Drafts file size base
      (pages ++ [Page.zero size]) := by
  have hn : (UInt64.ofNat pages.length).toNat = pages.length := UInt64.toNat_ofNat_of_lt' h.bound
  have hnone : op.draft? file (UInt64.ofNat pages.length) = Option.none := by
    cases hd : op.draft? file (UInt64.ofNat pages.length) with
    | none => rfl
    | some d =>
      have := (h.draft _ d hd).1
      omega
  have hne : ∀ {j : PageIndex}, ¬ (file = file ∧ j = UInt64.ofNat pages.length) →
      j.toNat ≠ pages.length := by
    intro j hj heq
    exact hj ⟨rfl, UInt64.toNat_inj.mp (by rw [heq, hn])⟩
  refine ⟨hnone, h.kept, .inl ?_, ?_, ?_, fun j e he => ?_, fun j he hj => ?_, fun q hq => ?_,
    h.baseSizes⟩
  · simp [UInt64.ofNat_add]
  · rw [List.length_append]
    exact Nat.le_trans h.grown (Nat.le_add_right _ _)
  · simpa using hb
  · have he' : (op.withDraft file (UInt64.ofNat pages.length) ⟨.on (.zero size), true⟩).draft? file j =
        some e := he
    rw [draft?_withDraft] at he'
    split at he'
    · next heq =>
      obtain ⟨-, rfl⟩ := heq
      obtain rfl := Option.some.inj he'
      refine ⟨by simp [hn], Overlay.tidy_on _, by rw [hn]; simp, ?_, rfl⟩
      simp only [true_iff, hn]
      exact h.grown
    · next hj =>
      obtain ⟨hlt, hte, hpe, hae⟩ := h.draft j e he'
      refine ⟨by rw [List.length_append]; omega, hte, ?_, hae⟩
      rw [List.getElem?_append_left hlt]
      exact hpe
  · have he' : (op.withDraft file (UInt64.ofNat pages.length) ⟨.on (.zero size), true⟩).draft? file j =
        Option.none := he
    rw [draft?_withDraft] at he'
    split at he'
    · cases he'
    · next hjn =>
      have hlt : j.toNat < pages.length := by
        have := hne hjn
        rw [List.length_append, List.length_singleton] at hj
        omega
      rw [List.getElem?_append_left hlt]
      exact h.plain j he' hlt
  · rcases List.mem_append.mp hq with hq | hq
    · exact h.sizes q hq
    · rw [List.mem_singleton.mp hq, Page.size_zero]

/-- A file that was just added. -/
theorem Drafts.created {op : Operation} {file : FileId} (size : Nat) (hdel : file ∉ op.deleted)
    (hdraft : ∀ i, op.draft? file i = Option.none) (name : String) :
    { op with created := op.created ++ [(file, name)], counts := op.counts.insert file 0 }.Drafts
      file size [] [] where
  kept := hdel
  count := .inl (by simp)
  grown := Nat.le_refl _
  bound := by decide
  draft i d hd := by
    have hn : op.draft? file i = some d := hd
    rw [hdraft i] at hn
    cases hn
  plain i _ hi := absurd hi (Nat.not_lt_zero _)
  sizes p hp := by cases hp
  baseSizes p hp := by cases hp

end RefStore.Operation
