import Mathlib.Data.List.Forall2
import RefStore.Proofs.Drafts
import RefStore.Proofs.Mending

/-!
# Pages on the way

The pages of a file while the changes of an operation are put in place. Some changes are in place, and
some may be, in whole or in part. Main statements: `Staged.le_length`, no change comes too early, and
`Staged.unique`, in the end the pages are determined.
-/

namespace RefStore.Operation

/-- The pages of a file when the changes in `done` are in place and no other than those in `begun` may
be. -/
structure Staged (file : FileId) (base : List Page) (begun done : List (FileId × PageIndex × Draft))
    (cur : List Page) : Prop where
  reach : ∀ j : PageIndex, (j.toNat < base.length ∨ ∃ d, (file, j, d) ∈ done) → j.toNat < cur.length
  within : ∀ j : PageIndex, j.toNat < cur.length → j.toNat < base.length ∨ ∃ d, (file, j, d) ∈ begun
  page : ∀ (j : PageIndex) d, (file, j, d) ∈ done → cur[j.toNat]? = some d.overlay.page.withSeal
  mends : ∀ (j : PageIndex) d p, (file, j, d) ∈ begun → cur[j.toNat]? = some p → d.overlay.Mends p
  kept : ∀ j : PageIndex, (∀ d, (file, j, d) ∉ begun) → j.toNat < base.length →
    cur[j.toNat]? = base[j.toNat]?

variable {op : Operation} {file : FileId} {size : Nat} {base pages cur cur' : List Page}
  {begun done begun' done' rest : List (FileId × PageIndex × Draft)} {i : PageIndex} {d : Draft}

/-- A page has one draft. -/
theorem changes_unique {e : Draft} (h : (file, i, d) ∈ op.changes) (h' : (file, i, e) ∈ op.changes) :
    d = e := by
  have hd := (mem_changes.mp h).1
  rw [(mem_changes.mp h').1] at hd
  exact (Option.some.inj hd).symm

/-- A change comes once. -/
theorem not_mem_done (hall : op.changes = done ++ (file, i, d) :: rest) (e : Draft) :
    (file, i, e) ∉ done := by
  intro he
  have hpw := op.pairwise_changes
  rw [hall] at hpw
  rcases (List.pairwise_append.mp hpw).2.2 _ he _ List.mem_cons_self with hf | ⟨-, hi⟩
  · exact UInt32.lt_irrefl file hf
  · exact UInt64.lt_irrefl i hi

/-- A page that is not committed yet has a draft that counts as a change. -/
theorem Drafts.change_of_le (h : op.Drafts file size base pages) {j : PageIndex}
    (hj : j.toNat < pages.length) (hb : base.length ≤ j.toNat) : ∃ e, (file, j, e) ∈ op.changes := by
  cases he : op.draft? file j with
  | none => exact absurd (h.plain j he hj).1 (Nat.not_lt.mpr hb)
  | some e =>
    obtain ⟨-, -, -, happ, -⟩ := h.draft j e he
    exact ⟨e, mem_changes.mpr ⟨he, by simp [Draft.isChange, happ.mpr hb]⟩⟩

/-- What a change says of its page. -/
theorem Drafts.change (h : op.Drafts file size base pages) (hx : (file, i, d) ∈ op.changes) :
    i.toNat < pages.length ∧ pages[i.toNat]? = some d.overlay.page ∧ d.overlay.Tidy ∧
      d.overlay.size = size := by
  have hd := (mem_changes.mp hx).1
  obtain ⟨hi, ht, hpage, -⟩ := h.draft i d hd
  exact ⟨hi, hpage, ht, h.size_current hpage (.inl hd)⟩

/-- The page that a change starts from. -/
theorem Drafts.base_change (h : op.Drafts file size base pages) (hx : (file, i, d) ∈ op.changes) :
    d.overlay.base = Page.pageAt size base i := by
  obtain ⟨-, -, -, happ, hbase⟩ := h.draft i d (mem_changes.mp hx).1
  rw [Page.pageAt]
  split at hbase
  · next ha =>
    rw [List.getElem?_eq_none (happ.mp ha)]
    exact (Option.some.inj hbase).symm
  · rw [hbase]
    rfl

/-- A draft that is no change shows the page that it started from. -/
theorem Drafts.page_of_unchanged (h : op.Drafts file size base pages) (hd : op.draft? file i = some d)
    (hno : (file, i, d) ∉ op.changes) : d.appended = false ∧ base[i.toNat]? = some d.overlay.page := by
  obtain ⟨-, -, -, -, hbase⟩ := h.draft i d hd
  rw [mem_changes, not_and, Bool.not_eq_true] at hno
  obtain ⟨happ, hempty⟩ := Bool.or_eq_false_iff.mp (hno hd)
  have hpatches : d.overlay.patches = [] := by simpa [Overlay.isEmpty] using hempty
  refine ⟨happ, ?_⟩
  rw [happ, if_neg Bool.false_ne_true] at hbase
  rw [hbase, Overlay.page, Overlay.applyTo, hpatches]
  rfl

namespace Staged

theorem start (file : FileId) (base : List Page) : Staged file base [] [] base :=
  ⟨by simp, by simp, by simp, by simp, fun _ _ _ => rfl⟩

/-- Changes of other files do not count. -/
theorem congr (h : Staged file base begun done cur)
    (hb : ∀ j d, (file, j, d) ∈ begun' ↔ (file, j, d) ∈ begun)
    (hd : ∀ j d, (file, j, d) ∈ done' ↔ (file, j, d) ∈ done) : Staged file base begun' done' cur :=
  ⟨by simpa only [hd] using h.reach, by simpa only [hb] using h.within,
    by simpa only [hd] using h.page, by simpa only [hb] using h.mends, by simpa only [hb] using h.kept⟩

theorem forget (h : Staged file base begun done cur)
    (hd : ∀ j d, (file, j, d) ∈ done' → (file, j, d) ∈ done) : Staged file base begun done' cur where
  reach j hj := h.reach j (hj.imp_right fun ⟨d, hm⟩ => ⟨d, hd j d hm⟩)
  within := h.within
  page j d hm := h.page j d (hd j d hm)
  mends := h.mends
  kept := h.kept

/-- The committed pages can be mended by the changes that are still to come. -/
theorem widen (hd : op.Drafts file size base pages) (hs : 8 ≤ size)
    (hb : ∀ j d, (file, j, d) ∈ begun → (file, j, d) ∈ op.changes)
    (h : Staged file base begun done cur) : Staged file base op.changes done cur where
  reach := h.reach
  within j hj := (h.within j hj).imp_right fun ⟨d, hm⟩ => ⟨d, hb j d hm⟩
  page := h.page
  mends j d p hx hp := by
    by_cases hm : (file, j, d) ∈ begun
    · exact h.mends j d p hm hp
    · have hno : ∀ e, (file, j, e) ∉ begun := fun e he =>
        hm (changes_unique (hb j e he) hx ▸ he)
      have hlt := (h.within j (List.getElem?_eq_some_iff.mp hp).1).resolve_right fun ⟨e, he⟩ =>
        hno e he
      obtain ⟨-, -, ht, hsize⟩ := hd.change hx
      have hbase : d.overlay.base = p := by
        rw [hd.base_change hx, Page.pageAt, ← h.kept j hno hlt, hp]
        rfl
      exact hbase ▸ Overlay.mends_base ht (by rwa [hsize])
  kept j hno hlt := h.kept j (fun d hm => hno d (hb j d hm)) hlt

/-- The changes of a file come in order, without gaps in the new pages. -/
theorem le_length (h : op.Drafts file size base pages) (hs : Staged file base begun done cur)
    (hall : op.changes = done ++ (file, i, d) :: rest) (hcur : cur.length < UInt64.size) :
    i.toNat ≤ cur.length := by
  refine Nat.le_of_not_lt fun hlt => ?_
  have hj : (UInt64.ofNat cur.length).toNat = cur.length := UInt64.toNat_ofNat_of_lt' hcur
  generalize UInt64.ofNat cur.length = j at hj
  obtain ⟨hb, hdone⟩ := not_or.mp (mt (hs.reach j) (by omega))
  have hid := (mem_changes.mp (hall ▸ List.mem_append_right _ List.mem_cons_self)).1
  have hi := (h.draft i d hid).1
  obtain ⟨e, he⟩ := h.change_of_le (j := j) (by omega) (by omega)
  rw [hall] at he
  rcases List.mem_append.mp he with he | he
  · exact hdone ⟨e, he⟩
  · have hne : j ≠ i := fun heq => by
      rw [heq] at hj
      omega
    rcases List.mem_cons.mp he with heq | he
    · exact hne (by simpa using congrArg (·.2.1) heq)
    · have hpw := op.pairwise_changes
      rw [hall] at hpw
      have := (List.pairwise_cons.mp (List.pairwise_append.mp hpw).2.1).1 _ he
      rcases this with hf | ⟨-, hij⟩
      · exact absurd hf (UInt32.lt_irrefl file)
      · rw [UInt64.lt_iff_toNat_lt] at hij
        dsimp only at hij
        omega

/-- A change is put in place, perhaps in part. -/
theorem placed (h : Staged file base begun done cur) (hi : i.toNat ≤ cur.length)
    (hb : ∀ j d, (file, j, d) ∈ begun → (file, j, d) ∈ op.changes)
    (hx : (file, i, d) ∈ op.changes) (hno : ∀ e, (file, i, e) ∉ done) {q : Page}
    (hq : d.overlay.Mends q) :
    Staged file base (begun ++ [(file, i, d)]) done (Page.placed cur i q) := by
  have hlen := Page.length_placed (p := q) hi
  have hmem (j : PageIndex) (e : Draft) : (file, j, e) ∈ begun ++ [(file, i, d)] ↔
      (file, j, e) ∈ begun ∨ j = i ∧ e = d := by simp
  refine ⟨fun j hj => ?_, fun j hj => ?_, fun j e he => ?_, fun j e p he hp => ?_,
    fun j hnew hj => ?_⟩
  · have := h.reach j hj
    omega
  · by_cases hold : j.toNat < cur.length
    · exact (h.within j hold).imp_right fun ⟨e, he⟩ => ⟨e, (hmem j e).mpr (.inl he)⟩
    · exact .inr ⟨d, (hmem j d).mpr (.inr ⟨UInt64.toNat_inj.mp (by omega), rfl⟩)⟩
  · have hne : j ≠ i := fun heq => hno e (heq ▸ he)
    rw [Page.getElem?_placed hi, if_neg fun heq => hne (UInt64.toNat_inj.mp heq)]
    exact h.page j e he
  · rw [Page.getElem?_placed hi] at hp
    split at hp
    · next heq =>
      obtain rfl := UInt64.toNat_inj.mp heq
      obtain rfl := Option.some.inj hp
      rcases (hmem j e).mp he with he | ⟨-, rfl⟩
      · exact changes_unique hx (hb j e he) ▸ hq
      · exact hq
    · next hne =>
      rcases (hmem j e).mp he with he | ⟨rfl, -⟩
      · exact h.mends j e p he hp
      · exact absurd rfl hne
  · rw [Page.getElem?_placed hi, if_neg fun heq => hnew d
      ((hmem j d).mpr (.inr ⟨UInt64.toNat_inj.mp heq, rfl⟩))]
    exact h.kept j (fun e he => hnew e ((hmem j e).mpr (.inl he))) hj

/-- The page is what the change makes it. -/
theorem finish (h : Staged file base begun done cur)
    (hp : cur[i.toNat]? = some d.overlay.page.withSeal) :
    Staged file base begun (done ++ [(file, i, d)]) cur where
  reach j hj := by
    rcases hj with hj | ⟨e, he⟩
    · exact h.reach j (.inl hj)
    · rcases List.mem_append.mp he with he | he
      · exact h.reach j (.inr ⟨e, he⟩)
      · obtain ⟨-, rfl, -⟩ : file = file ∧ j = i ∧ e = d := by simpa using he
        exact (List.getElem?_eq_some_iff.mp hp).1
  within := h.within
  page j e he := by
    rcases List.mem_append.mp he with he | he
    · exact h.page j e he
    · obtain ⟨-, rfl, rfl⟩ : file = file ∧ j = i ∧ e = d := by simpa using he
      exact hp
  mends := h.mends
  kept := h.kept

/-- A change is put in place in whole. -/
theorem install (h : op.Drafts file size base pages) (hroom : 8 ≤ size)
    (hs : Staged file base begun done cur)
    (hb : ∀ j d, (file, j, d) ∈ begun → (file, j, d) ∈ op.changes)
    (hall : op.changes = done ++ (file, i, d) :: rest) (hi : i.toNat ≤ cur.length) :
    Staged file base (begun ++ [(file, i, d)]) (done ++ [(file, i, d)])
      (Page.placed cur i d.overlay.page.withSeal) := by
  have hx : (file, i, d) ∈ op.changes := hall ▸ List.mem_append_right _ List.mem_cons_self
  obtain ⟨-, -, ht, hsize⟩ := h.change hx
  have hq := Overlay.mends_withSeal ht (by rwa [hsize])
  refine (hs.placed hi hb hx (not_mem_done hall) hq).finish ?_
  rw [Page.getElem?_placed hi, if_pos rfl]

theorem length_eq (h : op.Drafts file size base pages) (hs : Staged file base op.changes op.changes cur)
    (hcur : cur.length < UInt64.size) : cur.length = pages.length := by
  refine Nat.le_antisymm (Nat.le_of_not_lt fun hlt => ?_) (Nat.le_of_not_lt fun hlt => ?_)
  · have hj : (UInt64.ofNat pages.length).toNat = pages.length :=
      UInt64.toNat_ofNat_of_lt' h.bound
    generalize UInt64.ofNat pages.length = j at hj
    have := h.grown
    rcases hs.within j (by omega) with hb | ⟨e, he⟩
    · omega
    · have := (h.change he).1
      omega
  · have hj : (UInt64.ofNat cur.length).toNat = cur.length := UInt64.toNat_ofNat_of_lt' hcur
    generalize UInt64.ofNat cur.length = j at hj
    obtain ⟨hb, hno⟩ := not_or.mp (mt (hs.reach j) (by omega))
    exact hno (h.change_of_le (by omega) (by omega))

/-- With all changes in place the pages are those of the operation, but for their seals. -/
theorem all (h : op.Drafts file size base pages) (hroom : 8 ≤ size)
    (hs : Staged file base op.changes op.changes cur) (hcur : cur.length < UInt64.size) :
    List.Forall₂ Page.Alike pages cur := by
  refine List.forall₂_iff_get.mpr ⟨(hs.length_eq h hcur).symm, fun k hp hc => ?_⟩
  have hk : (UInt64.ofNat k).toNat = k := UInt64.toNat_ofNat_of_lt' (Nat.lt_trans hc hcur)
  generalize UInt64.ofNat k = j at hk
  subst hk
  have hpage := List.getElem?_eq_getElem hp
  have hcurj := List.getElem?_eq_getElem hc
  rw [List.get_eq_getElem, List.get_eq_getElem]
  by_cases hx : ∃ e, (file, j, e) ∈ op.changes
  · obtain ⟨e, he⟩ := hx
    obtain ⟨-, hpe, ht, hsize⟩ := h.change he
    rw [Option.some.inj (hpage.symm.trans hpe), Option.some.inj (hcurj.symm.trans (hs.page j e he))]
    exact Page.alike_withSeal (by rw [Overlay.size_page ht, hsize]; omega)
  · -- without a change the page is the committed one
    have hno : ∀ e, (file, j, e) ∉ op.changes := fun e he => hx ⟨e, he⟩
    have hlt := (hs.within j hc).resolve_right hx
    have hsame : pages[j.toNat]? = base[j.toNat]? := by
      cases he : op.draft? file j with
      | none => exact (h.plain j he hp).2.symm
      | some e =>
        obtain ⟨-, -, hpe, -⟩ := h.draft j e he
        exact hpe.trans (h.page_of_unchanged he (hno e)).2.symm
    rw [hpage, ← hs.kept j hno hlt, hcurj] at hsame
    rw [Option.some.inj hsame]
    exact .refl _

theorem unique (h : op.Drafts file size base pages) (hs : Staged file base op.changes op.changes cur)
    (hs' : Staged file base op.changes op.changes cur') (hcur : cur.length < UInt64.size)
    (hcur' : cur'.length < UInt64.size) : cur = cur' := by
  have hlen := (hs.length_eq h hcur).trans (hs'.length_eq h hcur').symm
  refine List.ext_getElem? fun k => ?_
  by_cases hk : k < cur.length
  · have hn : (UInt64.ofNat k).toNat = k := UInt64.toNat_ofNat_of_lt' (Nat.lt_trans hk hcur)
    generalize UInt64.ofNat k = j at hn
    subst hn
    by_cases hx : ∃ e, (file, j, e) ∈ op.changes
    · obtain ⟨e, he⟩ := hx
      rw [hs.page j e he, hs'.page j e he]
    · have hno : ∀ e, (file, j, e) ∉ op.changes := fun e he => hx ⟨e, he⟩
      have hlt := (hs.within j hk).resolve_right hx
      rw [hs.kept j hno hlt, hs'.kept j hno hlt]
  · rw [List.getElem?_eq_none (by omega), List.getElem?_eq_none (by omega)]

end Staged

end RefStore.Operation
