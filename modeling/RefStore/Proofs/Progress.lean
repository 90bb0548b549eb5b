import RefStore.Proofs.Mirrors
import RefStore.Proofs.Requests
import RefStore.Proofs.Stages

/-!
# Operations on the way

What a volume holds while an operation is carried out on it, or was when the disk failed: each deletion
and each new file may be there or not, and each page may be the new one in part. Carrying out the whole
operation from any such state leaves the same files and pages. Main statement: `Underway.sameFiles`.
-/

namespace RefStore

/-- The same files are registered and have the same pages. -/
structure Stock.SameFiles (s t : Stock) : Prop where
  names : ∀ f, t.names f = s.names f
  pages : ∀ {f x}, s.names f = some x → t.pages f = s.pages f

namespace Operation

/-- The files of a volume on which an operation is under way. The deletions in `gone`, the new files in
`made` and the changes in `done` are there for sure. -/
structure Underway (size : Nat) (s : Stock) (op : Operation) (gone : List FileId)
    (made : List (FileId × String)) (done : List (FileId × PageIndex × Draft)) (t : Stock) : Prop where
  logNode : t.logNode = s.logNode
  kept : ∀ f, f ∉ op.deleted → f ∉ op.created.map Prod.fst → t.names f = s.names f
  deleted : ∀ f ∈ op.deleted, t.names f = Option.none ∨ t.names f = s.names f
  gone : ∀ f ∈ gone, t.names f = Option.none
  created : ∀ e ∈ op.created, t.names e.1 = Option.none ∨ t.names e.1 = some e.2
  made : ∀ e ∈ made, t.names e.1 = some e.2
  pages : ∀ f x, op.Sees s f x → t.names f = some x →
    Staged f (s.held f) op.changes done (t.pages f)

variable {size : Nat} {s t t' : Stock} {op : Operation} {gone gone' : List FileId}
  {made made' : List (FileId × String)} {done done' rest : List (FileId × PageIndex × Draft)}
  {id : FileId} {name : String} {i : PageIndex} {d : Draft} {cur : List Page}

/-- Each change mends the page that it is for, be that page there or not. -/
theorem Staged.mends_pageAt {base pages : List Page} (h : op.Drafts id size base pages) (hs : 8 ≤ size)
    (hst : Staged id base op.changes done cur) (hx : (id, i, d) ∈ op.changes) :
    d.overlay.Mends (Page.pageAt size cur i) := by
  rw [Page.pageAt]
  cases hp : cur[i.toNat]? with
  | some p => exact hst.mends i d p hx hp
  | none =>
    obtain ⟨-, -, ht, hsize⟩ := h.change hx
    have hle : base.length ≤ i.toNat := Nat.le_of_not_lt fun hlt =>
      absurd (hst.reach i (.inl hlt)) (Nat.not_lt.mpr (List.getElem?_eq_none_iff.mp hp))
    have hbase : d.overlay.base = .zero size := by
      rw [h.base_change hx, Page.pageAt, List.getElem?_eq_none hle]
      rfl
    exact hbase ▸ Overlay.mends_base ht (by rwa [hsize])

namespace Over

/-- The id of a new file is not among those of the deleted ones. -/
theorem not_deleted (h : op.Over size s) (he : (id, name) ∈ op.created) : id ∉ op.deleted :=
  fun hd => h.deleted id hd (h.fresh _ he)

theorem held_of_created (h : op.Over size s) (he : (id, name) ∈ op.created) : s.held id = [] := by
  rw [Stock.held, h.fresh _ he]
  rfl

/-- A file that is changed is seen. -/
theorem sees_of_change (h : op.Over size s) (hx : (id, i, d) ∈ op.changes) : ∃ x, op.Sees s id x :=
  h.sees_of_draft (mem_changes.mp hx).1

/-- What changed in a page is in order, and the page has the size of all. -/
theorem tidy_of_change (h : op.Over size s) (hx : (id, i, d) ∈ op.changes) :
    d.overlay.Tidy ∧ d.overlay.size = size := by
  obtain ⟨name, hsees⟩ := h.sees_of_change hx
  obtain ⟨pages, hp⟩ := h.drafts hsees
  obtain ⟨-, -, ht, hsize⟩ := hp.change hx
  exact ⟨ht, hsize⟩

/-- Pages of a file that no change is in place of. -/
theorem staged_held (h : op.Over size s) (hs : 8 ≤ size) (hx : op.Sees s id name) :
    Staged id (s.held id) op.changes [] (s.held id) := by
  obtain ⟨pages, hp⟩ := h.drafts hx
  exact (Staged.start id _).widen hp hs (by simp)

end Over

namespace Underway

theorem start (h : op.Over size s) (hs : 8 ≤ size) : op.Underway size s [] [] [] s where
  logNode := rfl
  kept _ _ _ := rfl
  deleted _ _ := .inr rfl
  gone := by simp
  created e he := .inl (h.fresh e he)
  made := by simp
  pages f x hx hf := by
    have hheld : s.held f = s.pages f := by
      rw [Stock.held, hf]
      rfl
    exact hheld ▸ h.staged_held hs hx

/-- Less is known of an operation. -/
theorem forget (h : op.Underway size s gone made done t) : op.Underway size s [] [] [] t :=
  { h with
    gone := by simp
    made := by simp
    pages := fun f x hx hf => (h.pages f x hx hf).forget (by simp) }

/-- The log does not matter. -/
theorem congr (h : op.Underway size s gone made done t) (hnode : t'.logNode = t.logNode)
    (hnames : t'.names = t.names) (hpages : t'.pages = t.pages) :
    op.Underway size s gone made done t' where
  logNode := hnode.trans h.logNode
  kept := hnames ▸ h.kept
  deleted := hnames ▸ h.deleted
  gone := hnames ▸ h.gone
  created := hnames ▸ h.created
  made := hnames ▸ h.made
  pages := by rw [hnames, hpages]; exact h.pages

/-- A deletion that is done already. -/
theorem absent (h : op.Underway size s gone made done t) (hid : t.names id = Option.none) :
    op.Underway size s (gone ++ [id]) made done t :=
  { h with
    gone := fun f hf => by
      rcases List.mem_append.mp hf with hf | hf
      · exact h.gone f hf
      · rw [List.mem_singleton.mp hf, hid] }

theorem without (hop : op.Over size s) (h : op.Underway size s gone made done t)
    (hm : ∀ e ∈ made, e ∈ op.created) (hid : id ∈ op.deleted) :
    op.Underway size s (gone ++ [id]) made done (t.without id) := by
  have hnames (f : FileId) : (t.without id).names f = Option.none ∨
      f ≠ id ∧ (t.without id).names f = t.names f := by
    by_cases he : f = id
    · exact .inl (if_pos he)
    · exact .inr ⟨he, if_neg he⟩
  have hself : (t.without id).names id = Option.none := if_pos rfl
  refine ⟨h.logNode, fun f hf hc => ?_, fun f hf => ?_, fun f hf => ?_, fun e he => ?_, fun e he => ?_,
    fun f x hx hf => ?_⟩
  · have hne : f ≠ id := fun he => hf (he ▸ hid)
    exact (if_neg hne).trans (h.kept f hf hc)
  · rcases hnames f with hn | ⟨-, hn⟩
    · exact .inl hn
    · exact hn ▸ h.deleted f hf
  · rcases hnames f with hn | ⟨hne, hn⟩
    · exact hn
    · exact hn ▸ h.gone f ((List.mem_append.mp hf).resolve_right (by simpa using hne))
  · rcases hnames e.1 with hn | ⟨-, hn⟩
    · exact .inl hn
    · exact hn ▸ h.created e he
  · have hne : e.1 ≠ id := fun heq => hop.not_deleted (hm e he) (heq ▸ hid)
    exact (if_neg hne).trans (h.made e he)
  · rcases hnames f with hn | ⟨-, hn⟩
    · rw [hn] at hf
      cases hf
    · exact h.pages f x hx (hn ▸ hf)

/-- A new file that is there already. -/
theorem present (h : op.Underway size s gone made done t) (hid : t.names id = some name) :
    op.Underway size s gone (made ++ [(id, name)]) done t :=
  { h with
    made := fun e he => by
      rcases List.mem_append.mp he with he | he
      · exact h.made e he
      · rw [List.mem_singleton.mp he, hid] }

/-- Pages are put in place after all files were made. -/
theorem withFile (hop : op.Over size s) (hs : 8 ≤ size) (h : op.Underway size s gone made [] t)
    (hg : ∀ f ∈ gone, f ∈ op.deleted) (he : (id, name) ∈ op.created) (hid : t.names id = Option.none) :
    op.Underway size s gone (made ++ [(id, name)]) [] (t.withFile id name) := by
  have hself : (t.withFile id name).names id = some name := if_pos rfl
  have hother {f : FileId} (hne : f ≠ id) : (t.withFile id name).names f = t.names f := if_neg hne
  have hkept {f : FileId} (hf : f ∈ op.deleted) : (t.withFile id name).names f = t.names f :=
    hother fun heq => hop.not_deleted he (heq ▸ hf)
  refine ⟨h.logNode, fun f hf hc => ?_, fun f hf => hkept hf ▸ h.deleted f hf,
    fun f hf => (hkept (hg f hf)).trans (h.gone f hf), fun e' he' => ?_, fun e' he' => ?_,
    fun f x hx hf => ?_⟩
  · exact (hother fun heq => hc (List.mem_map.mpr ⟨_, he, heq.symm⟩)).trans (h.kept f hf hc)
  · by_cases heq : e'.1 = id
    · have hname : e'.2 = name := hop.created_name (heq ▸ he') he
      exact .inr (by rw [heq, hself, hname])
    · exact hother heq ▸ h.created e' he'
  · rcases List.mem_append.mp he' with he' | he'
    · have hne : e'.1 ≠ id := fun heq => by
        have := h.made e' he'
        rw [heq, hid] at this
        cases this
      exact (hother hne).trans (h.made e' he')
    · rw [List.mem_singleton.mp he', hself]
  · by_cases heq : f = id
    · subst heq
      have hpages : (t.withFile f name).pages f = [] := if_pos rfl
      rw [hpages, ← hop.held_of_created he]
      exact hop.staged_held hs hx
    · have hpages : (t.withFile id name).pages f = t.pages f := if_neg heq
      rw [hpages]
      exact h.pages f x hx (hother heq ▸ hf)

/-- Pages of one file that is seen. -/
theorem withPages (h : op.Underway size s gone made done t)
    (hold : ∀ f j e, f ≠ id → ((f, j, e) ∈ done' ↔ (f, j, e) ∈ done))
    (hcur : ∀ x, op.Sees s id x → t.names id = some x → Staged id (s.held id) op.changes done' cur) :
    op.Underway size s gone made done' (t.withPages id cur) :=
  { logNode := h.logNode
    kept := h.kept
    deleted := h.deleted
    gone := h.gone
    created := h.created
    made := h.made
    pages := fun f x hx hf => by
      by_cases heq : f = id
      · subst heq
        have hpages : (t.withPages f cur).pages f = cur := if_pos rfl
        rw [hpages]
        exact hcur x hx hf
      · have hpages : (t.withPages id cur).pages f = t.pages f := if_neg heq
        rw [hpages]
        exact (h.pages f x hx hf).congr (fun _ _ => Iff.rfl) fun j e => hold f j e heq }

/-- A page that is put in place in part, over the old one. -/
theorem torn (hop : op.Over size s) (hs : 8 ≤ size) (h : op.Underway size s gone made done t)
    (hall : op.changes = done ++ (id, i, d) :: rest) (hlen : (t.pages id).length < UInt64.size) (k : Nat) :
    op.Underway size s gone made done (t.withPages id (Page.placed (t.pages id) i
      (Page.laid k (Page.pageAt size (t.pages id) i) d.overlay.page.withSeal))) := by
  have hx : (id, i, d) ∈ op.changes := hall ▸ List.mem_append_right _ List.mem_cons_self
  refine h.withPages (fun _ _ _ _ => Iff.rfl) fun x hsees hname => ?_
  obtain ⟨pages, hp⟩ := hop.drafts hsees
  obtain ⟨-, -, ht, hsize⟩ := hp.change hx
  have hst := h.pages id x hsees hname
  have hq := Overlay.mends_laid (by rwa [hsize]) (hst.mends_pageAt hp hs hx)
    (Overlay.mends_withSeal ht (by rwa [hsize])) k
  have hplaced := hst.placed (hst.le_length hp hall hlen) (fun _ _ he => he) hx (not_mem_done hall) hq
  exact hplaced.congr (fun j e => by simpa using fun h₁ h₂ => h₁ ▸ h₂ ▸ hx) fun _ _ => Iff.rfl

theorem install (hop : op.Over size s) (hs : 8 ≤ size) (h : op.Underway size s gone made done t)
    (hall : op.changes = done ++ (id, i, d) :: rest) (hlen : (t.pages id).length < UInt64.size) :
    op.Underway size s gone made (done ++ [(id, i, d)])
      (t.withPages id (Page.placed (t.pages id) i d.overlay.page.withSeal)) := by
  have hx : (id, i, d) ∈ op.changes := hall ▸ List.mem_append_right _ List.mem_cons_self
  refine h.withPages (fun f j e hne => by simp [hne]) fun x hsees hname => ?_
  obtain ⟨pages, hp⟩ := hop.drafts hsees
  have hst := h.pages id x hsees hname
  have hplaced := hst.install hp hs (fun _ _ he => he) hall (hst.le_length hp hall hlen)
  exact hplaced.congr (fun j e => by simpa using fun h₁ h₂ => h₁ ▸ h₂ ▸ hx) fun _ _ => Iff.rfl

/-- A name is free once all deletions are done. -/
theorem free (hop : op.Over size s) (h : op.Underway size s gone made done t)
    (hg : ∀ f ∈ op.deleted, f ∈ gone) (he : (id, name) ∈ op.created) (hid : t.names id = Option.none)
    (f : FileId) : t.names f ≠ some name := by
  intro hf
  by_cases hd : f ∈ op.deleted
  · rw [h.gone f (hg f hd)] at hf
    cases hf
  · by_cases hc : f ∈ op.created.map Prod.fst
    · obtain ⟨⟨f', x⟩, he', rfl⟩ := List.mem_map.mp hc
      have hx : x = name := by
        rcases h.created _ he' with hn | hn
        · rw [hn] at hf
          cases hf
        · exact Option.some.inj (hn.symm.trans hf)
      subst hx
      rw [hop.created_id he' he, hid] at hf
      cases hf
    · exact hd (hop.free _ he f ((h.kept f hd hc).symm.trans hf))

/-- A file that is seen has no other name. -/
theorem names_of_sees (hop : op.Over size s) (h : op.Underway size s gone made done t)
    (hs : op.Sees s id name) (hid : t.names id ≠ Option.none) : t.names id = some name := by
  rcases hs with hc | ⟨hn, hd⟩
  · exact (h.created _ hc).resolve_left hid
  · refine (h.kept id hd fun hc => ?_).trans hn
    obtain ⟨e, he, rfl⟩ := List.mem_map.mp hc
    rw [hop.fresh e he] at hn
    cases hn

/-- With all deletions done and all files made, the files are those that the operation sees. -/
theorem names_iff (hop : op.Over size s) (h : op.Underway size s gone made done t)
    (hg : ∀ f ∈ op.deleted, f ∈ gone) (hm : ∀ e ∈ op.created, e ∈ made) :
    t.names id = some name ↔ op.Sees s id name := by
  by_cases hd : id ∈ op.deleted
  · rw [h.gone id (hg id hd)]
    constructor
    · nofun
    · rintro (hc | ⟨-, hno⟩)
      · exact absurd hd (hop.not_deleted hc)
      · exact absurd hd hno
  · by_cases hc : id ∈ op.created.map Prod.fst
    · obtain ⟨⟨f, x⟩, he, rfl⟩ := List.mem_map.mp hc
      rw [h.made _ (hm _ he)]
      constructor
      · rintro ⟨⟩
        exact .inl he
      · rintro (hc | ⟨hn, -⟩)
        · rw [hop.created_name he hc]
        · rw [hop.fresh _ he] at hn
          cases hn
    · rw [h.kept id hd hc]
      exact ⟨fun hn => .inr ⟨hn, hd⟩, fun hs => hs.elim
        (fun he => absurd (List.mem_map_of_mem (f := Prod.fst) he) hc) And.left⟩

/-- The whole operation leaves the same, however often it was begun. -/
theorem sameFiles (hop : op.Over size s) (h : op.Underway size s gone made op.changes t)
    (h' : op.Underway size s gone' made' op.changes t') (hg : ∀ f ∈ op.deleted, f ∈ gone)
    (hg' : ∀ f ∈ op.deleted, f ∈ gone') (hm : ∀ e ∈ op.created, e ∈ made)
    (hm' : ∀ e ∈ op.created, e ∈ made')
    (hlen : ∀ {f x}, t.names f = some x → (t.pages f).length < UInt64.size)
    (hlen' : ∀ {f x}, t'.names f = some x → (t'.pages f).length < UInt64.size) : t.SameFiles t' := by
  have hnames (f : FileId) (x : String) : t'.names f = some x ↔ t.names f = some x :=
    (h'.names_iff hop hg' hm').trans (h.names_iff hop hg hm).symm
  refine ⟨fun f => Option.ext (hnames f), fun {f x} hf => ?_⟩
  have hsees := (h.names_iff hop hg hm).mp hf
  have hf' := (hnames f x).mpr hf
  obtain ⟨pages, hp⟩ := hop.drafts hsees
  exact (h'.pages f x hsees hf').unique hp (h.pages f x hsees hf) (hlen' hf') (hlen hf)

/-- Pages that are put in place have a seal, and all others keep theirs. -/
theorem verified (hop : op.Over size s) (hs : 8 ≤ size) (h : op.Underway size s gone made op.changes t)
    (hg : ∀ f ∈ op.deleted, f ∈ gone) (hm : ∀ e ∈ op.created, e ∈ made)
    (hlen : ∀ {f x}, t.names f = some x → (t.pages f).length < UInt64.size)
    (hv : ∀ {f x}, s.names f = some x → ∀ p ∈ s.pages f, p.verify = .ok ()) {f : FileId} {x : String}
    (hf : t.names f = some x) {p : Page} (hp : p ∈ t.pages f) : p.verify = .ok () := by
  have hsees := (h.names_iff hop hg hm).mp hf
  obtain ⟨pages, hd⟩ := hop.drafts hsees
  have hst := h.pages f x hsees hf
  obtain ⟨k, hk⟩ := List.mem_iff_getElem?.mp hp
  have hlt := (List.getElem?_eq_some_iff.mp hk).1
  have hj : (UInt64.ofNat k).toNat = k := UInt64.toNat_ofNat_of_lt' (Nat.lt_trans hlt (hlen hf))
  generalize UInt64.ofNat k = j at hj
  subst hj
  by_cases hx : ∃ e, (f, j, e) ∈ op.changes
  · obtain ⟨e, he⟩ := hx
    obtain ⟨-, -, ht, hsize⟩ := hd.change he
    rw [hst.page j e he] at hk
    obtain rfl := Option.some.inj hk
    exact Page.verify_seal (by rw [Overlay.size_page ht, hsize]; omega)
  · have hno : ∀ e, (f, j, e) ∉ op.changes := fun e he => hx ⟨e, he⟩
    have hbase := (hst.within j hlt).resolve_right hx
    rw [hst.kept j hno hbase] at hk
    obtain ⟨y, hy⟩ : ∃ y, s.names f = some y := by
      rw [← Option.isSome_iff_exists]
      by_contra hnone
      rw [Stock.held, if_neg hnone] at hbase
      exact Nat.not_lt_zero _ hbase
    rw [Stock.held, hy] at hk
    exact hv hy p (List.mem_of_getElem? hk)

end Underway

end Operation

end RefStore
