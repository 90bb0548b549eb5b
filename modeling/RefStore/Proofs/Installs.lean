import RefStore.Proofs.Edits
import RefStore.Proofs.Maps
import RefStore.Proofs.VolumeChanges

/-!
# Carrying out an operation

Deletions, new files and changed pages are carried out one by one. In the end the volume serves the
files that the operation sees, with the pages that it made of them. Main statement:
`Engine.install_gives_filled`.
-/

namespace RefStore

/-- The name of a file, and whether a page of it is in memory. -/
def Mounted.glance (m : Mounted) (id : FileId) (i : PageIndex) : Option (String × Bool) :=
  m.volume.files[id]?.map fun f => (f.name, (f.resident[i]?).isSome)

namespace Mounted

variable {m m' : Mounted} {size : Nat} {s : Stock} {id : FileId} {i : PageIndex}

theorem warm_iff_glance : m.Warm id i ↔ ∃ name, m.glance id i = some (name, true) := by
  constructor
  · rintro ⟨f, hf, hr⟩
    exact ⟨f.name, by rw [glance, hf, Option.map_some, hr]⟩
  · rintro ⟨name, hg⟩
    obtain ⟨f, hf, heq⟩ := Option.map_eq_some_iff.mp hg
    exact ⟨f, hf, congrArg Prod.snd heq⟩

namespace Serves

/-- All files of a list are deleted. -/
theorem deletes (h : m.Serves size s) {ids : List FileId} (hg : (ids.forM Mounted.delete).Gives m () m') :
    ∃ s', m'.Serves size s' ∧ s'.logNode = s.logNode ∧ s'.pages = s.pages ∧
      (∀ f x, s'.names f = some x ↔ s.names f = some x ∧ f ∉ ids) ∧
      ∀ f ∉ ids, m'.volume.files[f]? = m.volume.files[f]? := by
  induction ids generalizing m s with
  | nil =>
    obtain ⟨-, rfl⟩ := Task.gives_pure hg
    exact ⟨s, h, rfl, rfl, by simp, fun _ _ => rfl⟩
  | cons id ids ih =>
    obtain ⟨_, m₁, h₁, hg⟩ := Task.bind_gives hg
    obtain ⟨hs₁, hfiles₁⟩ := h.delete h₁
    obtain ⟨s', hs', hlog, hpages, hnames, hfiles⟩ := ih hs₁ hg
    refine ⟨s', hs', hlog, hpages, fun f x => ?_, fun f hf => ?_⟩
    · rw [hnames, Stock.without, List.mem_cons, not_or]
      dsimp only
      split
      · next he => simp [he]
      · next hne => simp [hne]
    · obtain ⟨hne, hf⟩ := not_or.mp (mt List.mem_cons.mpr hf)
      rw [hfiles f hf, hfiles₁, lookup_erase_of_ne hne]

/-- All files of a list are made, under ids that are free. -/
theorem creates (h : m.Serves size s) {es : List (FileId × String)} (hids : (es.map Prod.fst).Nodup)
    (hfresh : ∀ e ∈ es, s.names e.1 = none) (hvalid : ∀ e ∈ es, e.1 ≠ FileId.none)
    (hg : (es.forM fun (file, name) => Mounted.createWithId file name).Gives m () m') :
    ∃ s', m'.Serves size s' ∧ s'.logNode = s.logNode ∧
      (∀ f, s'.pages f = if f ∈ es.map Prod.fst then [] else s.pages f) ∧
      (∀ f x, s'.names f = some x ↔ (f, x) ∈ es ∨ s.names f = some x) ∧
      ∀ f ∉ es.map Prod.fst, m'.volume.files[f]? = m.volume.files[f]? := by
  induction es generalizing m s with
  | nil =>
    obtain ⟨-, rfl⟩ := Task.gives_pure hg
    exact ⟨s, h, rfl, by simp, by simp, fun _ _ => rfl⟩
  | cons e es ih =>
    obtain ⟨id, name⟩ := e
    obtain ⟨_, m₁, h₁, hg⟩ := Task.bind_gives hg
    have hid := hfresh _ List.mem_cons_self
    obtain ⟨hs₁, -, g, -, -, hfiles₁⟩ := h.createWithId hid (hvalid _ List.mem_cons_self) h₁
    obtain ⟨hnew, hids⟩ := List.nodup_cons.mp hids
    have hapart {e : FileId × String} (he : e ∈ es) : e.1 ≠ id := fun heq =>
      hnew (heq ▸ List.mem_map.mpr ⟨e, he, rfl⟩)
    have hfresh₁ : ∀ e ∈ es, (s.withFile id name).names e.1 = none := fun e he =>
      (if_neg (hapart he)).trans (hfresh e (List.mem_cons_of_mem _ he))
    obtain ⟨s', hs', hlog, hpages, hnames, hfiles⟩ :=
      ih hs₁ hids hfresh₁ (fun e he => hvalid e (List.mem_cons_of_mem _ he)) hg
    refine ⟨s', hs', hlog, fun f => ?_, fun f x => ?_, fun f hf => ?_⟩
    · rw [hpages]
      simp only [Stock.withFile, Stock.withPages, List.map_cons, List.mem_cons]
      by_cases he : f = id
      · simp only [he, true_or, if_true, ite_self]
      · simp only [he, false_or, if_false]
    · rw [hnames, Stock.withFile]
      dsimp only
      rw [List.mem_cons, Prod.mk.injEq]
      by_cases he : f = id
      · subst he
        simp [hid, eq_comm, or_comm]
      · simp [he]
    · obtain ⟨hne, hf⟩ := not_or.mp (mt List.mem_cons.mpr hf)
      rw [hfiles f hf, hfiles₁, lookup_insert_of_ne hne]

theorem sync_all (h : m.Serves size s) {ids : List FileId} (hg : (ids.forM Mounted.sync).Gives m () m') :
    m'.Serves size s ∧ m'.volume = m.volume := by
  induction ids generalizing m with
  | nil =>
    obtain ⟨-, rfl⟩ := Task.gives_pure hg
    exact ⟨h, rfl⟩
  | cons id ids ih =>
    obtain ⟨_, m₁, h₁, hg⟩ := Task.bind_gives hg
    obtain ⟨hs₁, hv₁⟩ := h.sync h₁
    obtain ⟨hs', hv⟩ := ih hs₁ hg
    exact ⟨hs', hv.trans hv₁⟩

/-- A page is put in the place of a file that has it in memory from then on. All other pages are as
they were. -/
theorem install_glance (h : m.Serves size s) {page : Page} {u : Unit}
    (hi : i.toNat ≤ (s.pages id).length) (hb : i.toNat + 1 < UInt64.size) (hp : page.size = size)
    (hg : (Mounted.installPage id i page).Gives m u m') :
    m'.Serves size (s.withPages id (Page.placed (s.pages id) i page.withSeal)) ∧ m'.Warm id i ∧
      ∀ f j, ¬ (f = id ∧ j = i) → m'.glance f j = m.glance f j := by
  obtain ⟨hs, f, g, hf, hname, hres, hfiles⟩ := h.installPage hi hb hp hg
  refine ⟨hs, ⟨g, ?_, ?_⟩, fun f' j hne => ?_⟩
  · rw [hfiles, Std.TreeMap.getElem?_insert_self]
  · rw [hres, Std.TreeMap.getElem?_insert_self]
    rfl
  · rw [glance, glance, hfiles, lookup_insert]
    by_cases he : f' = id
    · subst he
      rw [if_pos rfl, hf, Option.map_some, Option.map_some, hname, hres,
        lookup_insert_of_ne fun hj => hne ⟨rfl, hj⟩]
    · rw [if_neg he]

end Serves

/-- A volume with the files that an operation sees, and some of its pages in place. -/
structure Filled (size : Nat) (s s' : Stock) (op : Operation)
    (done : List (FileId × PageIndex × Draft)) (m m' : Mounted) : Prop where
  serves : m'.Serves size s'
  logNode : s'.logNode = s.logNode
  names : ∀ f x, s'.names f = some x ↔ op.Sees s f x
  pages : ∀ f x, op.Sees s f x → Operation.Staged f (s.held f) done done (s'.pages f)
  warm : ∀ f i d, (f, i, d) ∈ done → m'.Warm f i
  glance : ∀ f i x, s.names f = some x → f ∉ op.deleted → (∀ d, (f, i, d) ∉ done) →
    m'.glance f i = m.glance f i

namespace Filled

variable {s' : Stock} {op : Operation} {done rest : List (FileId × PageIndex × Draft)} {d : Draft}

/-- One more page is put in place. -/
theorem install {m₁ m₂ : Mounted} (hop : op.Over size s) (hroom : 8 ≤ size)
    (h : Filled size s s' op done m m₁) (hall : op.changes = done ++ (id, i, d) :: rest) {u : Unit}
    (hg : (installPage id i d.overlay.page).Gives m₁ u m₂) :
    ∃ s₂, Filled size s s₂ op (done ++ [(id, i, d)]) m m₂ := by
  have hx : (id, i, d) ∈ op.changes := hall ▸ List.mem_append_right _ List.mem_cons_self
  have hbegun : ∀ j e, (id, j, e) ∈ done → (id, j, e) ∈ op.changes := fun j e he =>
    hall ▸ List.mem_append_left _ he
  obtain ⟨name, hsees⟩ := hop.sees_of_draft (Operation.mem_changes.mp hx).1
  obtain ⟨pages, hp⟩ := hop.drafts hsees
  obtain ⟨hlt, -, ht, hsize⟩ := hp.change hx
  have hnamed := (h.names id name).mpr hsees
  have hlen : (s'.pages id).length < UInt64.size := by
    obtain ⟨_, _, _, hf⟩ := h.serves.file hnamed
    exact hf.length_lt
  have hstaged := h.pages id name hsees
  have hi := hstaged.le_length hp hall hlen
  have hbound := hp.bound
  have hpage : d.overlay.page.size = size := (Overlay.size_page ht).trans hsize
  obtain ⟨hs, hw, hg⟩ := h.serves.install_glance hi (by omega) hpage hg
  have hnew (f : FileId) (j : PageIndex) (e : Draft) : (f, j, e) ∈ done ++ [(id, i, d)] ↔
      (f, j, e) ∈ done ∨ f = id ∧ j = i ∧ e = d := by simp
  refine ⟨_, hs, h.logNode, h.names, fun f x hf => ?_, fun f j e he => ?_, fun f j x hf hd hno => ?_⟩
  · simp only [Stock.withPages]
    split
    · next he =>
      subst he
      exact hstaged.install hp hroom hbegun hall hi
    · next hne =>
      have hmem (j : PageIndex) (e : Draft) : (f, j, e) ∈ done ++ [(id, i, d)] ↔ (f, j, e) ∈ done := by
        simp [hne]
      exact (h.pages f x hf).congr hmem hmem
  · rcases (hnew f j e).mp he with he | ⟨rfl, rfl, -⟩
    · by_cases hsame : f = id ∧ j = i
      · exact hsame.1 ▸ hsame.2 ▸ hw
      · rw [warm_iff_glance, hg f j hsame, ← warm_iff_glance]
        exact h.warm f j e he
    · exact hw
  · have hsame : ¬ (f = id ∧ j = i) := fun he => hno d ((hnew f j d).mpr (.inr ⟨he.1, he.2, rfl⟩))
    rw [hg f j hsame]
    exact h.glance f j x hf hd fun e he => hno e ((hnew f j e).mpr (.inl he))

theorem installs {m₁ m₂ : Mounted} (hop : op.Over size s) (hroom : 8 ≤ size)
    (h : Filled size s s' op done m m₁) (hall : op.changes = done ++ rest)
    (hg : (rest.forM fun (file, index, d) => installPage file index d.overlay.page).Gives m₁ () m₂) :
    ∃ s₂, Filled size s s₂ op op.changes m m₂ := by
  induction rest generalizing done s' m₁ with
  | nil =>
    obtain ⟨-, rfl⟩ := Task.gives_pure hg
    rw [hall, List.append_nil]
    exact ⟨s', h⟩
  | cons c rest ih =>
    obtain ⟨f, j, e⟩ := c
    obtain ⟨_, m', h₁, hg⟩ := Task.bind_gives hg
    obtain ⟨s₁, hs₁⟩ := h.install hop hroom hall h₁
    exact ih hs₁ (by rw [hall, List.append_assoc]; rfl) hg

end Filled

end Mounted

namespace Engine

open Mounted

variable {size : Nat} {s : Stock} {op : Operation} {m m' : Mounted}

/-- Deleting and adding files leaves those that the operation sees, with their committed pages. -/
theorem install_gives_filled (hop : op.Over size s) (h : m.Serves size s) {syncs : Bool}
    (hg : (install op syncs).Gives m () m') : ∃ s', Filled size s s' op op.changes m m' := by
  obtain ⟨_, m₁, h₁, hg⟩ := Task.bind_gives hg
  obtain ⟨_, m₂, h₂, hg⟩ := Task.bind_gives hg
  obtain ⟨_, m₃, h₃, h₄⟩ := Task.bind_gives hg
  obtain ⟨s₁, hs₁, hlog₁, hpages₁, hnames₁, hfiles₁⟩ := h.deletes h₁
  simp only [Std.TreeSet.mem_toList] at hnames₁ hfiles₁
  have hfresh : ∀ e ∈ op.created, s₁.names e.1 = none := by
    intro e he
    rw [Option.eq_none_iff_forall_ne_some]
    intro x hx
    have := ((hnames₁ e.1 x).mp hx).1
    rw [hop.fresh e he] at this
    cases this
  obtain ⟨s₂, hs₂, hlog₂, hpages₂, hnames₂, hfiles₂⟩ := hs₁.creates hop.ids hfresh hop.valid h₂
  have hsees (f : FileId) (x : String) : s₂.names f = some x ↔ op.Sees s f x := by
    rw [hnames₂, hnames₁]
    exact Iff.rfl
  have hnew {f : FileId} {x : String} (hf : s.names f = some x) : f ∉ op.created.map Prod.fst := by
    intro hm
    obtain ⟨e, he, rfl⟩ := List.mem_map.mp hm
    rw [hop.fresh e he] at hf
    cases hf
  have hstart : Filled size s s₂ op [] m m₂ := by
    refine ⟨hs₂, hlog₂.trans hlog₁, hsees, fun f x hf => ?_, by simp, fun f i x hf hd _ => ?_⟩
    · have hpages : s₂.pages f = s.held f := by
        rw [hpages₂, hpages₁, Stock.held]
        rcases hf with hc | ⟨hn, -⟩
        · rw [if_pos (List.mem_map_of_mem (f := Prod.fst) hc), hop.fresh _ hc]
          rfl
        · rw [if_neg (hnew hn), hn]
          rfl
      rw [hpages]
      exact .start f _
    · rw [glance, glance, hfiles₂ f (hnew hf), hfiles₁ f hd]
  obtain ⟨s₃, hs₃⟩ := hstart.installs hop h.room (List.nil_append _).symm h₃
  cases syncs with
  | false =>
    obtain ⟨-, rfl⟩ := Task.gives_pure h₄
    exact ⟨s₃, hs₃⟩
  | true =>
    obtain ⟨hs₄, hv⟩ := hs₃.serves.sync_all h₄
    refine ⟨s₃, hs₄, hs₃.logNode, hs₃.names, hs₃.pages, fun f i d hd => ?_, fun f i x hf hd hno => ?_⟩
    · rw [Warm, hv]
      exact hs₃.warm f i d hd
    · rw [← hs₃.glance f i x hf hd hno, glance, glance, hv]

end Engine

end RefStore
