import Mathlib.Data.Set.Basic
import Mathlib.Order.Interval.Set.Defs
import RefStore.Proofs.NodePages
import RefStore.Proofs.OverlayReads
import RefStore.Proofs.Tasks
import RefStore.Settings

/-!
# Views of pages

A page is used through a view: the page itself, or changes over it that are not applied yet. A call on
a view reads the page that the view shows and then makes its writes, one after another. Main
statements: `PageView.edit_gives` and `PageView.edit_ends`, what a call leaves when its writes stay
inside the page.
-/

namespace RefStore

namespace Page

variable {p q r : Page} {places more : Set Nat}

/-- Pages of one size with the same bytes outside some places. -/
def AgreeOutside (places : Set Nat) (p q : Page) : Prop :=
  p.size = q.size ∧ ∀ i ∉ places, p.toList[i]? = q.toList[i]?

theorem AgreeOutside.trans_union (h : AgreeOutside places p q) (h' : AgreeOutside more q r) :
    AgreeOutside (places ∪ more) p r := by
  constructor
  · exact h.1.trans h'.1
  · intro i hi
    rw [Set.mem_union, not_or] at hi
    exact (h.2 i hi.1).trans (h'.2 i hi.2)

theorem agreeOutside_written {w : Write} (h : Inside p.size w) :
    AgreeOutside (Set.Ico w.offset (w.offset + w.bytes.length)) p (p.written w) := by
  constructor
  · exact (size_written h).symm
  · intro i hi
    rw [getElem?_written h]
    exact (if_neg hi).symm

end Page

namespace Checked

variable {ε ε' α β : Type} {x : Checked ε α} {f : α → Checked ε β}

theorem bind_eq_ok_iff {b : β} : x >>= f = .ok b ↔ ∃ a, x = .ok a ∧ f a = .ok b := by
  cases x with
  | error cause => simp [bind, Except.bind]
  | ok a => simp [bind, Except.bind]

theorem mapError_eq_ok_iff {g : ε → ε'} {a : α} : x.mapError g = .ok a ↔ x = .ok a := by
  cases x with
  | error failure => simp [mapError_error]
  | ok a => simp [mapError_ok]

/-- Whatever the outcome, it is not a use outside the contract. -/
def Faultless (x : Checked ε α) : Prop := ∀ kind, x ≠ .error (.fault kind)

namespace Faultless

theorem ok (a : α) : Faultless (.ok a : Checked ε α) := nofun

theorem refuse (cause : ε) : Faultless (RefStore.refuse cause : Checked ε α) := by
  intro kind h
  cases h

theorem bind (h : x.Faultless) (hf : ∀ a, x = .ok a → (f a).Faultless) : (x >>= f).Faultless := by
  cases x with
  | error cause =>
    intro kind hk
    cases hk
    exact h kind rfl
  | ok a => exact hf a rfl

theorem ite {c : Prop} [Decidable c] {y : Checked ε α} (hx : c → x.Faultless) (hy : ¬ c → y.Faultless) :
    (if c then x else y).Faultless := by
  split
  · next hc => exact hx hc
  · next hc => exact hy hc

/-- A call goes on only if some condition does not hold. -/
theorem guarded {c : Prop} [Decidable c] {cause : ε} {y : Checked ε β} (hy : ¬ c → y.Faultless) :
    (if c then (RefStore.refuse cause : Checked ε α) >>= f else y).Faultless :=
  ite (fun _ => refuse cause) hy

theorem mapError (g : ε → ε') (h : x.Faultless) : (x.mapError g).Faultless := by
  cases x with
  | error failure =>
    cases failure with
    | error cause =>
      intro kind hk
      cases hk
    | fault kind => exact absurd rfl (h kind)
  | ok a => exact ok a

theorem cases (h : x.Faultless) : (∃ a, x = .ok a) ∨ ∃ cause, x = .error (.error cause) := by
  cases x with
  | error failure =>
    cases failure with
    | error cause => exact .inr ⟨cause, rfl⟩
    | fault kind => exact absurd rfl (h kind)
  | ok a => exact .inl ⟨a, rfl⟩

end Faultless

end Checked

/-! ## Reading a page -/

section

variable {ε α : Type} [Word α] {page : Page} {offset length : Nat}

theorem Page.slice_faultless (h : offset + length ≤ page.size) :
    (page.slice offset length : Checked ε ByteArray).Faultless := by
  rw [slice_eq h]
  exact .ok _

theorem Page.word_faultless (h : offset + Word.width α ≤ page.size) :
    (page.word α offset : Checked ε α).Faultless := by
  rw [word_eq h]
  exact .ok _

theorem Page.word_bind_faultless {β : Type} {f : α → Checked ε β} (h : offset + Word.width α ≤ page.size)
    (hf : ∀ a, (f a).Faultless) : (page.word α offset >>= f).Faultless :=
  (word_faultless h).bind fun a _ => hf a

theorem PageKind.code_of_ofCode? {b : UInt8} {kind : PageKind} (h : ofCode? b = some kind) :
    kind.code = b := by
  rw [ofCode?] at h
  repeat' split at h
  all_goals cases h
  all_goals simp only [code, *]

theorem PageHeader.read_faultless (h : 8 ≤ page.size) : (read page).Faultless := by
  apply Checked.Faultless.bind (Page.slice_faultless (by simpa [size] using h))
  intro block _
  rcases ofBytes (Block.toList block) with cause | header
  · exact .refuse cause
  · exact .ok header

theorem PageHeader.expect_faultless (h : 8 ≤ page.size) (kind : PageKind) : (expect page kind).Faultless := by
  apply (read_faultless h).bind
  intro header _
  apply Checked.Faultless.ite
  · exact fun _ => .ok ()
  · exact fun _ => .refuse _

/-- A page that passes for one of some kind starts with that kind. -/
theorem PageHeader.marks_of_expect {kind : PageKind} (h : expect page kind = .ok ()) : Marks kind page := by
  obtain ⟨header, hread, hkind⟩ := Checked.bind_eq_ok_iff.mp h
  obtain ⟨block, hblock, hof⟩ := Checked.bind_eq_ok_iff.mp hread
  obtain ⟨hin, hbytes⟩ := Page.toList_of_slice hblock
  have hlen : (page.bytesAt 0 8).length = 8 := Page.length_bytesAt hin
  have hfirst := Page.bytesAt_bytesAt page 0 (show 0 + 1 ≤ 8 by omega)
  rw [hbytes, size] at hof
  cases hb : page.bytesAt 0 8 with
  | nil =>
    rw [hb] at hlen
    cases hlen
  | cons b bs =>
    rw [hb] at hof hfirst
    have hcode : PageKind.ofCode? b = some kind := by
      rw [ofBytes, List.headD_cons] at hof
      split at hof
      · cases hof
      · next actual hactual =>
        cases hof
        dsimp only at hkind
        split at hkind
        · next heq => rw [hactual, heq]
        · cases hkind
    rw [Marks, PageKind.code_of_ofCode? hcode]
    exact hfirst

end

/-- A page, or changes over one, in order. -/
inductive PageView where
  | plain (page : Page)
  | changed (overlay : Overlay) (tidy : overlay.Tidy)

namespace PageView

variable {ε α : Type} {v : PageView} {w : Write} {ws : List Write}

/-- The page that a view shows. -/
def page : PageView → Page
  | plain p => p
  | changed o _ => o.page

def slice (v : PageView) (offset length : Nat) : Checked ε ByteArray :=
  match v with
  | plain p => p.slice offset length
  | changed o _ => o.slice offset length

/-- A view is read as the page it shows. -/
theorem slice_eq (v : PageView) (offset length : Nat) :
    (v.slice offset length : Checked ε ByteArray) = v.page.slice offset length := by
  cases v with
  | plain p => rfl
  | changed o tidy => exact Overlay.slice_eq tidy offset length

theorem size_bounds {s : Settings} (valid : s.validate = .ok ()) (pages : v.page.size = s.pageSize) :
    1024 ≤ v.page.size ∧ v.page.size ≤ 65536 := by
  obtain ⟨hmin, hmax, -⟩ := Settings.validate_eq_ok_iff.mp valid
  rw [pages]
  exact ⟨hmin, hmax⟩

def write (v : PageView) (w : Write) : Checked ε PageView :=
  match v with
  | plain p => plain <$> p.write w
  | changed o tidy =>
    match h : (o.write w : Checked ε Overlay) with
    | .ok o' => .ok (changed o' (by
        obtain ⟨hin, rfl⟩ := Overlay.write_eq_ok_iff.mp h
        exact Overlay.tidy_written tidy hin))
    | .error failure => .error failure

theorem write_eq (h : Page.Inside v.page.size w) :
    ∃ v', (v.write w : Checked ε PageView) = .ok v' ∧ v'.page = v.page.written w := by
  cases v with
  | plain p =>
    have hin : Page.Inside p.size w := h
    refine ⟨plain (p.written w), ?_, rfl⟩
    rw [write, Page.write_eq hin]
    rfl
  | changed o tidy =>
    have hin : Page.Inside o.size w := by
      rw [← Overlay.size_page tidy]
      exact h
    have hw : (o.write w : Checked ε Overlay) = .ok (o.written w) := Overlay.write_eq_ok_iff.mpr ⟨hin, rfl⟩
    refine ⟨changed (o.written w) (Overlay.tidy_written tidy hin), ?_, Overlay.page_written tidy hin⟩
    simp only [write]
    split
    · next o' ho =>
      obtain rfl : o.written w = o' := by
        rw [hw] at ho
        exact Except.ok.inj ho
      rfl
    · next ho =>
      rw [hw] at ho
      cases ho

/-- Make one write. -/
def put (w : Write) : Task PageView ε Unit := do
  let v ← Task.ofChecked ((← Task.state).write w)
  Task.change fun _ => v

/-- A call: work out an answer and some writes from the page, and make the writes. -/
def edit (f : Page → Checked ε (α × List Write)) : Task PageView ε α := do
  let (a, ws) ← Task.ofChecked (f (← Task.state).page)
  ws.forM put
  return a

theorem put_gives (h : Page.Inside v.page.size w) :
    ∃ v', (put w : Task PageView ε Unit).Gives v () v' ∧ v'.page = v.page.written w := by
  obtain ⟨v', hw, hp⟩ := write_eq (ε := ε) h
  refine ⟨v', ?_, hp⟩
  apply (Task.Gives.state v).bind
  apply (Task.Gives.ofChecked hw v).bind
  exact .change _ v

theorem forM_put_gives (h : ∀ w ∈ ws, Page.Inside v.page.size w) :
    ∃ v', (ws.forM put : Task PageView ε Unit).Gives v () v' ∧ v'.page = v.page.writtenAll ws := by
  induction ws generalizing v with
  | nil => exact ⟨v, .pure () v, rfl⟩
  | cons w ws ih =>
    have hw := h w (by simp)
    obtain ⟨v₁, h₁, hp₁⟩ := put_gives (ε := ε) hw
    have hrest : ∀ x ∈ ws, Page.Inside v₁.page.size x := by
      intro x hx
      rw [hp₁, Page.size_written hw]
      exact h x (by simp [hx])
    obtain ⟨v₂, h₂, hp₂⟩ := ih hrest
    refine ⟨v₂, h₁.bind h₂, ?_⟩
    rw [hp₂, hp₁]
    rfl

section

variable {f : Page → Checked ε (α × List Write)} {a : α}

theorem edit_gives (hf : f v.page = .ok (a, ws)) (h : ∀ w ∈ ws, Page.Inside v.page.size w) :
    ∃ v', (edit f).Gives v a v' ∧ v'.page = v.page.writtenAll ws := by
  obtain ⟨v', hg, hp⟩ := forM_put_gives (ε := ε) h
  refine ⟨v', ?_, hp⟩
  apply (Task.Gives.state v).bind
  apply (Task.Gives.ofChecked hf v).bind
  exact hg.bind (.pure a v')

theorem edit_fails {failure : Failure ε} (hf : f v.page = .error failure) :
    (edit f).start v = (.error failure, v) := by
  apply ((Task.Gives.state v).start_bind _).trans
  apply Task.start_bind_error
  rw [Task.start_ofChecked, hf]

/-- A call that fails reports an error, and the view is as it was. -/
def Unchanged (v : PageView) (failure : Failure ε) (v' : PageView) : Prop :=
  v' = v ∧ ∃ cause, failure = .error cause

theorem edit_ends (good : α → Page → Prop) (hf : (f v.page).Faultless)
    (hok : ∀ a ws, f v.page = .ok (a, ws) →
      (∀ w ∈ ws, Page.Inside v.page.size w) ∧ good a (v.page.writtenAll ws)) :
    (edit f).Ends v (fun a v' => good a v'.page) v.Unchanged := by
  rcases hf.cases with ⟨⟨a, ws⟩, hr⟩ | ⟨cause, hr⟩
  · obtain ⟨hin, hgood⟩ := hok a ws hr
    obtain ⟨v', hg, hp⟩ := edit_gives hr hin
    apply hg.ends
    rw [hp]
    exact hgood
  · exact .error (edit_fails hr) ⟨rfl, cause, rfl⟩

end

end PageView

end RefStore
