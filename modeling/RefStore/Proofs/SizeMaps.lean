import RefStore.Proofs.SlotPages
import RefStore.Proofs.Transactions
import RefStore.Sizes.SizeMap

/-!
# Size maps as lists of numbers

The slots of a size map are a list of numbers that is cut into buckets, of which all but the last are
full. Adding a slot appends a zero, and a call on a slot makes its move with the number in it. Main
statements: `Shows.add`, `Shows.onSlot` and `Shows.onSlot_refuses`.
-/

namespace RefStore

/-! ## Lists in buckets -/

namespace Bucket

variable {c n b k : Nat} {vs : List Int32} {v : Int32}

/-- The number of buckets for some slots. -/
def needed (c n : Nat) : Nat := (n + c - 1) / c

/-- The slots of one bucket. -/
def part (c : Nat) (vs : List Int32) (b : Nat) : List Int32 := (vs.drop (b * c)).take c

theorem getElem?_part (h : k < c) : (part c vs b)[k]? = vs[b * c + k]? := by
  rw [part, List.getElem?_take_of_lt h, List.getElem?_drop]

theorem length_part (c : Nat) (vs : List Int32) (b : Nat) :
    (part c vs b).length = min c (vs.length - b * c) := by
  rw [part, List.length_take, List.length_drop]

theorem part_congr {ws : List Int32} (h : ∀ k < c, vs[b * c + k]? = ws[b * c + k]?) :
    part c vs b = part c ws b := by
  refine List.ext_getElem? fun k => ?_
  by_cases hk : k < c
  · rw [getElem?_part hk, getElem?_part hk, h k hk]
  · rw [List.getElem?_eq_none, List.getElem?_eq_none]
    · rw [length_part]
      omega
    · rw [length_part]
      omega

/-- A number that is set is set in its bucket. -/
theorem part_set (hc : 0 < c) (i : Nat) (v : Int32) :
    part c (vs.set i v) b = if b = i / c then (part c vs b).set (i % c) v else part c vs b := by
  have hdiv : i / c * c + i % c = i := by
    rw [Nat.mul_comm]
    exact Nat.div_add_mod i c
  have hmod := Nat.mod_lt i hc
  split
  · next hb =>
    subst hb
    refine List.ext_getElem? fun k => ?_
    by_cases hk : k < c
    · rw [getElem?_part hk, List.getElem?_set, List.getElem?_set, getElem?_part hk, length_part]
      by_cases he : i % c = k
      · rw [if_pos he, if_pos (by omega)]
        split <;> split <;> first | rfl | omega
      · rw [if_neg he, if_neg (by omega)]
    · rw [List.getElem?_eq_none, List.getElem?_eq_none]
      · rw [List.length_set, length_part]
        omega
      · rw [length_part]
        omega
  · next hb =>
    refine part_congr fun k hk => List.getElem?_set_ne fun he => hb ?_
    rw [he, Nat.mul_comm, Nat.mul_add_div hc, Nat.div_eq_of_lt hk, Nat.add_zero]

/-- A number that is appended goes to the end of the last bucket. -/
theorem part_append (hc : 0 < c) (v : Int32) :
    part c (vs ++ [v]) b = if b = vs.length / c then part c vs b ++ [v] else part c vs b := by
  have hdiv : vs.length / c * c + vs.length % c = vs.length := by
    rw [Nat.mul_comm]
    exact Nat.div_add_mod vs.length c
  have hmod := Nat.mod_lt vs.length hc
  split
  · next hb =>
    subst hb
    have hlen : (part c vs (vs.length / c)).length = vs.length % c := by
      rw [length_part]
      omega
    refine List.ext_getElem? fun k => ?_
    by_cases hk : k < c
    · rw [getElem?_part hk, List.getElem?_append, List.getElem?_append, hlen, getElem?_part hk]
      have hiff : vs.length / c * c + k < vs.length ↔ k < vs.length % c := by omega
      rw [show vs.length / c * c + k - vs.length = k - vs.length % c by omega]
      simp only [hiff]
    · rw [List.getElem?_eq_none, List.getElem?_eq_none]
      · rw [List.length_append, hlen, List.length_singleton]
        omega
      · rw [length_part]
        omega
  · next hb =>
    refine part_congr fun k hk => ?_
    rcases Nat.lt_trichotomy (b * c + k) vs.length with hlt | heq | hgt
    · exact List.getElem?_append_left hlt
    · refine absurd ?_ hb
      rw [← heq, Nat.mul_comm, Nat.mul_add_div hc, Nat.div_eq_of_lt hk, Nat.add_zero]
    · rw [List.getElem?_eq_none, List.getElem?_eq_none (Nat.le_of_lt hgt)]
      rw [List.length_append, List.length_singleton]
      exact hgt

theorem lt_needed (hc : 0 < c) : b < needed c n ↔ b * c < n := by
  rw [needed, Nat.lt_div_iff_mul_lt hc]
  omega

theorem le_needed_mul (hc : 0 < c) (n : Nat) : n ≤ needed c n * c :=
  Nat.le_of_not_lt fun h => Nat.lt_irrefl _ ((lt_needed hc).mpr h)

/-- As long as there is room in the last bucket, one more slot goes there. -/
theorem needed_succ (hc : 0 < c) (n : Nat) :
    needed c (n + 1) = if n < needed c n * c then needed c n else needed c n + 1 := by
  have hle := le_needed_mul hc n
  refine Nat.le_antisymm (Nat.le_of_not_lt fun hlt => ?_) (Nat.le_of_not_lt fun hlt => ?_)
  · rw [lt_needed hc] at hlt
    split at hlt
    · omega
    · rw [Nat.succ_mul] at hlt
      omega
  · split at hlt
    · have := le_needed_mul hc (n + 1)
      have hprev := Nat.mul_le_mul_right c (Nat.le_pred_of_lt hlt)
      have hlast := (lt_needed hc (b := needed c n - 1) (n := n)).mp (by omega)
      rw [Nat.pred_eq_sub_one] at hprev
      omega
    · have hlast := (lt_needed hc (b := needed c n) (n := n + 1)).mpr (by omega)
      omega

/-- The last bucket with room is the one of the next slot. -/
theorem needed_of_room (hc : 0 < c) (h : n < needed c n * c) : needed c n = n / c + 1 := by
  have hlt := (Nat.div_lt_iff_lt_mul hc).mpr h
  have hlast := (lt_needed hc).mp (Nat.sub_one_lt (Nat.ne_of_gt (Nat.zero_lt_of_lt hlt)))
  have hge := (Nat.le_div_iff_mul_le hc).mpr (Nat.le_of_lt hlast)
  omega

theorem needed_of_full (hc : 0 < c) (h : ¬ n < needed c n * c) :
    n / c = needed c n ∧ n = needed c n * c := by
  have hfull := Nat.le_antisymm (le_needed_mul hc n) (Nat.le_of_not_lt h)
  have hdiv := Nat.mul_div_cancel (needed c n) hc
  rw [← hfull] at hdiv
  exact ⟨hdiv, hfull⟩

end Bucket

namespace Transaction.Shows

variable {t : Transaction} {file : FileId} {base pages : List Page}

/-- A change that cannot be worked out from the page is not made. -/
theorem edit_fails {α ε : Type} [Within StorageError ε] (h : t.Shows file base pages) {i : PageIndex}
    {p : Page} (hp : pages[i.toNat]? = some p) {f : Page → Checked ε (α × List Write)}
    {cause : Failure ε} (hf : f p = .error cause) :
    ∃ t', (Transaction.edit file i f).start t = (.error cause, t') ∧ Alters file t t' ∧
      t'.Shows file base pages := by
  obtain ⟨d, hd, hg⟩ := h.draft hp
  obtain ⟨-, hpage, -⟩ := h.drafts.current hp hd
  refine ⟨{ t with operation := t.operation.withDraft file i d }, ?_, .withDraft t file i d,
    h.noted hp hd⟩
  have hnoted : (update (·.withDraft file i d) : Task Transaction StorageError Unit).Gives t ()
      { t with operation := t.operation.withDraft file i d } := .change _ t
  rw [Transaction.edit, hg.embed.start_bind, hnoted.embed.start_bind, Task.start_bind,
    Task.start_ofChecked, hpage, hf]

end Transaction.Shows

namespace SizeMap

/-! ## Pages -/

/-- Pages that hold numbers in a number of buckets. -/
structure On (c count : Nat) (slots : List Int32) (pages : List Page) : Prop where
  length : pages.length = count + 1
  entry : ∃ p, pages[0]? = some p ∧ EntryPoint.InPage count p
  bucket : ∀ b < count, ∃ p, pages[b + 1]? = some p ∧ Bucket.InPage (Bucket.part c slots b) p

namespace On

variable {c count : Nat} {slots : List Int32} {pages qages : List Page}

/-- Seals do not matter. -/
theorem alike (h : On c count slots pages) (hs : ∀ p ∈ pages, 12 ≤ p.size)
    (ha : List.Forall₂ Page.Alike pages qages) : On c count slots qages := by
  refine ⟨ha.length_eq ▸ h.length, ?_, fun b hb => ?_⟩
  · obtain ⟨p, hp, hin⟩ := h.entry
    obtain ⟨q, hq, hpq⟩ := Page.Alike.getElem? ha hp
    exact ⟨q, hq, EntryPoint.inPage_alike hin (hs p (List.mem_of_getElem? hp)) hpq⟩
  · obtain ⟨p, hp, hin⟩ := h.bucket b hb
    obtain ⟨q, hq, hpq⟩ := Page.Alike.getElem? ha hp
    exact ⟨q, hq, Bucket.inPage_alike hin (hs p (List.mem_of_getElem? hp)) hpq⟩

/-- One bucket is rewritten, and the others keep their numbers. -/
theorem set {slots' : List Int32} {p : Page} {b : Nat} (h : On c count slots pages) (hb : b < count)
    (hp : Bucket.InPage (Bucket.part c slots' b) p)
    (hother : ∀ a < count, a ≠ b → Bucket.part c slots' a = Bucket.part c slots a) :
    On c count slots' (pages.set (b + 1) p) := by
  refine ⟨by rw [List.length_set]; exact h.length, ?_, fun a ha => ?_⟩
  · rw [List.getElem?_set_ne (by omega)]
    exact h.entry
  · by_cases hab : a = b
    · subst hab
      exact ⟨p, List.getElem?_set_self (by rw [h.length]; omega), hp⟩
    · rw [List.getElem?_set_ne (by omega), hother a ha hab]
      exact h.bucket a ha

/-- An empty bucket comes after the others. -/
theorem push (h : On c count slots pages) (hcovers : slots.length ≤ count * c) {x p e : Page}
    (hp : Bucket.InPage [] p) (he : EntryPoint.InPage (count + 1) e) :
    On c (count + 1) slots (((pages ++ [x]).set (count + 1) p).set 0 e) := by
  have hlen := h.length
  refine ⟨by simp [hlen], ⟨e, List.getElem?_set_self (by simp), he⟩, fun b hb => ?_⟩
  rw [List.getElem?_set_ne (Nat.succ_ne_zero b).symm]
  by_cases hlast : b = count
  · subst hlast
    have hempty : Bucket.part c slots b = [] := by
      rw [Bucket.part, List.drop_eq_nil_of_le hcovers, List.take_nil]
    exact ⟨p, List.getElem?_set_self (by simp [hlen]), hempty ▸ hp⟩
  · rw [List.getElem?_set_ne (by omega), List.getElem?_append_left (by omega)]
    exact h.bucket b (by omega)

end On

/-- A transaction shows a size map with some numbers in a number of buckets. -/
structure Spreads (t : Transaction) (file : FileId) (base : List Page) (count : Nat)
    (slots : List Int32) : Prop where
  pages : ∃ pages, t.Shows file base pages ∧
    On (Bucket.capacity t.mounted.volume.pageSize) count slots pages
  room : 64 ≤ t.mounted.volume.pageSize
  limit : t.mounted.volume.pageSize ≤ 65536
  few : count < 2 ^ 31
  covers : slots.length ≤ count * Bucket.capacity t.mounted.volume.pageSize

namespace Spreads

variable {t : Transaction} {file : FileId} {base : List Page} {count : Nat} {slots : List Int32}

theorem capacity_pos (h : Spreads t file base count slots) :
    13 ≤ Bucket.capacity t.mounted.volume.pageSize := by
  have := h.room
  have := h.limit
  rw [Bucket.capacity]
  omega

theorem file_gives {m : SizeMap} (hatt : m.component.isAttached) (t : Transaction) :
    m.file.Gives t m.component.file t := by
  rw [SizeMap.file, if_pos hatt]
  exact .pure _ t

theorem slotsPerBucket (t : Transaction) :
    SizeMap.slotsPerBucket.Gives t (Bucket.capacity t.mounted.volume.pageSize) t :=
  (Transaction.pageSize_gives t).embed.bind (.pure _ t)

theorem buckets (h : Spreads t file base count slots) : (SizeMap.buckets file).Gives t count t := by
  obtain ⟨pages, hp, hon⟩ := h.pages
  obtain ⟨p, hp0, hin⟩ := hon.entry
  have hsize : 12 ≤ p.size := by
    rw [hp.size_page (i := 0) hp0]
    exact Nat.le_trans (by decide) h.room
  exact (hp.loadPage (i := 0) hp0).embed.bind
    (Task.Gives.ofChecked (EntryPoint.count_inPage hin h.few hsize) t)

/-- The page of a bucket. -/
theorem bucket (h : Spreads t file base count slots) {b : Nat} (hb : b < count) :
    ∃ pages p, t.Shows file base pages ∧
      On (Bucket.capacity t.mounted.volume.pageSize) count slots pages ∧
      (UInt64.ofNat (b + 1)).toNat = b + 1 ∧ pages[(UInt64.ofNat (b + 1)).toNat]? = some p ∧
      Bucket.InPage (Bucket.part (Bucket.capacity t.mounted.volume.pageSize) slots b) p ∧
      p.size = t.mounted.volume.pageSize := by
  obtain ⟨pages, hp, hon⟩ := h.pages
  obtain ⟨p, hpb, hin⟩ := hon.bucket b hb
  have hindex : (UInt64.ofNat (b + 1)).toNat = b + 1 := by
    have := h.few
    exact UInt64.toNat_ofNat_of_lt' (Nat.lt_trans (by omega) (by decide : 2 ^ 31 < UInt64.size))
  rw [← hindex] at hpb
  exact ⟨pages, p, hp, hon, hindex, hpb, hin, hp.size_page hpb⟩

/-- The page and the place of a slot, as far as there are buckets. -/
theorem locate (h : Spreads t file base count slots) (id : SlotId) :
    (SizeMap.locate file id).start t =
      (if id.toNat / Bucket.capacity t.mounted.volume.pageSize < count then
        .ok (UInt64.ofNat (id.toNat / Bucket.capacity t.mounted.volume.pageSize + 1),
          UInt32.ofNat (id.toNat % Bucket.capacity t.mounted.volume.pageSize))
        else refuse (.slot .unknown id), t) := by
  have hpos := h.capacity_pos
  rw [SizeMap.locate, (slotsPerBucket t).start_bind, if_neg (by omega)]
  dsimp only
  rw [h.buckets.start_bind]
  by_cases hb : id.toNat / Bucket.capacity t.mounted.volume.pageSize < count
  · rw [if_pos hb, if_neg (by omega)]
    rfl
  · rw [if_neg hb, if_pos (by omega)]
    rfl

/-- A slot in its bucket. -/
theorem getElem?_slot (h : Spreads t file base count slots) (id : SlotId) :
    (Bucket.part (Bucket.capacity t.mounted.volume.pageSize) slots
      (id.toNat / Bucket.capacity t.mounted.volume.pageSize))[(UInt32.ofNat
        (id.toNat % Bucket.capacity t.mounted.volume.pageSize)).toNat]? = slots[id.toNat]? := by
  have hpos := h.capacity_pos
  have hmod := Nat.mod_lt id.toNat (show 0 < Bucket.capacity t.mounted.volume.pageSize by omega)
  have hid := id.toNat_lt
  rw [UInt32.toNat_ofNat_of_lt' (Nat.lt_of_le_of_lt (Nat.mod_le _ _) hid), Bucket.getElem?_part hmod,
    Nat.mul_comm, Nat.div_add_mod]

theorem div_lt (h : Spreads t file base count slots) {id : SlotId} {n : Int32}
    (hn : slots[id.toNat]? = some n) :
    id.toNat / Bucket.capacity t.mounted.volume.pageSize < count := by
  have hpos := h.capacity_pos
  have hlt := (List.getElem?_eq_some_iff.mp hn).1
  have hcovers := h.covers
  exact Nat.div_lt_of_lt_mul (by rw [Nat.mul_comm]; omega)

/-- A slot past the last bucket holds no number. -/
theorem getElem?_past (h : Spreads t file base count slots) {id : SlotId}
    (hb : ¬ id.toNat / Bucket.capacity t.mounted.volume.pageSize < count) : slots[id.toNat]? = none := by
  have hpos := h.capacity_pos
  have hle := Nat.mul_le_mul_right (Bucket.capacity t.mounted.volume.pageSize) (Nat.le_of_not_lt hb)
  have := Nat.div_mul_le_self id.toNat (Bucket.capacity t.mounted.volume.pageSize)
  have := h.covers
  exact List.getElem?_eq_none (by omega)

/-- The number in a slot, or why there is none. -/
theorem count_start {m : SizeMap} (h : Spreads t m.component.file base count slots)
    (hatt : m.component.isAttached) (id : SlotId) : (m.count id).start t =
      (match slots[id.toNat]? with
        | none => refuse (.slot .unknown id)
        | some n => if n < 0 then refuse (.slot .deleted id) else .ok n, t) := by
  have hpos := h.capacity_pos
  have hroom := h.room
  have hlimit := h.limit
  rw [SizeMap.count, (file_gives hatt t).start_bind]
  by_cases hb : id.toNat / Bucket.capacity t.mounted.volume.pageSize < count
  · obtain ⟨pages, p, hp, hon, hindex, hpb, hin, hsize⟩ := h.bucket hb
    have hlocate := h.locate id
    rw [if_pos hb] at hlocate
    have hvalue : Bucket.count (UInt32.ofNat (id.toNat % Bucket.capacity t.mounted.volume.pageSize)) p = _ :=
      Bucket.count_inPage hin (by omega) (by omega)
    rw [h.getElem?_slot id] at hvalue
    rw [Task.Gives.start_bind hlocate]
    dsimp only
    rw [(hp.loadPage hpb).embed.start_bind, Task.start_ofChecked, hvalue]
    cases slots[id.toNat]? with
    | none => rfl
    | some n =>
      dsimp only
      split <;> rfl
  · rw [Task.start_bind, h.locate id, if_neg hb, h.getElem?_past hb]
    rfl

theorem onSlot_start {α : Type} (h : Spreads t file base count slots)
    (f : SlotId → Page → Checked SizesError (α × List Write)) (id : SlotId) :
    (SizeMap.onSlot file id f).start t =
      if id.toNat / Bucket.capacity t.mounted.volume.pageSize < count then
        (Transaction.edit file (UInt64.ofNat (id.toNat / Bucket.capacity t.mounted.volume.pageSize + 1))
          fun page => (f (UInt32.ofNat (id.toNat % Bucket.capacity t.mounted.volume.pageSize))
            page).mapError (SizesError.withSlot id)).start t
      else (refuse (.slot .unknown id), t) := by
  rw [SizeMap.onSlot, Task.start_bind, h.locate id]
  by_cases hb : id.toNat / Bucket.capacity t.mounted.volume.pageSize < count
  · rw [if_pos hb, if_pos hb]
  · rw [if_neg hb, if_neg hb]
    rfl

/-- A call that makes a move with the number in a slot. -/
theorem onSlot {α : Type} {f : SlotId → Page → Checked SizesError (α × List Write)}
    {move : Bucket.Move α} (hf : Bucket.Moves f move) (h : Spreads t file base count slots) {id : SlotId}
    {n n' : Int32} {a : α} (hn : slots[id.toNat]? = some n) (hmove : move n = .ok (a, n')) :
    ∃ t', (SizeMap.onSlot file id f).Gives t a t' ∧ Transaction.Alters file t t' ∧
      Spreads t' file base count (slots.set id.toNat n') := by
  have hpos := h.capacity_pos
  have hroom := h.room
  have hlimit := h.limit
  have hb := h.div_lt hn
  obtain ⟨pages, p, hp, hon, hindex, hpb, hin, hsize⟩ := h.bucket hb
  have hpart := h.getElem?_slot id
  have hlocal : (UInt32.ofNat (id.toNat % Bucket.capacity t.mounted.volume.pageSize)).toNat =
      id.toNat % Bucket.capacity t.mounted.volume.pageSize :=
    UInt32.toNat_ofNat_of_lt' (Nat.lt_of_le_of_lt (Nat.mod_le _ _) id.toNat_lt)
  have hdoes := hf (UInt32.ofNat (id.toNat % Bucket.capacity t.mounted.volume.pageSize)) hin
    (by omega) (by omega)
  rw [hpart, hn] at hdoes
  dsimp only at hdoes
  rw [hmove] at hdoes
  have hslot := (List.getElem?_eq_some_iff.mp (hpart.trans hn)).1
  have hinside := Bucket.setValue_inside (Nat.lt_of_lt_of_le hslot hin.fits) n'
  obtain ⟨t', hg, ha, hs⟩ := hp.edit (ε := SizesError) hpb (a := a)
    [Bucket.setValue (UInt32.ofNat (id.toNat % Bucket.capacity t.mounted.volume.pageSize)) n']
    (f := fun page => (f (UInt32.ofNat (id.toNat % Bucket.capacity t.mounted.volume.pageSize))
      page).mapError (SizesError.withSlot id))
    (by simp only [hdoes]; rfl) (fun w hw => List.mem_singleton.mp hw ▸ hinside)
  refine ⟨t', ?_, ha, ⟨_, hs, ?_⟩, ha.mounted ▸ hroom, ha.mounted ▸ hlimit, h.few, ?_⟩
  · rw [Task.Gives, h.onSlot_start, if_pos hb]
    exact hg
  · rw [ha.mounted, hindex]
    refine hon.set hb ?_ fun b _ hne => ?_
    · have hset := Bucket.inPage_setValue hin hslot n'
      rw [hlocal] at hset
      rw [Bucket.part_set (by omega), if_pos rfl]
      exact hset
    · rw [Bucket.part_set (by omega), if_neg hne]
  · rw [ha.mounted, List.length_set]
    exact h.covers

/-- A call that does not make its move says why. -/
theorem onSlot_refuses {α : Type} {f : SlotId → Page → Checked SizesError (α × List Write)}
    {move : Bucket.Move α} (hf : Bucket.Moves f move) (h : Spreads t file base count slots) {id : SlotId}
    {kind : SlotFault} (hk : (slots[id.toNat]?).elim (some .unknown) (fun n =>
      match move n with | .error kind => some kind | .ok _ => none) = some kind) :
    ∃ t', (SizeMap.onSlot file id f).start t = (refuse (.slot kind id), t') ∧
      Transaction.Alters file t t' ∧ Spreads t' file base count slots := by
  have hroom := h.room
  have hlimit := h.limit
  rw [h.onSlot_start]
  by_cases hb : id.toNat / Bucket.capacity t.mounted.volume.pageSize < count
  · rw [if_pos hb]
    obtain ⟨pages, p, hp, hon, hindex, hpb, hin, hsize⟩ := h.bucket hb
    have hdoes := hf (UInt32.ofNat (id.toNat % Bucket.capacity t.mounted.volume.pageSize)) hin
      (by omega) (by omega)
    rw [h.getElem?_slot id] at hdoes
    have hfails : (f (UInt32.ofNat (id.toNat % Bucket.capacity t.mounted.volume.pageSize))
        p).mapError (SizesError.withSlot id) = refuse (.slot kind id) := by
      rw [hdoes]
      cases hn : slots[id.toNat]? with
      | none =>
        rw [hn] at hk
        cases hk
        rfl
      | some n =>
        rw [hn] at hk
        dsimp only [Option.elim_some] at hk ⊢
        cases hm : move n with
        | ok a =>
          rw [hm] at hk
          cases hk
        | error kind' =>
          rw [hm] at hk
          cases hk
          rfl
    obtain ⟨t', hstart, ha, hs⟩ := hp.edit_fails hpb
      (f := fun page => (f (UInt32.ofNat (id.toNat % Bucket.capacity t.mounted.volume.pageSize))
        page).mapError (SizesError.withSlot id)) hfails
    exact ⟨t', hstart, ha, ⟨pages, hs, ha.mounted ▸ hon⟩, ha.mounted ▸ hroom, ha.mounted ▸ hlimit, h.few,
      ha.mounted ▸ h.covers⟩
  · rw [if_neg hb]
    rw [h.getElem?_past hb] at hk
    cases hk
    exact ⟨t, rfl, .refl file t, h⟩

/-- A bucket is added after those that there are. -/
theorem appendBucket (h : Spreads t file base count slots) (hfew : count + 1 < 2 ^ 31) :
    ∃ t', (SizeMap.appendBucket file count).Gives t (count + 1) t' ∧ Transaction.Alters file t t' ∧
      Spreads t' file base (count + 1) slots := by
  have hroom := h.room
  have hlimit := h.limit
  obtain ⟨pages, hp, hon⟩ := h.pages
  have hsize : UInt64.size = 2 ^ 64 := rfl
  have hlen := hon.length
  obtain ⟨t₁, hg₁, ha₁, hs₁⟩ := hp.addPage (by omega)
  have hindex : (UInt64.ofNat pages.length).toNat = count + 1 := by
    rw [hp.length_toNat, hlen]
  have hnew : (pages ++ [Page.zero t.mounted.volume.pageSize])[(UInt64.ofNat pages.length).toNat]? =
      some (Page.zero t.mounted.volume.pageSize) := by
    rw [hindex, ← hlen, List.getElem?_concat_length]
  obtain ⟨hformat, hbucket⟩ := Bucket.inPage_format (Page.zero t.mounted.volume.pageSize)
    (by rw [Page.size_zero]; omega)
  obtain ⟨t₂, hg₂, ha₂, hs₂⟩ := hs₁.writePage hnew hformat
  obtain ⟨p, hp0, hin⟩ := hon.entry
  have hpsize : 12 ≤ p.size := by
    rw [hp.size_page (i := 0) hp0]
    omega
  have hlt0 := (List.getElem?_eq_some_iff.mp hp0).1
  have hfirst : ((pages ++ [Page.zero t.mounted.volume.pageSize]).set (UInt64.ofNat pages.length).toNat
      ((Page.zero t.mounted.volume.pageSize).writtenAll Bucket.format))[(0 : PageIndex).toNat]? = some p := by
    rw [List.getElem?_set_ne (by rw [hindex]; simp)]
    exact (List.getElem?_append_left hlt0).trans hp0
  obtain ⟨t₃, hg₃, ha₃, hs₃⟩ := hs₂.edit (ε := SizesError) hfirst (a := ())
    [.word 8 (Int32.ofNat (count + 1))] (EntryPoint.setCount_inPage hin hpsize hfew)
    (fun w hw => List.mem_singleton.mp hw ▸ Write.number_inside hpsize _)
  have halters := (ha₁.trans ha₂).trans ha₃
  refine ⟨t₃, ?_, halters, ⟨_, hs₃, ?_⟩, halters.mounted ▸ hroom, halters.mounted ▸ hlimit, hfew, ?_⟩
  · refine hg₁.embed.bind ?_
    rw [if_neg (by rw [hindex]; simp)]
    exact hg₂.embed.bind (hg₃.bind (.pure _ t₃))
  · rw [halters.mounted, hindex]
    exact hon.push h.covers hbucket (EntryPoint.inPage_written hin.mark hpsize (count + 1))
  · rw [halters.mounted, Nat.succ_mul]
    have := h.covers
    omega

/-- A slot is added to a bucket that has room. -/
theorem addTo (h : Spreads t file base count slots) {b : Nat} (hb : b < count)
    (hlast : b = slots.length / Bucket.capacity t.mounted.volume.pageSize) :
    ∃ t', (SizeMap.addTo file (b + 1)).Gives t
        (some (UInt32.ofNat (slots.length % Bucket.capacity t.mounted.volume.pageSize))) t' ∧
      Transaction.Alters file t t' ∧ Spreads t' file base count (slots ++ [0]) := by
  have hpos := h.capacity_pos
  have hroom := h.room
  have hlimit := h.limit
  obtain ⟨pages, p, hp, hon, hindex, hpb, hin, hsize⟩ := h.bucket hb
  have hmod := Nat.mod_lt slots.length (show 0 < Bucket.capacity t.mounted.volume.pageSize by omega)
  have hdiv := Nat.div_add_mod' slots.length (Bucket.capacity t.mounted.volume.pageSize)
  have hpart : (Bucket.part (Bucket.capacity t.mounted.volume.pageSize) slots b).length =
      slots.length % Bucket.capacity t.mounted.volume.pageSize := by
    rw [Bucket.length_part, hlast]
    omega
  have hfree : (Bucket.part (Bucket.capacity t.mounted.volume.pageSize) slots b).length <
      Bucket.capacity p.size := by
    rw [hpart, hsize]
    exact hmod
  have hadd := Bucket.add_inPage hin (by omega) (by omega)
  rw [if_pos hfree] at hadd
  obtain ⟨hwrites, hnext⟩ := Bucket.inPage_next hin (by omega) (by omega) hfree
  obtain ⟨t', hg, ha, hs⟩ := hp.edit (ε := SizesError) hpb _ hadd hwrites
  rw [hpart] at hg
  refine ⟨t', hg, ha, ⟨_, hs, ?_⟩, ha.mounted ▸ hroom, ha.mounted ▸ hlimit, h.few, ?_⟩
  · rw [ha.mounted, hindex]
    refine hon.set hb ?_ fun a _ hne => ?_
    · rw [Bucket.part_append (by omega), if_pos hlast]
      exact hnext
    · rw [Bucket.part_append (by omega), if_neg (hlast ▸ hne)]
  · have hle := Nat.mul_le_mul_right (Bucket.capacity t.mounted.volume.pageSize) (Nat.succ_le_of_lt hb)
    rw [Nat.succ_mul, hlast] at hle
    rw [ha.mounted, List.length_append, List.length_singleton]
    omega

/-- A full bucket takes no more. -/
theorem addTo_full (h : Spreads t file base (count + 1) slots)
    (hfull : slots.length = (count + 1) * Bucket.capacity t.mounted.volume.pageSize) :
    ∃ t', (SizeMap.addTo file (count + 1)).Gives t none t' ∧ Transaction.Alters file t t' ∧
      Spreads t' file base (count + 1) slots := by
  have hpos := h.capacity_pos
  have hroom := h.room
  have hlimit := h.limit
  obtain ⟨pages, p, hp, hon, hindex, hpb, hin, hsize⟩ := h.bucket (Nat.lt_succ_self count)
  rw [Nat.succ_mul] at hfull
  have hnone : ¬ (Bucket.part (Bucket.capacity t.mounted.volume.pageSize) slots count).length <
      Bucket.capacity p.size := by
    rw [Bucket.length_part, hsize]
    omega
  have hadd := Bucket.add_inPage hin (by omega) (by omega)
  rw [if_neg hnone] at hadd
  obtain ⟨t', hg, ha, hs⟩ := hp.edit (ε := SizesError) hpb _ hadd (by simp)
  obtain ⟨hlt, hget⟩ := List.getElem?_eq_some_iff.mp hpb
  rw [Page.writtenAll, List.foldl_nil, ← hget, List.set_getElem_self] at hs
  exact ⟨t', hg, ha, ⟨_, hs, ha.mounted ▸ hon⟩, ha.mounted ▸ hroom, ha.mounted ▸ hlimit, h.few,
    ha.mounted ▸ h.covers⟩

end Spreads

/-- A transaction shows a size map with some numbers. -/
structure Shows (t : Transaction) (file : FileId) (base : List Page) (slots : List Int32) : Prop where
  spreads : Spreads t file base
    (Bucket.needed (Bucket.capacity t.mounted.volume.pageSize) slots.length) slots
  ids : slots.length ≤ UInt32.size

namespace Shows

variable {t : Transaction} {file : FileId} {base : List Page} {slots : List Int32}

/-- The id of the slot that comes next. -/
theorem globalId_eq (n c : Nat) (hc : 0 < c) (hlt : c < UInt32.size) :
    globalId (UInt32.ofNat (n % c)) (n / c + 1) c =
      if n < UInt32.size then .ok (UInt32.ofNat n) else refuse .exhausted := by
  have hslot : (UInt32.ofNat (n % c)).toNat = n % c :=
    UInt32.toNat_ofNat_of_lt' (Nat.lt_trans (Nat.mod_lt n hc) hlt)
  rw [globalId, hslot, Nat.add_sub_cancel, Nat.div_add_mod']

/-- The next slot goes to a bucket with room for it, which is then the last one. -/
theorem grow {count c : Nat} (h : Spreads t file base count slots)
    (hc : c = Bucket.capacity t.mounted.volume.pageSize) (hb : slots.length / c < count)
    (hcount : Bucket.needed c (slots.length + 1) = count) :
    ∃ t', (SizeMap.addTo file (slots.length / c + 1)).Gives t
        (some (UInt32.ofNat (slots.length % c))) t' ∧ Transaction.Alters file t t' ∧
      (slots.length < UInt32.size → Shows t' file base (slots ++ [0])) := by
  subst hc
  obtain ⟨t', hg, ha, hs⟩ := h.addTo hb rfl
  refine ⟨t', hg, ha, fun hlt => ⟨?_, ?_⟩⟩
  · rw [ha.mounted, List.length_append, List.length_singleton, hcount]
    exact hs
  · rw [List.length_append, List.length_singleton]
    exact hlt

/-- The next slot is found in the last bucket, or in a new one. It has an id as long as these last. -/
theorem allocate (h : Shows t file base slots) : ∃ t', (SizeMap.allocate file).start t =
      (if slots.length < UInt32.size then .ok (UInt32.ofNat slots.length) else refuse .exhausted, t') ∧
    Transaction.Alters file t t' ∧
    (slots.length < UInt32.size → Shows t' file base (slots ++ [0])) := by
  have hsp := h.spreads
  have hids : slots.length ≤ 4294967296 := h.ids
  have hmany := hsp.capacity_pos
  have hsmall := Bucket.capacity_lt hsp.limit
  obtain ⟨c, hc⟩ : ∃ c, c = Bucket.capacity t.mounted.volume.pageSize := ⟨_, rfl⟩
  rw [← hc] at hsp hmany hsmall
  have hpos : 0 < c := by omega
  have hid : globalId (UInt32.ofNat (slots.length % c)) (slots.length / c + 1) c =
      if slots.length < UInt32.size then .ok (UInt32.ofNat slots.length) else refuse .exhausted :=
    globalId_eq _ _ hpos (Nat.lt_trans hsmall (by decide))
  have hsucc := Bucket.needed_succ hpos slots.length
  rw [SizeMap.allocate, (Spreads.slotsPerBucket t).start_bind, ← hc]
  dsimp only
  rw [hsp.buckets.start_bind]
  by_cases hroom : slots.length < Bucket.needed c slots.length * c
  · have hb := Bucket.needed_of_room hpos hroom
    rw [if_pos hroom] at hsucc
    obtain ⟨t', hg, ha, hs⟩ := grow hsp hc (by omega) hsucc
    refine ⟨t', ?_, ha, hs⟩
    rw [hb, if_neg (Nat.succ_ne_zero _), (Task.Gives.pure _ t).start_bind, hg.start_bind]
    dsimp only
    rw [hid]
    rfl
  · obtain ⟨hb, hfull⟩ := Bucket.needed_of_full hpos hroom
    rw [if_neg hroom] at hsucc
    by_cases hzero : Bucket.needed c slots.length = 0
    · rw [hzero] at hsp hsucc hb
      obtain ⟨t₁, hg₁, ha₁, hs₁⟩ := hsp.appendBucket (by decide)
      obtain ⟨t', hg, ha, hs⟩ := grow hs₁ (by rw [ha₁.mounted]; exact hc) (by omega) hsucc
      rw [hb] at hg hid
      refine ⟨t', ?_, ha₁.trans ha, hs⟩
      rw [hzero, if_pos rfl, hg₁.start_bind, hg.start_bind]
      dsimp only
      rw [hid]
      rfl
    · have hfew : Bucket.needed c slots.length + 1 < 2 ^ 31 := by
        have hlt := Nat.div_le_div_left hmany (by decide : 0 < 13) (a := slots.length + c - 1)
        rw [Bucket.needed]
        omega
      obtain ⟨count, hcount⟩ := Nat.exists_eq_succ_of_ne_zero hzero
      rw [hcount] at hsp hsucc hb hfull hfew
      obtain ⟨t₁, hg₁, ha₁, hs₁⟩ := hsp.addTo_full (by rw [← hc]; exact hfull)
      obtain ⟨t₂, hg₂, ha₂, hs₂⟩ := hs₁.appendBucket hfew
      obtain ⟨t', hg, ha, hs⟩ := grow hs₂ (by rw [ha₂.mounted, ha₁.mounted]; exact hc) (by omega) hsucc
      rw [hb] at hg hid
      refine ⟨t', ?_, (ha₁.trans ha₂).trans ha, hs⟩
      rw [hcount, if_neg (Nat.succ_ne_zero _), (Task.Gives.pure _ t).start_bind, hg₁.start_bind]
      dsimp only
      rw [hg₂.start_bind, hg.start_bind]
      dsimp only
      rw [hid]
      rfl

variable {m : SizeMap}

/-- A new slot comes after the others, with a zero. -/
theorem add (h : Shows t m.component.file base slots) (hatt : m.component.isAttached) :
    ∃ t', m.add.start t =
        (if slots.length < UInt32.size then .ok (UInt32.ofNat slots.length) else refuse .exhausted, t') ∧
      Transaction.Alters m.component.file t t' ∧
      (slots.length < UInt32.size → Shows t' m.component.file base (slots ++ [0])) := by
  obtain ⟨t', hstart, ha, hs⟩ := h.allocate
  rw [SizeMap.add, (Spreads.file_gives hatt t).start_bind, SizeMap.during, Task.start_mapError, hstart]
  refine ⟨t', ?_, ha, hs⟩
  split <;> rfl

/-- A call on a slot makes its move with the number there, or says why it does not. -/
theorem moves {α : Type} {f : SlotId → Page → Checked SizesError (α × List Write)}
    {move : Bucket.Move α} (hf : Bucket.Moves f move) (h : Shows t m.component.file base slots)
    (hatt : m.component.isAttached) (operation : String) (id : SlotId) :
    ∃ outcome t', (do
        let file ← m.file
        m.during operation (SizeMap.onSlot file id f) : Task Transaction SizesError α).start t =
          (outcome, t') ∧ Transaction.Alters m.component.file t t' ∧
      match slots[id.toNat]? with
      | none => outcome = refuse (.slot .unknown id) ∧ Shows t' m.component.file base slots
      | some n => match move n with
        | .error kind => outcome = refuse (.slot kind id) ∧ Shows t' m.component.file base slots
        | .ok (a, n') => outcome = .ok a ∧ Shows t' m.component.file base (slots.set id.toNat n') := by
  have hrefused {kind : SlotFault} (hk : (slots[id.toNat]?).elim (some .unknown) (fun n =>
      match move n with | .error kind => some kind | .ok _ => none) = some kind) :
      ∃ t', (do
        let file ← m.file
        m.during operation (SizeMap.onSlot file id f) : Task Transaction SizesError α).start t =
          (refuse (.slot kind id), t') ∧ Transaction.Alters m.component.file t t' ∧
          Shows t' m.component.file base slots := by
    obtain ⟨t', hstart, ha, hs⟩ := h.spreads.onSlot_refuses hf hk
    refine ⟨t', ?_, ha, ha.mounted ▸ hs, h.ids⟩
    rw [(Spreads.file_gives hatt t).start_bind, SizeMap.during, Task.start_mapError, hstart]
    rfl
  cases hn : slots[id.toNat]? with
  | none =>
    obtain ⟨t', hstart, ha, hs⟩ := @hrefused .unknown (by rw [hn]; rfl)
    exact ⟨_, t', hstart, ha, rfl, hs⟩
  | some n =>
    cases hmove : move n with
    | error kind =>
      obtain ⟨t', hstart, ha, hs⟩ := @hrefused kind (by rw [hn, Option.elim_some, hmove])
      refine ⟨_, t', hstart, ha, ?_⟩
      dsimp only
      rw [hmove]
      exact ⟨rfl, hs⟩
    | ok done =>
      obtain ⟨a, n'⟩ := done
      obtain ⟨t', hg, ha, hs⟩ := h.spreads.onSlot hf hn hmove
      refine ⟨_, t', ((Spreads.file_gives hatt t).bind (hg.mapError _)).eq, ha, ?_⟩
      dsimp only
      rw [hmove]
      refine ⟨rfl, ?_, ?_⟩
      · rw [ha.mounted, List.length_set]
        exact hs
      · rw [List.length_set]
        exact h.ids

/-- A new operation over pages like those of another one shows the same numbers. -/
theorem renew (h : Shows t file base slots) : ∃ pages, t.Shows file base pages ∧
    ∀ {mounted : Mounted} {cur : List Page}, mounted.volume.pageSize = t.mounted.volume.pageSize →
      List.Forall₂ Page.Alike pages cur → mounted.Resident file cur →
      ∀ id, Shows ⟨mounted, .fresh id⟩ file cur slots := by
  obtain ⟨⟨⟨pages, hp, hon⟩, hroom, hlimit, hfew, hcovers⟩, hids⟩ := h
  have hsizes : ∀ p ∈ pages, 12 ≤ p.size := fun p hm => by
    rw [hp.drafts.sizes p hm]
    exact Nat.le_trans (by decide) hroom
  refine ⟨pages, hp, fun hsize ha hr id => ?_⟩
  rw [← hsize] at hon hroom hlimit hfew hcovers
  exact ⟨⟨⟨_, hp.renew hsize ha hr id, hon.alike hsizes ha⟩, hroom, hlimit, hfew, hcovers⟩, hids⟩

end Shows

/-- A size map is created under a name that is free. It has no slots. -/
theorem exists_create {t : Transaction} {m : SizeMap}
    (hfree : (Transaction.fileExists m.fileName).Gives t false t)
    (hdel : t.mounted.volume.catalog.nextId ∉ t.operation.deleted)
    (hdraft : ∀ i, t.operation.draft? t.mounted.volume.catalog.nextId i = none)
    (hroom : 64 ≤ t.mounted.volume.pageSize) (hlimit : t.mounted.volume.pageSize ≤ 65536) :
    ∃ t', m.create.Gives t (m.attached t.mounted.volume.catalog.nextId) t' ∧
      Transaction.Alters t.mounted.volume.catalog.nextId (t.withFile m.fileName) t' ∧
      Shows t' t.mounted.volume.catalog.nextId [] [] := by
  set file := t.mounted.volume.catalog.nextId with hfile
  have hnone : (t.withFile m.fileName).Shows file [] [] :=
    ⟨.inl ⟨by simp [Transaction.withFile, hfile], rfl⟩, .created _ hdel hdraft _⟩
  obtain ⟨t₂, hg₂, ha₂, hs₂⟩ := hnone.addPage (by decide)
  replace hg₂ : (Transaction.addPage file).Gives _ 0 t₂ := hg₂
  have hsize : (Page.zero (t.withFile m.fileName).mounted.volume.pageSize).size =
      t.mounted.volume.pageSize := Page.size_zero _
  obtain ⟨hins, hentry⟩ := EntryPoint.inPage_format
    (.zero (t.withFile m.fileName).mounted.volume.pageSize) (by omega)
  obtain ⟨t₃, hg₃, ha₃, hs₃⟩ := hs₂.writePage (i := 0) rfl hins
  have ha := ha₂.trans ha₃
  have hpage : t₃.mounted.volume.pageSize = t.mounted.volume.pageSize := by
    rw [ha.mounted]
    rfl
  have hneeded : Bucket.needed (Bucket.capacity t₃.mounted.volume.pageSize) 0 = 0 := by
    have : 0 < Bucket.capacity t₃.mounted.volume.pageSize := by
      rw [hpage, Bucket.capacity]
      omega
    exact Nat.div_eq_of_lt (by omega)
  refine ⟨t₃, Task.Gives.mapError _ ?_, ha, ⟨?_, Nat.zero_le _⟩⟩
  · exact (Transaction.addFile_free hfree).embed.bind
      (hg₂.embed.bind (hg₃.embed.bind (.pure _ t₃)))
  · rw [List.length_nil, hneeded]
    exact ⟨⟨_, hs₃, rfl, ⟨_, rfl, hentry⟩, by simp⟩, by omega, by omega, by decide, Nat.zero_le _⟩

/-- A size map is created only under a name that is free. -/
theorem create_gives {t t' : Transaction} {m made : SizeMap} (h : m.create.Gives t made t') :
    (Transaction.fileExists m.fileName).Gives t false t := by
  obtain ⟨_, _, h₁, -⟩ := Task.bind_gives (Task.mapError_gives h)
  exact Transaction.addFile_gives (Task.embed_gives h₁)

end SizeMap

end RefStore
