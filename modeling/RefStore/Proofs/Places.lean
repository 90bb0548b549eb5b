import RefStore.Disk

/-!
# Places in a directory

A path that leads to a directory, and the place of a name in it. Where a path leads does not depend on
the files of the disk.
-/

namespace RefStore

namespace Path

/-- A name that goes one step into a directory. -/
structure Plain (name : String) : Prop where
  noSlash : '/' ∉ name.toList
  noZero : '\x00' ∉ name.toList
  moves : stays name = false
  notUp : name ≠ ".."
  short : name.utf8ByteSize ≤ longestName

theorem pieces_of_not_mem {cs : List Char} (h : '/' ∉ cs) : pieces cs = [cs] := by
  induction cs with
  | nil => rfl
  | cons c cs ih =>
    obtain ⟨hc, hcs⟩ := not_or.mp (mt List.mem_cons.mpr h)
    rw [pieces, if_neg (Ne.symm hc), ih hcs]

/-- The parts of a directory's path, without an empty one at the end. -/
def stem (dir : Path) : List String :=
  if dir.parts.getLast? = some "" then dir.parts.dropLast else dir.parts

theorem join_of_noSlash (dir : Path) {name : String} (h : '/' ∉ name.toList) :
    dir.join name = ⟨dir.stem ++ [name]⟩ := by
  have hhead : name.toList.head? ≠ some '/' := fun he => h (List.mem_of_mem_head? he)
  have hparts : (ofText name).parts = [name] := by
    simp [ofText, pieces_of_not_mem h]
  rw [join, if_neg hhead, hparts]
  rfl

theorem join_eq (dir : Path) {name : String} (h : Plain name) :
    dir.join name = ⟨dir.stem ++ [name]⟩ := join_of_noSlash dir h.noSlash

theorem text_append {a b : List String} (ha : a ≠ []) (hb : b ≠ []) :
    (⟨a ++ b⟩ : Path).text = (⟨a⟩ : Path).text ++ "/" ++ (⟨b⟩ : Path).text :=
  String.intercalate_append_of_ne_nil ha hb

theorem isUsable_iff (path : Path) : path.isUsable = true ↔
    path.text.utf8ByteSize ≤ longestText ∧ '\x00' ∉ path.text.toList := by
  simp [isUsable]

/-- A shorter name in the same directory makes a usable path if a longer one does. -/
theorem isUsable_join {dir : Path} {name other : String} (h : (dir.join name).isUsable = true)
    (hn : Plain name) (ho : Plain other) (hle : other.utf8ByteSize ≤ name.utf8ByteSize) :
    (dir.join other).isUsable = true := by
  rw [join_eq dir hn, isUsable_iff] at h
  rw [join_eq dir ho, isUsable_iff]
  by_cases hs : dir.stem = []
  · rw [hs, List.nil_append, text, String.intercalate_singleton] at h ⊢
    exact ⟨Nat.le_trans hle h.1, ho.noZero⟩
  · rw [text_append hs (List.cons_ne_nil _ _)] at h ⊢
    simp only [text, String.intercalate_singleton, String.utf8ByteSize_append, String.toList_append,
      List.mem_append, not_or] at h ⊢
    exact ⟨by omega, h.2.1, ho.noZero⟩

theorem isUsable_take {path : Path} (h : path.isUsable = true) (n : Nat) :
    (⟨path.parts.take n⟩ : Path).isUsable = true := by
  by_cases ha : path.parts.take n = []
  · rw [ha]
    decide
  by_cases hb : path.parts.drop n = []
  · rwa [← List.append_nil (path.parts.take n), ← hb, List.take_append_drop]
  have ht : path.text = _ := congrArg (fun parts => (⟨parts⟩ : Path).text)
    (List.take_append_drop n path.parts).symm |>.trans (text_append ha hb)
  rw [isUsable_iff, ht] at h
  simp only [String.utf8ByteSize_append, String.toList_append, List.mem_append, not_or] at h
  rw [isUsable_iff]
  exact ⟨by omega, h.2.1.1⟩

end Path

namespace Disk

variable {d d' : Disk} {dir : Path} {place : Location} {name : String}

/-- A path leads to a directory. -/
structure Leads (d : Disk) (dir : Path) (place : Location) : Prop where
  resolve : d.resolve dir = .ok place
  directory : d.entryAt? place = some .directory

theorem follow_stays {part : String} (hd : d.entryAt? place = some .directory)
    (h : Path.stays part = true) : d.follow place part = .ok place := by
  rw [follow, hd]
  exact if_pos h

theorem entryAt?_of_follow {place' : Location} {part : String} (h : d.follow place part = .ok place') :
    d.entryAt? place = some .directory := by
  rw [follow] at h
  split at h
  · cases h
  · cases h
  · next hd => exact hd

theorem Leads.usable (h : d.Leads dir place) : dir.isUsable = true := by
  have := h.resolve
  rw [Disk.resolve] at this
  split at this
  · assumption
  · cases this

theorem Leads.follows (h : d.Leads dir place) : dir.parts.foldlM d.follow [] = .ok place := by
  have := h.resolve
  rwa [Disk.resolve, if_pos h.usable] at this

/-- Every path on the way leads to a directory. -/
theorem Leads.take (h : d.Leads dir place) (n : Nat) :
    ∃ place', d.Leads ⟨dir.parts.take n⟩ place' := by
  have hf := h.follows
  rw [← List.take_append_drop n dir.parts, List.foldlM_append] at hf
  cases hp : (dir.parts.take n).foldlM d.follow [] with
  | error e => rw [hp] at hf; cases hf
  | ok place' =>
    refine ⟨place', by rw [Disk.resolve, if_pos (Path.isUsable_take h.usable n), hp], ?_⟩
    replace hf : (dir.parts.drop n).foldlM d.follow place' = .ok place := by
      rw [hp] at hf
      exact hf
    cases hd : dir.parts.drop n with
    | nil =>
      rw [hd] at hf
      cases hf
      exact h.directory
    | cons part rest =>
      rw [hd, List.foldlM_cons] at hf
      cases hq : d.follow place' part with
      | error e => rw [hq] at hf; cases hf
      | ok place'' => exact entryAt?_of_follow hq

theorem Leads.stem (h : d.Leads dir place) : dir.stem.foldlM d.follow [] = .ok place := by
  rw [Path.stem]
  split
  · next hlast =>
    have hparts : dir.parts = dir.parts.dropLast ++ [""] := by
      obtain ⟨init, hi⟩ := List.getLast?_eq_some_iff.mp hlast
      rw [hi, List.dropLast_concat]
    have hf := h.follows
    rw [hparts, List.foldlM_append] at hf
    cases hp : dir.parts.dropLast.foldlM d.follow [] with
    | error e => rw [hp] at hf; cases hf
    | ok place' =>
      replace hf : d.follow place' "" = .ok place := by
        rw [hp] at hf
        exact (bind_pure _).symm.trans hf
      rw [follow_stays (entryAt?_of_follow hf) (by decide)] at hf
      exact hf
  · exact h.follows

theorem Leads.join (h : d.Leads dir place) (hn : Path.Plain name)
    (hu : (dir.join name).isUsable = true) : d.resolve (dir.join name) = .ok (place ++ [name]) := by
  rw [Disk.resolve, if_pos hu, Path.join_eq dir hn, List.foldlM_append, h.stem]
  have hf : d.follow place name = .ok (place ++ [name]) := by
    rw [follow, h.directory]
    simp only [hn.moves, Bool.false_eq_true, if_false, if_neg hn.notUp,
      if_neg (Nat.not_lt.mpr hn.short)]
  simp [Except.bind, bind, hf, pure, Except.pure]

/-- Paths keep leading where they led while no directory is lost. -/
theorem resolve_mono {path : Path} (h : d.resolve path = .ok place)
    (hd : ∀ q, d.entryAt? q = some .directory → d'.entryAt? q = some .directory) :
    d'.resolve path = .ok place := by
  have hfollow : ∀ {q q' part}, d.follow q part = .ok q' → d'.follow q part = .ok q' := by
    intro q q' part hq
    have hdir := entryAt?_of_follow hq
    rw [follow, hdir] at hq
    rw [follow, hd q hdir]
    exact hq
  have hfold : ∀ (parts : List String) q q', parts.foldlM d.follow q = .ok q' →
      parts.foldlM d'.follow q = .ok q' := by
    intro parts
    induction parts with
    | nil => exact fun q q' hq => hq
    | cons part parts ih =>
      intro q q' hq
      rw [List.foldlM_cons] at hq ⊢
      cases hp : d.follow q part with
      | error e => rw [hp] at hq; cases hq
      | ok q'' =>
        rw [hp] at hq
        rw [hfollow hp]
        exact ih q'' q' hq
  rw [resolve] at h ⊢
  split at h
  · next hu => exact (if_pos hu).trans (hfold _ _ _ h)
  · cases h

theorem Leads.mono (h : d.Leads dir place)
    (hd : ∀ q, d.entryAt? q = some .directory → d'.entryAt? q = some .directory) :
    d'.Leads dir place :=
  ⟨resolve_mono h.resolve hd, hd place h.directory⟩

theorem isDirectory_of_leads (h : d.Leads dir place) : d.isDirectory dir = true := by
  rw [isDirectory, lookup?, h.resolve]
  exact decide_eq_true h.directory

theorem leads_chain (h : d.Leads dir place) {stage : Path} (hs : stage ∈ dir.chain) :
    d.isDirectory stage = true := by
  rcases List.mem_append.mp hs with hs | hs
  · obtain ⟨i, -, rfl⟩ := List.mem_map.mp (List.dropLast_subset _ hs)
    obtain ⟨place', hp⟩ := h.take (i + 1)
    exact isDirectory_of_leads hp
  · obtain rfl := List.mem_singleton.mp hs
    exact isDirectory_of_leads h

end Disk

end RefStore
