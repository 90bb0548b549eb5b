import RefStore.Proofs.Maps
import RefStore.Proofs.Outages
import RefStore.Proofs.Places

/-!
# Files of a directory

What stands under a name in a directory that holds files only, how the calls of a disk change it, and
what becomes of tasks on one file when the disk fails. Other names keep their files and bytes.
-/

namespace RefStore

/-- A name for which there is room in the directory's path. -/
structure Path.Fits (dir : Path) (name : String) : Prop where
  plain : Plain name
  usable : (dir.join name).isUsable = true

namespace Disk

/-- No two places have the same file, and every file has a node that was handed out. -/
structure Sound (d : Disk) : Prop where
  lt : ∀ {q : Location} {n}, d.entries[q]? = some (.file n) → n < d.nextNode
  inj : ∀ {q q' : Location} {n},
    d.entries[q]? = some (.file n) → d.entries[q']? = some (.file n) → q = q'

theorem sound_empty : empty.Sound := ⟨by simp [empty], by simp [empty]⟩

/-- A path leads to a directory that holds files only. -/
structure Houses (d : Disk) (dir : Path) (place : Location) : Prop extends d.Sound, d.Leads dir place where
  files : ∀ name, d.entries[place ++ [name]]? ≠ some .directory

def node? (d : Disk) (place : Location) (name : String) : Option Nat :=
  match d.entries[place ++ [name]]? with
  | some (.file n) => some n
  | _ => none

def bytes? (d : Disk) (place : Location) (name : String) : Option (List UInt8) :=
  (d.node? place name).map fun n => (d.content n).toList

/-- The disk with other contents in a node. -/
def store (d : Disk) (n : Nat) (c : Contents) : Disk := { d with contents := d.contents.insert n c }

variable {d : Disk} {dir : Path} {place : Location} {name target x : String} {n : Nat}

theorem entryAt?_append (d : Disk) (place : Location) (name : String) :
    d.entryAt? (place ++ [name]) = d.entries[place ++ [name]]? := by
  rw [entryAt?, if_neg (by simp)]

theorem entries_of_node? (h : d.node? place name = some n) :
    d.entries[place ++ [name]]? = some (.file n) := by
  rw [node?] at h
  split at h
  · next he => rw [he, Option.some.inj h]
  · cases h

theorem Houses.entries_eq (h : d.Houses dir place) (name : String) :
    d.entries[place ++ [name]]? = (d.node? place name).map .file := by
  rw [node?]
  split
  · next he => exact he
  · next hno =>
    cases he : d.entries[place ++ [name]]? with
    | none => rfl
    | some e =>
      cases e with
      | directory => exact absurd he (h.files name)
      | file n => exact absurd he (hno n)

theorem content_store (d : Disk) (n m : Nat) (c : Contents) :
    (d.store n c).content m = if n = m then c else d.content m := by
  rw [content, store, Std.TreeMap.getD_insert]
  simp only [Std.compare_eq_iff_eq]
  rfl

theorem Houses.node_ne (h : d.Houses dir place) (hn : d.node? place name = some n) {m : Nat}
    (hx : d.node? place x = some m) (hne : x ≠ name) : n ≠ m := by
  rintro rfl
  have := h.inj (entries_of_node? hn) (entries_of_node? hx)
  simp at this
  exact hne this.symm

theorem bytes?_store (h : d.Houses dir place) (hn : d.node? place name = some n) (c : Contents)
    (x : String) :
    (d.store n c).bytes? place x = if x = name then some c.toList else d.bytes? place x := by
  have hnode : (d.store n c).node? place x = d.node? place x := rfl
  rw [bytes?, hnode]
  split
  · next hx =>
    subst hx
    rw [hn, Option.map_some, content_store, if_pos rfl]
  · next hx =>
    rw [bytes?]
    cases hm : d.node? place x with
    | none => rfl
    | some m => rw [Option.map_some, Option.map_some, content_store, if_neg (h.node_ne hn hm hx)]

theorem Houses.store (h : d.Houses dir place) (n : Nat) (c : Contents) :
    (d.store n c).Houses dir place where
  lt := h.lt
  inj := h.inj
  resolve := (show (d.store n c).Leads dir place from h.toLeads.mono fun _ hq => hq).resolve
  directory := h.directory
  files := h.files

section addFile

theorem entries_addFile (d : Disk) (p q : Location) : (d.effect (.addFile p)).entries[q]? =
    if q = p then some (.file d.nextNode) else d.entries[q]? := lookup_insert ..

theorem node?_addFile (d : Disk) (place : Location) (name x : String) :
    (d.effect (.addFile (place ++ [name]))).node? place x =
      if x = name then some d.nextNode else d.node? place x := by
  rw [node?, entries_addFile]
  by_cases hx : x = name
  · rw [if_pos (by rw [hx]), if_pos hx]
  · rw [if_neg (by simpa using hx), if_neg hx, node?]

theorem bytes?_addFile (h : d.Houses dir place) (name x : String) :
    (d.effect (.addFile (place ++ [name]))).bytes? place x =
      if x = name then some [] else d.bytes? place x := by
  rw [bytes?, node?_addFile]
  have hc (m : Nat) : (d.effect (.addFile (place ++ [name]))).content m =
      if d.nextNode = m then .empty else d.content m := content_store d d.nextNode m .empty
  split
  · rw [Option.map_some, hc, if_pos rfl]
    rfl
  · rw [bytes?]
    cases hm : d.node? place x with
    | none => rfl
    | some m =>
      have := h.lt (entries_of_node? hm)
      rw [Option.map_some, Option.map_some, hc, if_neg (by omega)]

theorem Houses.addFile (h : d.Houses dir place) (hn : d.node? place name = none) :
    (d.effect (.addFile (place ++ [name]))).Houses dir place := by
  have hnone : d.entries[place ++ [name]]? = none := by rw [h.entries_eq, hn]; rfl
  have hmono : (d.effect (.addFile (place ++ [name]))).Leads dir place := by
    refine h.toLeads.mono fun q hq => ?_
    rw [entryAt?] at hq ⊢
    split
    · rfl
    · next hne =>
      rw [if_neg hne] at hq
      rw [entries_addFile, if_neg (by rintro rfl; rw [hnone] at hq; cases hq), hq]
  refine { hmono with lt := ?_, inj := ?_, files := ?_ }
  · intro q m hq
    rw [entries_addFile] at hq
    show m < d.nextNode + 1
    split at hq
    · cases hq
      omega
    · have := h.lt hq
      omega
  · intro q q' m hq hq'
    rw [entries_addFile] at hq hq'
    split at hq <;> split at hq'
    · next h1 h2 => rw [h1, h2]
    · cases hq
      exact absurd (h.lt hq') (Nat.lt_irrefl _)
    · cases hq'
      exact absurd (h.lt hq) (Nat.lt_irrefl _)
    · exact h.inj hq hq'
  · intro x
    rw [entries_addFile]
    split
    · simp
    · exact h.files x

end addFile

section remove

theorem entries_remove (d : Disk) (p q : Location) : (d.effect (.remove p)).entries[q]? =
    if q = p then none else d.entries[q]? := lookup_erase ..

theorem node?_remove (d : Disk) (place : Location) (name x : String) :
    (d.effect (.remove (place ++ [name]))).node? place x =
      if x = name then none else d.node? place x := by
  rw [node?, entries_remove]
  by_cases hx : x = name
  · rw [if_pos (by rw [hx]), if_pos hx]
  · rw [if_neg (by simpa using hx), if_neg hx, node?]

theorem bytes?_remove (d : Disk) (place : Location) (name x : String) :
    (d.effect (.remove (place ++ [name]))).bytes? place x =
      if x = name then none else d.bytes? place x := by
  rw [bytes?, node?_remove]
  split
  · rfl
  · rfl

theorem Houses.remove (h : d.Houses dir place) (name : String) :
    (d.effect (.remove (place ++ [name]))).Houses dir place := by
  have hsub {q : Location} {e : DiskEntry}
      (hq : (d.effect (.remove (place ++ [name]))).entries[q]? = some e) : d.entries[q]? = some e := by
    rw [entries_remove] at hq
    split at hq
    · cases hq
    · exact hq
  have hmono : (d.effect (.remove (place ++ [name]))).Leads dir place := by
    refine h.toLeads.mono fun q hq => ?_
    rw [entryAt?] at hq ⊢
    split
    · rfl
    · next hne =>
      rw [if_neg hne] at hq
      rw [entries_remove, if_neg (by rintro rfl; exact h.files name hq), hq]
  exact { hmono with
    lt := fun hq => h.lt (hsub hq)
    inj := fun hq hq' => h.inj (hsub hq) (hsub hq')
    files := fun x hx => h.files x (hsub hx) }

end remove

section rename

theorem entries_rename (d : Disk) (p r q : Location) (n : Nat) :
    (d.effect (.rename p r n)).entries[q]? =
      if q = r then some (.file n) else if q = p then none else d.entries[q]? := by
  rw [effect, lookup_insert, lookup_erase]

theorem node?_rename (d : Disk) (place : Location) (name target x : String) (n : Nat) :
    (d.effect (.rename (place ++ [name]) (place ++ [target]) n)).node? place x =
      if x = target then some n else if x = name then none else d.node? place x := by
  rw [node?, entries_rename]
  by_cases ht : x = target
  · rw [if_pos (by rw [ht]), if_pos ht]
  · rw [if_neg (by simpa using ht), if_neg ht]
    by_cases hx : x = name
    · rw [if_pos (by rw [hx]), if_pos hx]
    · rw [if_neg (by simpa using hx), if_neg hx, node?]

theorem bytes?_rename (hn : d.node? place name = some n) (target x : String) :
    (d.effect (.rename (place ++ [name]) (place ++ [target]) n)).bytes? place x =
      if x = target then d.bytes? place name
      else if x = name then none else d.bytes? place x := by
  rw [bytes?, node?_rename, bytes?, hn]
  split
  · rfl
  · split
    · rfl
    · rfl

theorem Houses.rename (h : d.Houses dir place) (hn : d.node? place name = some n) (target : String) :
    (d.effect (.rename (place ++ [name]) (place ++ [target]) n)).Houses dir place := by
  have hmono : (d.effect (.rename (place ++ [name]) (place ++ [target]) n)).Leads dir place := by
    refine h.toLeads.mono fun q hq => ?_
    rw [entryAt?] at hq ⊢
    split
    · rfl
    · next hne =>
      rw [if_neg hne] at hq
      rw [entries_rename, if_neg (by rintro rfl; exact h.files target hq),
        if_neg (by rintro rfl; exact h.files name hq), hq]
  have hold {q : Location} {m : Nat}
      (hq : (d.effect (.rename (place ++ [name]) (place ++ [target]) n)).entries[q]? =
        some (.file m)) : (q = place ++ [target] ∧ m = n) ∨
          q ≠ place ++ [name] ∧ d.entries[q]? = some (.file m) := by
    rw [entries_rename] at hq
    split at hq
    · next ht =>
      cases hq
      exact .inl ⟨ht, rfl⟩
    · split at hq
      · cases hq
      · next hne => exact .inr ⟨hne, hq⟩
  have hfile := entries_of_node? hn
  refine { hmono with lt := ?_, inj := ?_, files := ?_ }
  · intro q m hq
    rcases hold hq with ⟨-, rfl⟩ | ⟨-, hq⟩
    · exact h.lt hfile
    · exact h.lt hq
  · intro q q' m hq hq'
    rcases hold hq with ⟨rfl, rfl⟩ | ⟨hne, ho⟩ <;> rcases hold hq' with ⟨rfl, hm⟩ | ⟨hne', ho'⟩
    · rfl
    · exact absurd (h.inj ho' hfile) hne'
    · exact absurd (h.inj ho (hm ▸ hfile)) hne
    · exact h.inj ho ho'
  · intro x
    rw [entries_rename]
    split
    · simp
    · split
      · simp
      · exact h.files x

end rename

end Disk

end RefStore
