import RefStore.Proofs.Maps
import RefStore.Proofs.Places
import RefStore.Proofs.Tasks
import RefStore.Storage.Volume

/-!
# Files that are not touched

Making, removing and renaming files, and writing to them, leaves the bytes of any other file that is
open, whatever its name has become. Only success counts here, and no name is ruled out. Main statement:
`Catalog.save_leaving`.
-/

namespace RefStore

namespace Contents

variable {c : Contents} {offset length i : Nat} {w : ByteArray}

theorem getElem?_resize (h : i < length) (hi : i < c.size) :
    (c.resize length).toList[i]? = c.toList[i]? := by
  have hlen : i < (c.toList.take length).length := by
    rw [List.length_take, length_toList]
    omega
  rw [toList_resize, List.getElem?_append_left hlen, List.getElem?_take_of_lt h]

/-- Bytes before and after those that are written stay. -/
theorem getElem?_overwrite (hi : i < c.size) (h : i < offset ∨ offset + w.size ≤ i) :
    (c.overwrite offset w).toList[i]? = c.toList[i]? := by
  by_cases hw : w.size = 0
  · rw [overwrite_of_size_eq_zero _ _ _ hw]
  rw [toList_overwrite _ _ _ hw]
  have hfront : (c.toList.take offset ++ List.replicate (offset - c.size) 0).length = offset := by
    rw [List.length_append, List.length_take, List.length_replicate, length_toList]
    omega
  rcases h with h | h
  · rw [List.getElem?_append_left (by rw [List.length_append]; omega),
      List.getElem?_append_left (by omega),
      List.getElem?_append_left (by rw [List.length_take, length_toList]; omega),
      List.getElem?_take_of_lt h]
  · have hwl : (Block.toList w).length = w.size := rfl
    rw [List.getElem?_append_right (by rw [List.length_append]; omega), List.getElem?_drop,
      List.length_append, hfront, hwl]
    congr 1
    omega

/-- So they do if the file is made longer first. -/
theorem getElem?_overwrite_resize {long : Prop} [Decidable long] {b : UInt8} (hb : c.toList[i]? = some b)
    (hgrow : ¬ long → i < length) (h : i < offset ∨ offset + w.size ≤ i) :
    ((if long then c else c.resize length).overwrite offset w).toList[i]? = some b := by
  have hi := (List.getElem?_eq_some_iff.mp hb).1
  rw [length_toList] at hi
  split
  · rw [getElem?_overwrite hi h]
    exact hb
  · next hlong =>
    have hkept := (getElem?_resize (hgrow hlong) hi).trans hb
    have hi' := (List.getElem?_eq_some_iff.mp hkept).1
    rw [length_toList] at hi'
    rw [getElem?_overwrite hi' h]
    exact hkept

end Contents

namespace Disk

variable {d d' d'' : Disk} {n k : Nat}

/-- Another disk, on which a file has the bytes that it had and no other places. -/
structure Leaves (n : Nat) (d d' : Disk) : Prop where
  next : d.nextNode ≤ d'.nextNode
  content : d'.content n = d.content n
  entry : ∀ place e, d'.entryAt? place = some e → e = .directory ∨ e = .file n →
    d.entryAt? place = some e

namespace Leaves

theorem refl (n : Nat) (d : Disk) : Leaves n d d := ⟨Nat.le_refl _, rfl, fun _ _ h _ => h⟩

theorem trans (h : Leaves n d d') (h' : Leaves n d' d'') : Leaves n d d'' where
  next := Nat.le_trans h.next h'.next
  content := h'.content.trans h.content
  entry place e he hk := h.entry place e (h'.entry place e he hk) hk

theorem lookup? (h : Leaves n d d') {path : Path} (hl : d'.lookup? path = some (.file n)) :
    d.lookup? path = some (.file n) := by
  rw [Disk.lookup?] at hl ⊢
  cases hr : d'.resolve path with
  | error e =>
    rw [hr] at hl
    cases hl
  | ok place =>
    rw [hr] at hl
    rw [resolve_mono hr fun q hq => h.entry q _ hq (.inl rfl)]
    exact h.entry place _ hl (.inr rfl)

end Leaves

/-- A call that neither writes to a file nor gives it a name. -/
def Spares (n : Nat) (d : Disk) : DiskCall → Prop
  | .addDirectory _ => False
  | .addFile _ => n ≠ d.nextNode
  | .setLength k _ | .write k _ _ | .rename _ _ k => n ≠ k
  | .remove _ | .sync _ => True

theorem content_insert (d : Disk) (c : Contents) (h : n ≠ k) :
    (d.contents.insert k c).getD n .empty = d.content n := by
  rw [Std.TreeMap.getD_insert, if_neg (by simpa using Ne.symm h)]
  rfl

theorem effect_leaves {call : DiskCall} (h : Spares n d call) : Leaves n d (d.effect call) := by
  -- the root has no entry of its own
  have hplace {d₁ : Disk} (hentry : ∀ (place : Location) (e : DiskEntry), d₁.entries[place]? = some e →
      e = .directory ∨ e = .file n → d.entries[place]? = some e) (place : Location) (e : DiskEntry)
      (hp : d₁.entryAt? place = some e) (he : e = .directory ∨ e = .file n) : d.entryAt? place = some e := by
    rw [entryAt?] at hp ⊢
    split at hp
    · next hnil => rw [if_pos hnil, hp]
    · next hne => rw [if_neg hne, hentry place e hp he]
  have hnew {k : Nat} {e : DiskEntry} (hk : n ≠ k) (he : e = .file k) : ¬ (e = .directory ∨ e = .file n) := by
    subst he
    rintro (he | he)
    · cases he
    · exact hk (DiskEntry.file.inj he).symm
  cases call with
  | addDirectory place => cases h
  | addFile place =>
    refine ⟨Nat.le_succ _, content_insert d _ h, hplace fun q e hq he => ?_⟩
    rcases lookup_insert_eq_some.mp hq with ⟨-, hfile⟩ | ⟨-, hq⟩
    · exact absurd he (hnew h hfile)
    · exact hq
  | setLength k length => exact ⟨Nat.le_refl _, content_insert d _ h, hplace fun _ _ hq _ => hq⟩
  | write k offset bytes => exact ⟨Nat.le_refl _, content_insert d _ h, hplace fun _ _ hq _ => hq⟩
  | remove place => exact ⟨Nat.le_refl _, rfl, hplace fun _ _ hq _ => (lookup_erase_eq_some.mp hq).2⟩
  | rename source target k =>
    refine ⟨Nat.le_refl _, rfl, hplace fun q e hq he => ?_⟩
    rcases lookup_insert_eq_some.mp hq with ⟨-, hfile⟩ | ⟨-, hq⟩
    · exact absurd he (hnew h hfile)
    · exact (lookup_erase_eq_some.mp hq).2
  | sync k => exact .refl n d

theorem perform_gives {call : DiskCall} {u : Unit} (h : (perform call).Gives d u d') :
    d'.entries = (d.effect call).entries ∧ d'.contents = (d.effect call).contents ∧
      d'.nextNode = (d.effect call).nextNode := by
  rw [Task.Gives, perform, Task.start_ofStep] at h
  split at h
  · obtain ⟨-, rfl⟩ := Prod.mk.inj h
    exact ⟨rfl, rfl, rfl⟩
  · obtain ⟨-, rfl⟩ := Prod.mk.inj h
    exact ⟨rfl, rfl, rfl⟩
  · cases h

theorem perform_leaves {call : DiskCall} {u : Unit} (h : (perform call).Gives d u d')
    (hs : Spares n d call) : Leaves n d d' := by
  obtain ⟨he, hc, hn⟩ := perform_gives h
  obtain ⟨hnext, hcontent, hentry⟩ := effect_leaves hs
  refine ⟨by rw [hn]; exact hnext, by rw [content, hc]; exact hcontent, fun q e hq hk => ?_⟩
  exact hentry q e (by rw [entryAt?, he] at hq; exact hq) hk

/-- Looking something up does not change the disk. -/
theorem locate_gives {path : Path} {r : Location × Option DiskEntry}
    (h : (locate path).Gives d r d') : d = d' ∧ d.resolve path = .ok r.1 ∧ r.2 = d.entryAt? r.1 := by
  obtain ⟨_, _, h₁, h⟩ := Task.bind_gives h
  obtain ⟨rfl, rfl⟩ := (Task.Gives.state d).unique h₁
  obtain ⟨_, _, h₂, h⟩ := Task.bind_gives h
  obtain ⟨hr, rfl⟩ := Task.gives_ofChecked h₂
  obtain ⟨rfl, rfl⟩ := Task.gives_pure h
  exact ⟨rfl, hr, rfl⟩

theorem locateFile_gives {path : Path} {r : Location × Nat} (h : (locateFile path).Gives d r d') :
    d = d' ∧ d.lookup? path = some (.file r.2) := by
  obtain ⟨⟨place, e⟩, _, h₁, h⟩ := Task.bind_gives h
  obtain ⟨rfl, hr, he⟩ := locate_gives h₁
  cases e with
  | none => exact absurd h Task.not_gives_refuse
  | some e =>
    cases e with
    | directory => exact absurd h Task.not_gives_refuse
    | file k =>
      obtain ⟨rfl, rfl⟩ := Task.gives_pure h
      exact ⟨rfl, by rw [lookup?, hr]; exact he.symm⟩

theorem exists_gives {path : Path} {b : Bool} (h : (Disk.exists? path).Gives d b d') : d = d' := by
  obtain ⟨_, _, h₁, h⟩ := Task.bind_gives h
  obtain ⟨rfl, rfl⟩ := (Task.Gives.state d).unique h₁
  exact (Task.gives_pure h).2.symm

theorem openFile_gives {path : Path} (h : (openFile path).Gives d k d') :
    d = d' ∧ d.lookup? path = some (.file k) := by
  obtain ⟨r, _, h₁, h⟩ := Task.bind_gives h
  obtain ⟨rfl, hl⟩ := locateFile_gives h₁
  obtain ⟨rfl, rfl⟩ := Task.gives_pure h
  exact ⟨rfl, hl⟩

/-- A new file gets a node of its own. -/
theorem createFile_performs {path : Path} (h : (createFile path).Gives d k d') :
    k = d.nextNode ∧ ∃ place, (perform (.addFile place)).Gives d () d' := by
  obtain ⟨place, d₁, h₁, h⟩ := Task.bind_gives h
  obtain rfl : d = d₁ := by
    obtain ⟨⟨p, e⟩, _, h₂, h₃⟩ := Task.bind_gives h₁
    obtain ⟨rfl, -⟩ := locate_gives h₂
    cases e with
    | none => exact (Task.gives_pure h₃).2.symm
    | some e => exact absurd h₃ Task.not_gives_refuse
  obtain ⟨_, _, h₂, h⟩ := Task.bind_gives h
  obtain ⟨rfl, rfl⟩ := (Task.Gives.state _).unique h₂
  obtain ⟨_, d₂, h₃, h⟩ := Task.bind_gives h
  obtain ⟨rfl, rfl⟩ := Task.gives_pure h
  exact ⟨rfl, place, h₃⟩

theorem createFile_gives {path : Path} (h : (createFile path).Gives d k d') :
    k = d.nextNode ∧ d'.nextNode = d.nextNode + 1 ∧ ∀ n ≠ d.nextNode, Leaves n d d' := by
  obtain ⟨rfl, place, hp⟩ := createFile_performs h
  exact ⟨rfl, (perform_gives hp).2.2, fun n hn => perform_leaves hp hn⟩

theorem createFile_empty {path : Path} (h : (createFile path).Gives d k d') : d'.content k = .empty := by
  obtain ⟨rfl, place, hp⟩ := createFile_performs h
  rw [content, (perform_gives hp).2.1, effect]
  exact Std.TreeMap.getD_insert_self

theorem removeFile_leaves {path : Path} {u : Unit} (h : (removeFile path).Gives d u d') (n : Nat) :
    Leaves n d d' := by
  obtain ⟨r, _, h₁, h⟩ := Task.bind_gives h
  obtain ⟨rfl, -⟩ := locateFile_gives h₁
  exact perform_leaves h trivial

/-- Another disk, on which only the contents of one file are others. -/
structure Rewrites (k : Nat) (c : Contents) (d d' : Disk) : Prop where
  entries : d'.entries = d.entries
  next : d'.nextNode = d.nextNode
  content : ∀ n, d'.content n = if n = k then c else d.content n

namespace Rewrites

variable {c c' : Contents}

theorem trans (h : Rewrites k c d d') (h' : Rewrites k c' d' d'') : Rewrites k c' d d'' where
  entries := h'.entries.trans h.entries
  next := h'.next.trans h.next
  content n := by
    rw [h'.content, h.content]
    split
    · rfl
    · rfl

theorem self (h : Rewrites k c d d') : d'.content k = c := by rw [h.content, if_pos rfl]

theorem entryAt? (h : Rewrites k c d d') (place : Location) : d'.entryAt? place = d.entryAt? place := by
  rw [Disk.entryAt?, Disk.entryAt?, h.entries]

theorem leaves (h : Rewrites k c d d') (hn : n ≠ k) : Leaves n d d' where
  next := Nat.le_of_eq h.next.symm
  content := by rw [h.content, if_neg hn]
  entry place e he _ := h.entryAt? place ▸ he

theorem lookup? (h : Rewrites k c d d') {path : Path} {e : DiskEntry} (hl : d'.lookup? path = some e) :
    d.lookup? path = some e := by
  rw [Disk.lookup?] at hl ⊢
  cases hr : d'.resolve path with
  | error e =>
    rw [hr] at hl
    cases hl
  | ok place =>
    rw [hr] at hl
    rw [resolve_mono hr fun q hq => h.entryAt? q ▸ hq]
    exact (h.entryAt? place).symm.trans hl

end Rewrites

theorem Rewrites.refl (k : Nat) (d : Disk) : Rewrites k (d.content k) d d := by
  refine ⟨rfl, rfl, fun n => ?_⟩
  split
  · next he => rw [he]
  · rfl

theorem Rewrites.outage {c : Contents} (h : Rewrites k c d d') (o : Option Outage) :
    Rewrites k c d { d' with outage := o } := ⟨h.entries, h.next, h.content⟩

/-- A call that writes to one file at most. -/
def Only (k : Nat) : DiskCall → Prop
  | .setLength n _ | .write n _ _ => n = k
  | .sync _ => True
  | .addDirectory _ | .addFile _ | .remove _ | .rename .. => False

theorem effect_rewrites {call : DiskCall} (h : Only k call) (d : Disk) :
    ∃ c, Rewrites k c d (d.effect call) := by
  have hinsert (c : Contents) : Rewrites k c d { d with contents := d.contents.insert k c } := by
    refine ⟨rfl, rfl, fun n => ?_⟩
    rw [content, Std.TreeMap.getD_insert]
    simp only [Std.compare_eq_iff_eq, eq_comm (a := k)]
    rfl
  cases call with
  | setLength n length =>
    obtain rfl : n = k := h
    exact ⟨_, hinsert _⟩
  | write n offset bytes =>
    obtain rfl : n = k := h
    exact ⟨_, hinsert _⟩
  | sync n => exact ⟨_, .refl k d⟩
  | addDirectory place => cases h
  | addFile place => cases h
  | remove place => cases h
  | rename source target n => cases h

/-- Whether it succeeds or not, such a call changes the contents of one file only. -/
theorem perform_only {call : DiskCall} (h : Only k call) (d₀ : Disk) :
    (perform call).Keeps fun d => ∃ c, Rewrites k c d₀ d := by
  rintro d ⟨c₀, hd⟩
  obtain ⟨c, hc⟩ := effect_rewrites h d
  rw [perform, Task.start_ofStep]
  split
  · exact ⟨c, hd.trans hc⟩
  · exact ⟨c, (hd.trans hc).outage _⟩
  · next bytes _ =>
    have hcut : ∃ c, Rewrites k c d₀ (d.cutEffect bytes call) := by
      rw [cutEffect.eq_def]
      split
      · next n offset block =>
        have hpart : Only k (.write n offset (block.extract 0 bytes)) := h
        obtain ⟨c, hc⟩ := effect_rewrites hpart d
        exact ⟨c, hd.trans hc⟩
      · split
        · exact ⟨c₀, hd⟩
        · exact ⟨c, hd.trans hc⟩
    obtain ⟨c, hc⟩ := hcut
    exact ⟨c, hc.outage _⟩

theorem setLength_only (k length : Nat) (d₀ : Disk) :
    (setLength k length).Keeps fun d => ∃ c, Rewrites k c d₀ d := by
  have h : Only k (.setLength k length) := rfl
  exact .guarded (.refuse _) (perform_only h d₀)

theorem writeAt_only (k offset : Nat) (bytes : ByteArray) (d₀ : Disk) :
    (writeAt k offset bytes).Keeps fun d => ∃ c, Rewrites k c d₀ d := by
  have h : Only k (.write k offset bytes) := rfl
  exact .guarded (.refuse _) (perform_only h d₀)

theorem perform_rewrites {call : DiskCall} {c : Contents} {u : Unit} (h : (perform call).Gives d u d')
    (he : d.effect call = { d with contents := d.contents.insert k c }) : Rewrites k c d d' := by
  obtain ⟨hentries, hcontents, hnext⟩ := perform_gives h
  rw [he] at hentries hcontents hnext
  refine ⟨hentries, hnext, fun n => ?_⟩
  rw [content, hcontents, Std.TreeMap.getD_insert]
  simp only [Std.compare_eq_iff_eq, eq_comm (a := k)]
  rfl

theorem setLength_rewrites {length : Nat} {u : Unit} (h : (setLength k length).Gives d u d') :
    Rewrites k ((d.content k).resize length) d d' := by
  rw [setLength] at h
  split at h
  · obtain ⟨_, _, h₁, -⟩ := Task.bind_gives h
    exact absurd h₁ Task.not_gives_refuse
  · exact perform_rewrites h rfl

theorem writeAt_rewrites {offset : Nat} {bytes : ByteArray} {u : Unit}
    (h : (writeAt k offset bytes).Gives d u d') :
    Rewrites k ((d.content k).overwrite offset bytes) d d' := by
  rw [writeAt] at h
  split at h
  · obtain ⟨_, _, h₁, -⟩ := Task.bind_gives h
    exact absurd h₁ Task.not_gives_refuse
  · exact perform_rewrites h rfl

theorem sync_leaves {u : Unit} (h : (Disk.sync k).Gives d u d') (n : Nat) : Leaves n d d' :=
  perform_leaves h trivial

/-- The file that is made or cleared under a name is not one that stands under other names only. -/
theorem createOrClear_leaves {path : Path} (hn : n < d.nextNode)
    (hp : d.lookup? path ≠ some (.file n)) (h : (createOrClear path).Gives d k d') :
    n ≠ k ∧ Leaves n d d' := by
  obtain ⟨known, _, h₁, h⟩ := Task.bind_gives h
  obtain rfl := exists_gives h₁
  obtain ⟨k', d₁, h₂, h⟩ := Task.bind_gives h
  have hopen : n ≠ k' ∧ Leaves n d d₁ := by
    obtain ⟨b, _, h₃, h₄⟩ := Task.bind_gives h₂
    obtain rfl := exists_gives h₃
    cases b with
    | true =>
      obtain ⟨rfl, hl⟩ := openFile_gives h₄
      exact ⟨fun he => hp (he ▸ hl), .refl n d⟩
    | false =>
      obtain ⟨rfl, -, hleaves⟩ := createFile_gives h₄
      exact ⟨Nat.ne_of_lt hn, hleaves n (Nat.ne_of_lt hn)⟩
  dsimp only at h
  cases known with
  | false =>
    obtain ⟨rfl, rfl⟩ := Task.gives_pure h
    exact hopen
  | true =>
    obtain ⟨_, d₂, h₃, h⟩ := Task.bind_gives h
    obtain ⟨rfl, rfl⟩ := Task.gives_pure h
    exact ⟨hopen.1, hopen.2.trans ((setLength_rewrites h₃).leaves hopen.1)⟩

section

/-- A disk that has handed out nodes up to some number. -/
def Reaches (k : Nat) (d : Disk) : Prop := k ≤ d.nextNode

theorem perform_keeps (call : DiskCall) : (perform call).Keeps (Reaches k) := by
  have heffect (d : Disk) (call : DiskCall) (h : Reaches k d) : Reaches k (d.effect call) := by
    cases call with
    | addFile place => exact Nat.le_succ_of_le h
    | _ => exact h
  intro d hd
  rw [perform, Task.start_ofStep]
  split
  · exact heffect d call hd
  · exact heffect d call hd
  · show Reaches k (d.cutEffect _ call)
    rw [cutEffect.eq_def]
    split
    · exact heffect d _ hd
    · split
      · exact hd
      · exact heffect d call hd

variable (P : Disk → Prop) (path : Path)

theorem locate_keeps : (locate path).Keeps P := .bind .state fun _ => .bind (.ofChecked _) fun _ => .pure _

theorem exists_keeps : (Disk.exists? path).Keeps P := .bind .state fun _ => .pure _

theorem locateFile_keeps : (locateFile path).Keeps P := by
  refine .bind (locate_keeps P path) fun r => ?_
  rcases r with ⟨place, _ | _ | k⟩
  · exact .refuse _
  · exact .refuse _
  · exact .pure _

theorem locateNew_keeps : (locateNew path).Keeps P := by
  refine .bind (locate_keeps P path) fun r => ?_
  rcases r with ⟨place, _ | e⟩
  · exact .pure _
  · exact .refuse _

theorem createFile_keeps : (createFile path).Keeps (Reaches k) :=
  .bind (locateNew_keeps _ path) fun _ => .bind .state fun _ => .bind (perform_keeps _) fun _ => .pure _

theorem removeFile_keeps : (removeFile path).Keeps (Reaches k) :=
  .bind (locateFile_keeps _ path) fun _ => perform_keeps _

theorem setLength_keeps (n length : Nat) : (setLength n length).Keeps (Reaches k) :=
  .guarded (.refuse _) (perform_keeps _)

theorem writeAt_keeps (n offset : Nat) (bytes : ByteArray) :
    (writeAt n offset bytes).Keeps (Reaches k) := .guarded (.refuse _) (perform_keeps _)

theorem createOrClear_keeps : (createOrClear path).Keeps (Reaches k) := by
  refine .bind (exists_keeps _ path) fun known => .bind ?_ fun n => ?_
  · refine .bind (exists_keeps _ path) fun b => ?_
    cases b with
    | true => exact .bind (locateFile_keeps _ path) fun _ => .pure _
    | false => exact createFile_keeps path
  · cases known with
    | true => exact .bind (setLength_keeps n 0) fun _ => .pure _
    | false => exact .pure _

theorem renameFile_keeps (target : Path) : (renameFile path target).Keeps (Reaches k) :=
  .bind (locateFile_keeps _ path) fun _ => .bind (locate_keeps _ target) fun _ =>
    .guarded (.refuse _) (perform_keeps _)

end

/-- Another disk, on which files have their bytes unless they are written to or stand in the place of a
temporary file. -/
structure Leaving (temporary : Path) (written : Option Nat) (d d' : Disk) : Prop where
  next : d.nextNode ≤ d'.nextNode
  leaves : ∀ n < d.nextNode, written ≠ some n → d.lookup? temporary ≠ some (.file n) → Leaves n d d'

namespace Leaving

variable {temporary : Path} {written : Option Nat}

theorem refl (temporary : Path) (written : Option Nat) (d : Disk) : Leaving temporary written d d :=
  ⟨Nat.le_refl _, fun n _ _ _ => .refl n d⟩

theorem trans (h : Leaving temporary written d d') (h' : Leaving temporary written d' d'') :
    Leaving temporary written d d'' where
  next := Nat.le_trans h.next h'.next
  leaves n hn hw hp := by
    have hl := h.leaves n hn hw hp
    exact hl.trans (h'.leaves n (Nat.lt_of_lt_of_le hn h.next) hw fun hlook => hp (hl.lookup? hlook))

theorem ofRewrites {c : Contents} (h : Rewrites k c d d') (temporary : Path) :
    Leaving temporary (some k) d d' :=
  ⟨Nat.le_of_eq h.next.symm, fun _ _ hw _ => h.leaves fun he => hw (by rw [he])⟩

end Leaving

end Disk

namespace PagedFile

variable {d d' : Disk}

/-- Different pages of a file have no place in common. -/
theorem place_apart {i j k size : Nat} (h : j ≠ i) (hk : k < size) :
    j * size + k < i * size ∨ i * size + size ≤ j * size + k := by
  rcases Nat.lt_or_gt_of_ne h with hlt | hgt
  · have := Nat.mul_le_mul_right size (Nat.succ_le_of_lt hlt)
    rw [Nat.succ_mul] at this
    exact .inl (by omega)
  · have := Nat.mul_le_mul_right size (Nat.succ_le_of_lt hgt)
    rw [Nat.succ_mul] at this
    exact .inr (by omega)

/-- The places of a page come before the end of any page after it. -/
theorem place_lt {i j k size : Nat} (h : j ≤ i) (hk : k < size) : j * size + k < (i + 1) * size := by
  have := Nat.mul_le_mul_right size (show j + 1 ≤ i + 1 by omega)
  rw [Nat.succ_mul] at this
  omega

/-- A new file has a node of its own and no pages. -/
theorem create_gives {path : Path} {size : Nat} {f : PagedFile}
    (h : (PagedFile.create path size).Gives d f d') :
    f = ⟨d.nextNode, path, size, 0⟩ ∧ d'.nextNode = d.nextNode + 1 ∧
      ∀ n ≠ d.nextNode, Disk.Leaves n d d' := by
  obtain ⟨known, _, h₁, h⟩ := Task.bind_gives h
  obtain rfl := Disk.exists_gives (Task.embed_gives h₁)
  cases known with
  | true =>
    obtain ⟨_, _, h₂, -⟩ := Task.bind_gives h
    exact absurd h₂ Task.not_gives_refuse
  | false =>
    obtain ⟨node, d₁, h₂, h⟩ := Task.bind_gives h
    obtain ⟨rfl, rfl⟩ := Task.gives_pure h
    obtain ⟨rfl, hnext, hleaves⟩ := Disk.createFile_gives (Task.embed_gives h₂)
    exact ⟨rfl, hnext, hleaves⟩

theorem writePage_gives {f g : PagedFile} {i : PageIndex} {page : Page}
    (h : (f.writePage i page).Gives d g d') : page.size = f.pageSize ∧
      g = (if i < f.pageCount then f else { f with pageCount := i + 1 }) ∧
      Disk.Rewrites f.node
        ((if i < f.pageCount then d.content f.node
          else (d.content f.node).resize ((i.toNat + 1) * f.pageSize)).overwrite (f.offset i) page.bytes) d d' := by
  rw [PagedFile.writePage] at h
  dsimp only at h
  split at h
  · obtain ⟨_, _, h₁, -⟩ := Task.bind_gives h
    exact absurd h₁ Task.not_gives_refuse
  next hsize =>
  refine ⟨Decidable.not_not.mp hsize, ?_⟩
  split at h
  · next hi =>
    obtain ⟨_, d₁, h₁, h⟩ := Task.bind_gives h
    obtain ⟨rfl, rfl⟩ := Task.gives_pure h
    rw [if_pos hi, if_pos hi]
    exact ⟨rfl, Disk.writeAt_rewrites (Task.embed_gives h₁)⟩
  · next hi =>
    obtain ⟨length, _, h₀, h⟩ := Task.bind_gives h
    obtain ⟨hlength, rfl⟩ := Task.gives_ofChecked h₀
    obtain rfl := lengthUpTo_eq_ok hlength
    obtain ⟨_, d₁, h₁, h⟩ := Task.bind_gives h
    obtain ⟨_, d₂, h₂, h⟩ := Task.bind_gives h
    obtain ⟨rfl, rfl⟩ := Task.gives_pure h
    have hr₁ := Disk.setLength_rewrites (Task.embed_gives h₁)
    have hr₂ := Disk.writeAt_rewrites (Task.embed_gives h₂)
    rw [hr₁.self] at hr₂
    rw [if_neg hi, if_neg hi]
    exact ⟨rfl, hr₁.trans hr₂⟩

end PagedFile

/-- Saving a catalog leaves the files that are not in the place of its temporary file. -/
theorem Catalog.save_leaves {c : Catalog} {dir : Path} {d d' : Disk} {n : Nat} {u : Unit}
    (hn : n < d.nextNode) (hp : d.lookup? (dir.join temporaryName) ≠ some (.file n))
    (h : (c.save dir).Gives d u d') : Disk.Leaves n d d' := by
  obtain ⟨k, d₁, h₁, h⟩ := Task.bind_gives h
  obtain ⟨hk, hl₁⟩ := Disk.createOrClear_leaves hn hp (Task.embed_gives h₁)
  obtain ⟨_, d₂, h₂, h⟩ := Task.bind_gives h
  have hl₂ := hl₁.trans ((Disk.writeAt_rewrites (Task.embed_gives h₂)).leaves hk)
  obtain ⟨_, d₃, h₃, h⟩ := Task.bind_gives h
  have hl₃ := hl₂.trans (Disk.sync_leaves (Task.embed_gives h₃) n)
  obtain ⟨⟨old, node⟩, d₄, h₄, h⟩ := Task.bind_gives (Task.embed_gives h)
  obtain ⟨rfl, hl⟩ := Disk.locateFile_gives h₄
  obtain ⟨⟨new, entry⟩, d₅, h₅, h⟩ := Task.bind_gives h
  obtain ⟨rfl, -⟩ := Disk.locate_gives h₅
  -- the temporary file has another node, so the renaming does not concern this one
  have hnode : n ≠ node := fun he => hp (hl₃.lookup? (he ▸ hl))
  dsimp only at h
  split at h
  · obtain ⟨_, _, h₆, -⟩ := Task.bind_gives h
    exact absurd h₆ Task.not_gives_refuse
  · exact hl₃.trans (Disk.perform_leaves h hnode)

theorem Catalog.save_leaving {c : Catalog} {dir : Path} {d d' : Disk} {u : Unit}
    (h : (c.save dir).Gives d u d') : Disk.Leaving (dir.join temporaryName) none d d' where
  next := by
    have hk : (c.save dir).Keeps (Disk.Reaches d.nextNode) :=
      .bind (.embed (Disk.createOrClear_keeps _)) fun n => .bind (.embed (Disk.writeAt_keeps n _ _)) fun _ =>
        .bind (.embed (Disk.perform_keeps _)) fun _ => .embed (Disk.renameFile_keeps _ _)
    exact hk.gives h (Nat.le_refl _)
  leaves n hn _ hp := save_leaves hn hp h

/-! ## Open files of a volume -/

namespace Mounted

variable {m : Mounted} {id : FileId}

theorem openFile_known {f : OpenFile} (h : m.volume.files[id]? = some f) : (openFile id).Gives m f m := by
  refine (Task.Gives.state m).bind ?_
  rw [h]
  exact .pure f m

theorem openFile_unknown (h : m.volume.files[id]? = none) :
    (openFile id).start m = (refuse (.unknownFile id), m) := by
  rw [openFile, (Task.Gives.state m).start_bind, h]
  rfl

end Mounted

end RefStore
