import RefStore.Proofs.Directories

/-!
# Tasks on the files of a directory

What becomes of opening, creating, writing, removing and renaming a file when the disk may fail. At
every cut all other files of the directory are as before.
-/

namespace RefStore.Disk

variable {d d' d'' : Disk} {dir : Path} {place : Location} {name target x : String} {n : Nat}
  {cut : Disk → Prop}

/-- A disk that differs from another one in the file of one name only. -/
structure OnlyAt (dir : Path) (place : Location) (name : String) (d d' : Disk) : Prop where
  houses : d'.Houses dir place
  node : ∀ x ≠ name, d'.node? place x = d.node? place x
  bytes : ∀ x ≠ name, d'.bytes? place x = d.bytes? place x

theorem Houses.withOutage (h : d.Houses dir place) (o : Option Outage) :
    (withOutage o d).Houses dir place where
  lt := h.lt
  inj := h.inj
  resolve :=
    (show (RefStore.withOutage o d).Leads dir place from h.toLeads.mono fun _ hq => hq).resolve
  directory := h.directory
  files := h.files

namespace OnlyAt

theorem refl (h : d.Houses dir place) (name : String) : OnlyAt dir place name d d :=
  ⟨h, fun _ _ => rfl, fun _ _ => rfl⟩

theorem trans (h : OnlyAt dir place name d d') (h' : OnlyAt dir place name d' d'') :
    OnlyAt dir place name d d'' :=
  ⟨h'.houses, fun x hx => (h'.node x hx).trans (h.node x hx),
    fun x hx => (h'.bytes x hx).trans (h.bytes x hx)⟩

theorem restart (h : OnlyAt dir place name d d') : OnlyAt dir place name d d'.restart :=
  ⟨h.houses.withOutage none, h.node, h.bytes⟩

theorem addFile (h : d.Houses dir place) (hn : d.node? place name = none) :
    OnlyAt dir place name d (d.effect (.addFile (place ++ [name]))) where
  houses := h.addFile hn
  node x hx := by rw [node?_addFile, if_neg hx]
  bytes x hx := by rw [bytes?_addFile h, if_neg hx]

theorem store (h : d.Houses dir place) (hn : d.node? place name = some n) (c : Contents) :
    OnlyAt dir place name d (d.store n c) where
  houses := h.store n c
  node _ _ := rfl
  bytes x hx := by rw [bytes?_store h hn, if_neg hx]

theorem remove (h : d.Houses dir place) (name : String) :
    OnlyAt dir place name d (d.effect (.remove (place ++ [name]))) where
  houses := h.remove name
  node x hx := by rw [node?_remove, if_neg hx]
  bytes x hx := by rw [bytes?_remove, if_neg hx]

end OnlyAt

section reading

theorem locate_start (h : d.Houses dir place) (hf : dir.Fits name) :
    (locate (dir.join name)).start d =
      (.ok (place ++ [name], (d.node? place name).map .file), d) := by
  have hr := h.toLeads.join hf.plain hf.usable
  have hc : (Task.ofChecked (d.resolve (dir.join name)) : Task Disk IoError Location).Gives d
      (place ++ [name]) d := .ofChecked hr d
  rw [locate, (Task.Gives.state d).start_bind, hc.start_bind, entryAt?_append, h.entries_eq]
  rfl

theorem exists_start (h : d.Houses dir place) (hf : dir.Fits name) :
    (Disk.exists? (dir.join name)).start d = (.ok (d.node? place name).isSome, d) := by
  have hl : d.lookup? (dir.join name) = (d.node? place name).map .file := by
    rw [lookup?, h.toLeads.join hf.plain hf.usable]
    exact (entryAt?_append ..).trans (h.entries_eq name)
  rw [Disk.exists?, (Task.Gives.state d).start_bind, hl, Option.isSome_map]
  rfl

theorem exists?_false {path : Path} (h : d.lookup? path = none) : (exists? path).Gives d false d := by
  refine (Task.Gives.state d).bind ?_
  rw [h]
  exact .pure _ d

theorem locateFile_start (h : d.Houses dir place) (hf : dir.Fits name)
    (hn : d.node? place name = some n) :
    (locateFile (dir.join name)).start d = (.ok (place ++ [name], n), d) := by
  have hl : (locate (dir.join name)).Gives d (place ++ [name], some (.file n)) d := by
    rw [Task.Gives, locate_start h hf, hn]
    rfl
  rw [locateFile, hl.start_bind]
  rfl

theorem openFile_start (h : d.Houses dir place) (hf : dir.Fits name)
    (hn : d.node? place name = some n) : (openFile (dir.join name)).start d = (.ok n, d) := by
  rw [openFile, Task.Gives.start_bind (locateFile_start h hf hn)]
  rfl

theorem locateNew_start (h : d.Houses dir place) (hf : dir.Fits name)
    (hn : d.node? place name = none) :
    (locateNew (dir.join name)).start d = (.ok (place ++ [name]), d) := by
  have hl : (locate (dir.join name)).Gives d (place ++ [name], none) d := by
    rw [Task.Gives, locate_start h hf, hn]
    rfl
  rw [locateNew, hl.start_bind]
  rfl

end reading

section changing

theorem createFile_survives (h : d.Houses dir place) (hf : dir.Fits name)
    (hn : d.node? place name = none) (hcut : ∀ d', OnlyAt dir place name d d' → cut d') :
    (createFile (dir.join name)).Survives d cut d.nextNode
      (d.effect (.addFile (place ++ [name]))) := by
  refine .bind (.ofReads fun o => locateNew_start (h.withOutage o) hf hn) ?_
  refine .state (fun o => rfl) (.bind (perform_survives fun bytes => hcut _ ?_) (.pure _ _))
  dsimp only [cutEffect]
  split
  · exact (OnlyAt.refl h name).restart
  · exact (OnlyAt.addFile h hn).restart

theorem setLength_survives {length : Nat} (hlen : length ≤ longestFile) (hcut : cut d.restart)
    (hcut' : cut (d.store n ((d.content n).resize length)).restart) :
    (setLength n length).Survives d cut () (d.store n ((d.content n).resize length)) := by
  rw [setLength, if_neg (Nat.not_lt.mpr hlen)]
  refine perform_survives fun bytes => ?_
  dsimp only [cutEffect]
  split
  · exact hcut
  · exact hcut'

theorem writeAt_survives {offset : Nat} {bytes : ByteArray} (hlen : offset + bytes.size ≤ longestFile)
    (hcut : ∀ k, cut (d.store n ((d.content n).overwrite offset (bytes.extract 0 k))).restart) :
    (writeAt n offset bytes).Survives d cut () (d.store n ((d.content n).overwrite offset bytes)) := by
  rw [writeAt, if_neg (Nat.not_lt.mpr hlen)]
  exact perform_survives hcut

theorem sync_survives (hcut : cut d.restart) (n : Nat) : (Disk.sync n).Survives d cut () d := by
  refine perform_survives fun bytes => ?_
  dsimp only [cutEffect]
  split
  · exact hcut
  · exact hcut

theorem removeFile_survives (h : d.Houses dir place) (hf : dir.Fits name)
    (hn : d.node? place name = some n) (hcut : cut d.restart)
    (hcut' : cut (d.effect (.remove (place ++ [name]))).restart) :
    (removeFile (dir.join name)).Survives d cut () (d.effect (.remove (place ++ [name]))) := by
  refine .bind (.ofReads fun o => locateFile_start (h.withOutage o) hf hn) ?_
  refine perform_survives fun bytes => ?_
  dsimp only [cutEffect]
  split
  · exact hcut
  · exact hcut'

theorem renameFile_survives (h : d.Houses dir place) (hf : dir.Fits name) (ht : dir.Fits target)
    (hn : d.node? place name = some n) (hcut : cut d.restart)
    (hcut' : cut (d.effect (.rename (place ++ [name]) (place ++ [target]) n)).restart) :
    (renameFile (dir.join name) (dir.join target)).Survives d cut ()
      (d.effect (.rename (place ++ [name]) (place ++ [target]) n)) := by
  have hl : (locate (dir.join target)).Survives d cut
      (place ++ [target], (d.node? place target).map .file) d :=
    .ofReads fun o => locate_start (h.withOutage o) ht
  refine .bind (.ofReads fun o => locateFile_start (h.withOutage o) hf hn) (.bind hl ?_)
  dsimp only
  rw [if_neg (by cases d.node? place target <;> simp)]
  refine perform_survives fun bytes => ?_
  dsimp only [cutEffect]
  split
  · exact hcut
  · exact hcut'

/-- On a disk that works, a file is removed. -/
theorem removeFile_gives (h : d.Houses dir place) (hf : dir.Fits name) (hn : d.node? place name = some n)
    (hlive : d.outage = none) :
    (removeFile (dir.join name)).Gives d () (d.effect (.remove (place ++ [name]))) := by
  have hs : (removeFile (dir.join name)).Survives d (fun _ => True) () (d.effect (.remove (place ++ [name]))) :=
    removeFile_survives h hf hn trivial trivial
  exact hs.gives_of_live hlive hlive

/-- An empty file under a name, whatever was there before. -/
theorem createOrClear_survives (h : d.Houses dir place) (hf : dir.Fits name)
    (hcut : ∀ d', OnlyAt dir place name d d' → cut d') :
    ∃ n d', (createOrClear (dir.join name)).Survives d cut n d' ∧ OnlyAt dir place name d d' ∧
      d'.node? place name = some n ∧ d'.bytes? place name = some [] := by
  have hknown : (Disk.exists? (dir.join name)).Survives d cut (d.node? place name).isSome d :=
    .ofReads fun o => exists_start (h.withOutage o) hf
  cases hn : d.node? place name with
  | none =>
    rw [hn] at hknown
    refine ⟨d.nextNode, d.effect (.addFile (place ++ [name])), ?_, .addFile h hn, ?_, ?_⟩
    · exact hknown.bind (.bind (hknown.bind (createFile_survives h hf hn hcut)) (.pure _ _))
    · rw [node?_addFile, if_pos rfl]
    · rw [bytes?_addFile h, if_pos rfl]
  | some n =>
    rw [hn] at hknown
    have hempty : OnlyAt dir place name d (d.store n ((d.content n).resize 0)) := .store h hn _
    have hopen : (openOrCreate (dir.join name)).Survives d cut n d :=
      hknown.bind (.ofReads fun o => openFile_start (h.withOutage o) hf hn)
    have hclear : (setLength n 0).Survives d cut () (d.store n ((d.content n).resize 0)) :=
      setLength_survives (Nat.zero_le _) (hcut _ (OnlyAt.refl h name).restart)
        (hcut _ hempty.restart)
    refine ⟨n, d.store n ((d.content n).resize 0), ?_, hempty, hn, ?_⟩
    · exact hknown.bind (hopen.bind (hclear.bind (.pure _ _)))
    · rw [bytes?_store h hn, if_pos rfl, Contents.toList_resize]
      simp

end changing

end RefStore.Disk
