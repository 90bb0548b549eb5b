import RefStore.Collection.Basic
import RefStore.Proofs.Residents

/-!
# What lasts through calls on trees and size maps

A call on a tree or a size map reads pages, notes drafts of files that are there and counts their pages.
Unless it adds or deletes a file it does nothing else to a transaction. What these steps keep, every such
call keeps, however it ends. Main statements: `Tree.put_lasts`, `Tree.remove_lasts`, `Tree.scan_lasts`,
`SizeMap.add_lasts`, `SizeMap.changeSlot_lasts`.
-/

namespace RefStore

namespace Task

variable {σ ε α : Type} {P Q : σ → Prop} {t : Task σ ε α} {s : σ}

theorem Ends.state {P : σ → Prop} (h : t.Ends s (fun _ s' => P s') fun _ s' => P s') : P (t.start s).2 := by
  rw [Ends] at h
  rcases hr : t.start s with ⟨_ | _, s'⟩ <;> rw [hr] at h <;> exact h

theorem Ends.embed {ε' : Type} [Within ε ε'] {good : α → σ → Prop} {P : σ → Prop}
    (h : t.Ends s good fun _ s' => P s') : (liftM t : Task σ ε' α).Ends s good fun _ s' => P s' := by
  rcases hr : t.start s with ⟨cause | a, s'⟩
  · exact .error (start_embed_error hr) (h.of_error hr)
  · exact (Gives.embed hr).ends (h.of_gives hr)

theorem ofChecked_ends (x : Checked ε α) (s : σ) :
    (ofChecked x : Task σ ε α).Ends s (fun _ s' => s' = s) fun _ s' => s' = s := by
  cases x with
  | error cause => exact .error rfl rfl
  | ok a => exact (Gives.ofChecked rfl s).ends rfl

/-- What holds of the state after a task holds however the task ends. -/
theorem ends_of_state (h : P (t.start s).2) : t.Ends s (fun _ s' => P s') fun _ s' => P s' := by
  rw [Ends]
  rcases hr : t.start s with ⟨_ | _, s'⟩ <;> rw [hr] at h <;> exact h

theorem Keeps.ends (h : t.Keeps P) (hs : P s) : t.Ends s (fun _ s' => P s') fun _ s' => P s' :=
  ends_of_state (h s hs)

theorem Keeps.and (h : t.Keeps P) (h' : t.Keeps Q) : t.Keeps fun s => P s ∧ Q s :=
  fun s hs => ⟨h s hs.1, h' s hs.2⟩

theorem Keeps.after {β : Type} {f : α → Task σ ε β} (ht : P (t.start s).2) (hf : ∀ a, (f a).Keeps P) :
    P ((t >>= f).start s).2 := by
  rw [Task.start_bind]
  rcases hr : t.start s with ⟨_ | a, z⟩ <;> rw [hr] at ht
  · exact ht
  · exact hf a z ht

end Task

namespace Mounted

variable {P : Mounted → Prop}

theorem opened_of_openFile {m m' : Mounted} {id : FileId} {f : OpenFile} (h : (openFile id).Gives m f m') :
    m.volume.files[id]? = some f ∧ m' = m := by
  rw [openFile, Task.Gives, (Task.Gives.state m).start_bind] at h
  rcases hf : m.volume.files[id]? with _ | g <;> rw [hf] at h
  · exact absurd h Task.not_gives_refuse
  · obtain ⟨rfl, rfl⟩ := Task.gives_pure h
    exact ⟨rfl, rfl⟩

theorem findFile_keeps (name : String) : (findFile name).Keeps P := by
  refine .bind .state fun m => ?_
  split
  · exact .pure _
  · exact .refuse _

theorem pageCount_keeps (id : FileId) : (pageCount id).Keeps P := .bind (openFile_keeps P id) fun _ => .pure _

end Mounted

namespace Transaction

/-- A file that the operation counts the pages of, or that is open beneath it. -/
def Reaches (t : Transaction) (file : FileId) : Prop :=
  file ∈ t.operation.counts ∨ file ∈ t.mounted.volume.files

/-- What is kept when a page is loaded, and when a draft or a number of pages is noted for a file in reach. -/
structure Lasting (P : Transaction → Prop) : Prop where
  load : ∀ file i, (liftM (Mounted.loadPage file i) : Task Transaction StorageError Page).Keeps P
  note : ∀ {t : Transaction} {file} i d, t.Reaches file → P t → P { t with operation := t.operation.withDraft file i d }
  count : ∀ {t : Transaction} {file} n, t.Reaches file → P t →
    P { t with operation := { t.operation with counts := t.operation.counts.insert file n } }

variable {P : Transaction → Prop} {t : Transaction}

theorem onMounted_keeps {α : Type} {u : Task Mounted StorageError α} (hu : ∀ {Q : Mounted → Prop}, u.Keeps Q) :
    (liftM u : Task Transaction StorageError α).Keeps P := fun t h => by
  have hsame : (u.start t.mounted).2 = t.mounted := hu (Q := (· = t.mounted)) _ rfl
  show P ⟨(u.start t.mounted).2, t.operation⟩
  rw [hsame]
  exact h

theorem pageSize_keeps : pageSize.Keeps P := .bind .state fun _ => .pure _

theorem fileExists_keeps (name : String) : (fileExists name).Keeps P := by
  refine .bind .state fun t => ?_
  split
  · exact .pure _
  · split
    · exact .pure _
    · exact .pure _

theorem openFile_keeps (name : String) : (openFile name).Keeps P := by
  refine .bind .state fun t => ?_
  split
  · exact .pure _
  · exact .bind (onMounted_keeps (Mounted.findFile_keeps name)) fun id => .guarded (.refuse _) (.pure _)

theorem pageCount_keeps (file : FileId) : (pageCount file).Keeps P := by
  refine .bind .state fun t => .guarded (.refuse _) ?_
  split
  · exact .pure _
  · exact onMounted_keeps (Mounted.pageCount_keeps file)

/-- The pages of a file are counted if it is in reach. -/
theorem pageCount_reaches {file : FileId} {n : PageIndex} {t' : Transaction} (h : (pageCount file).Gives t n t') :
    t.Reaches file := by
  obtain ⟨_, _, h₀, h⟩ := Task.bind_gives h
  obtain ⟨rfl, rfl⟩ := (Task.Gives.state t).unique h₀
  dsimp only at h
  split at h
  · obtain ⟨_, _, h₁, -⟩ := Task.bind_gives h
    exact absurd h₁ Task.not_gives_refuse
  split at h
  · next n' hn => exact .inl (Std.TreeMap.mem_iff_isSome_getElem?.mpr (by rw [hn]; rfl))
  obtain ⟨m, hm, -⟩ := Task.onPart_gives h
  obtain ⟨f, m₁, hf, -⟩ := Task.bind_gives hm
  exact .inr (Std.TreeMap.mem_iff_isSome_getElem?.mpr ((Mounted.opened_of_openFile hf).1 ▸ rfl))

theorem pageCount_ends (file : FileId) (h : P t) :
    (pageCount file).Ends t (fun _ t' => P t' ∧ t'.Reaches file) fun _ t' => P t' := by
  have hsame : ((pageCount file).start t).2 = t := pageCount_keeps (P := (· = t)) file t rfl
  rcases hr : (pageCount file).start t with ⟨cause | n, t'⟩ <;> rw [hr] at hsame <;> obtain rfl := hsame
  · exact .error hr h
  · exact Task.Gives.ends hr ⟨h, pageCount_reaches hr⟩

/-- To load a page puts no file out of reach. -/
theorem loadPage_reaches {f : FileId} (id : FileId) (i : PageIndex) :
    (liftM (Mounted.loadPage id i) : Task Transaction StorageError Page).Keeps (Reaches · f) := by
  have hfiles : (Mounted.loadPage id i).Keeps fun m => f ∈ m.volume.files := by
    refine .bind (Mounted.openFile_keeps _ id) fun f => ?_
    split
    · exact .pure _
    · refine .guarded (.refuse _) ?_
      refine .bind .state fun m => .bind (.inPart (fun _ _ h => h) _) fun page => .bind (.ofChecked _) fun _ =>
        .bind (.change fun m h => ?_) fun _ => .pure _
      exact Std.TreeMap.mem_insert.mpr (.inr h)
  exact fun t h => h.imp_right (hfiles t.mounted)

namespace Lasting

variable (hP : Lasting P)

include hP

theorem draft_ends (file : FileId) (i : PageIndex) (h : P t) :
    (draft file i).Ends t (fun _ t' => P t' ∧ t'.Reaches file) fun _ t' => P t' := by
  have hbounds : (checkBounds file i).Ends t (fun _ t' => P t' ∧ t'.Reaches file) fun _ t' => P t' := by
    refine (pageCount_ends file h).bind fun n t' h => ?_
    split
    · exact .error rfl h.1
    · exact (Task.Gives.pure _ _).ends h
  refine hbounds.bind fun _ t' h => (Task.Gives.state t').bind_ends ?_
  split
  · exact (Task.Gives.pure _ _).ends h
  · have hload := ((hP.load file i).and (loadPage_reaches (f := file) file i)).ends h
    exact (hload.mono (fun _ _ h => h) fun _ _ h => h.1).bind fun _ _ h => (Task.Gives.pure _ _).ends h

theorem draft (file : FileId) (i : PageIndex) : (draft file i).Keeps P := fun _ h =>
  ((hP.draft_ends file i h).mono (fun _ _ h => h.1) fun _ _ h => h).state

theorem loadPage (file : FileId) (i : PageIndex) : (loadPage file i).Keeps P :=
  .bind (hP.draft file i) fun _ => .pure _

theorem writePage (file : FileId) (i : PageIndex) (writes : List Write) : (writePage file i writes).Keeps P := by
  refine fun t h => ((hP.draft_ends file i h).bind fun d t' h => ?_).state
  refine ((Task.ofChecked_ends _ t').mono (fun _ _ h => h) fun _ _ hs => hs.symm ▸ h.1).bind ?_
  rintro o _ rfl
  exact (Task.Gives.change _ _).ends (hP.note i _ h.2 h.1)

theorem edit {α ε : Type} [Within StorageError ε] (file : FileId) (i : PageIndex)
    (f : Page → Checked ε (α × List Write)) : (edit file i f).Keeps P := by
  refine fun t h => ((Task.Ends.embed (hP.draft_ends file i h)).bind fun d t' h => ?_).state
  refine (Task.Gives.change _ t').embed.bind_ends (Task.Keeps.ends ?_ (hP.note i d h.2 h.1))
  exact .bind (.ofChecked _) fun _ => .bind (.embed (hP.writePage file i _)) fun _ => .pure _

theorem addPage (file : FileId) : (addPage file).Keeps P := by
  refine fun t h => ((pageCount_ends file h).bind fun i t' h => ?_).state
  have hsize : pageSize.Gives t' t'.mounted.volume.pageSize t' := .pure _ _
  refine hsize.bind_ends ((Task.Gives.change _ t').bind_ends ((Task.Gives.pure _ _).ends ?_))
  exact hP.count (t := { t' with operation := t'.operation.withDraft file i _ }) (i + 1) h.2 (hP.note i _ h.2 h.1)

end Lasting

end Transaction

namespace Tree

variable {P : Transaction → Prop}

theorem decoded_lasts {α : Type} (x : Checked NodeError α) : (decoded x).Keeps P := .ofChecked _

theorem file_lasts (tree : Tree) : tree.file.Keeps P := by
  rw [file]
  split
  · exact .pure _
  · exact .refuse _

theorem steps_lasts (file : FileId) : (steps file).Keeps P :=
  .bind (.embed (Transaction.pageCount_keeps file)) fun _ => .pure _

section

variable (hP : Transaction.Lasting P)

include hP

/-! ## Nodes -/

theorem readMeta_lasts (file : FileId) : (readMeta file).Keeps P :=
  .bind (.embed (hP.loadPage file 0)) fun _ => decoded_lasts _

theorem readLeaf_lasts (file : FileId) (i : PageIndex) : (readLeaf file i).Keeps P :=
  .bind (.embed (hP.loadPage file i)) fun _ => decoded_lasts _

theorem readBranch_lasts (file : FileId) (i : PageIndex) : (readBranch file i).Keeps P :=
  .bind (.embed (hP.loadPage file i)) fun _ => decoded_lasts _

theorem writeMeta_lasts (file : FileId) (m : TreeMeta) : (writeMeta file m).Keeps P :=
  .embed (hP.writePage file 0 _)

theorem writeNode_lasts (file : FileId) (i : PageIndex) (node : Node) :
    (writeNode file i node).Keeps P := hP.edit file i _

theorem appendNode_lasts (file : FileId) (node : Node) : (appendNode file node).Keeps P :=
  .bind (.embed (hP.addPage file)) fun _ => .bind (writeNode_lasts hP file _ node) fun _ => .pure _

theorem relink_lasts (file : FileId) (i : PageIndex) (f : NodeLinks → NodeLinks) :
    (relink file i f).Keeps P := hP.edit file i _

/-! ## Searches -/

theorem descend_lasts (file : FileId) (choose : Branch → Option PageIndex) (fuel : Nat) (i : PageIndex) :
    (descend file choose fuel i).Keeps P := by
  induction fuel generalizing i with
  | zero => exact .halt _
  | succ fuel ih =>
    refine .bind (.embed (hP.loadPage file i)) fun page => .bind (decoded_lasts _) fun kind => ?_
    dsimp only
    split
    · exact .pure _
    · exact .bind (decoded_lasts _) fun branch => .guarded (.refuse _) (ih _)

theorem findLeaf_lasts (file : FileId) (root : PageIndex) (key : Key) :
    (findLeaf file root key).Keeps P :=
  .bind (steps_lasts file) fun _ => descend_lasts hP file _ _ _

/-! ## Updates -/

theorem growRoot_lasts (file : FileId) (left : PageIndex) (key : Key) (right : PageIndex) :
    (growRoot file left key right).Keeps P :=
  .bind (appendNode_lasts hP file _) fun _ => .bind (relink_lasts hP file _ _) fun _ =>
    .bind (relink_lasts hP file _ _) fun _ => .pure _

theorem insertAbove_lasts (file : FileId) (root : PageIndex) (fuel : Nat) (left : PageIndex) (key : Key)
    (right parent : PageIndex) : (insertAbove file root fuel left key right parent).Keeps P := by
  induction fuel generalizing left key right parent with
  | zero => exact .halt _
  | succ fuel ih =>
    rw [insertAbove]
    split
    · exact growRoot_lasts hP file left key right
    · refine .bind (readBranch_lasts hP file parent) fun branch =>
        .bind (.embed Transaction.pageSize_keeps) fun size => ?_
      split
      · exact .bind (.ofChecked _) fun _ => .bind (appendNode_lasts hP file _) fun _ =>
          .bind (writeNode_lasts hP file parent _) fun _ =>
          .bind (.forM fun _ _ => relink_lasts hP file _ _) fun _ => ih _ _ _ _
      · exact .bind (writeNode_lasts hP file parent _) fun _ => .pure _

theorem splitLeaf_lasts (file : FileId) (root i : PageIndex) (leaf : Leaf) :
    (splitLeaf file root i leaf).Keeps P := by
  refine .bind (.ofChecked _) fun _ => .bind (appendNode_lasts hP file _) fun _ =>
    .bind (writeNode_lasts hP file i _) fun _ => ?_
  have habove {left : PageIndex} {key : Key} {right : PageIndex} :
      (do insertAbove file root (2 * (← steps file)) left key right leaf.links.parent :
        Task Transaction TreeError PageIndex).Keeps P :=
    .bind (steps_lasts file) fun _ => insertAbove_lasts hP file root _ _ _ _ _
  split
  · exact .bind (relink_lasts hP file _ _) fun _ => habove
  · exact habove

theorem putEntry_lasts (file : FileId) (key : Key) (value : Int32) :
    (putEntry file key value).Keeps P := by
  refine .bind (readMeta_lasts hP file) fun m => .bind (findLeaf_lasts hP file _ key) fun i =>
    .bind (readLeaf_lasts hP file i) fun leaf => ?_
  generalize leaf.insert key value = inserted
  have hrest (root : PageIndex) (count : UInt64) : (if inserted.2.isNone ∨ root ≠ m.root
      then writeMeta file ⟨root, count⟩ >>= fun _ => pure inserted.2
      else pure inserted.2 : Task Transaction TreeError (Option Int32)).Keeps P := by
    split
    · exact .bind (writeMeta_lasts hP file _) fun _ => .pure _
    · exact .pure _
  refine .bind (.embed Transaction.pageSize_keeps) fun size => ?_
  by_cases hfull : inserted.1.isOverfull size = true
  · rw [if_pos hfull]
    exact .bind (splitLeaf_lasts hP file _ _ _) fun root => hrest root _
  · rw [if_neg hfull]
    exact .bind (writeNode_lasts hP file _ _) fun _ => .bind (.pure _) fun root => hrest root _

theorem removeEntry_lasts (file : FileId) (key : Key) : (removeEntry file key).Keeps P := by
  refine .bind (readMeta_lasts hP file) fun m => .bind (findLeaf_lasts hP file _ key) fun i =>
    .bind (readLeaf_lasts hP file i) fun leaf => ?_
  dsimp only
  split
  · exact .bind (writeNode_lasts hP file _ _) fun _ => .bind (writeMeta_lasts hP file _) fun _ => .pure _
  · exact .pure _

variable (tree : Tree)

theorem create_lasts {t : Transaction} (h : P ((Transaction.addFile tree.fileName).start t).2) :
    P (tree.create.start t).2 := by
  have hadd : P ((liftM (Transaction.addFile tree.fileName) : Task Transaction TreeError FileId).start t).2 := h
  exact Task.Keeps.after hadd fun _ => .bind (.embed (hP.addPage _)) fun _ =>
    .bind (.embed (hP.writePage _ _ _)) fun _ => .bind (appendNode_lasts hP _ _) fun _ => .pure _

theorem put_lasts (key : Key) (value : Int32) : (tree.put key value).Keeps P :=
  .bind (file_lasts tree) fun _ => .mapError _ (putEntry_lasts hP _ _ _)

theorem remove_lasts (key : Key) : (tree.remove key).Keeps P :=
  .bind (file_lasts tree) fun _ => .mapError _ (removeEntry_lasts hP _ _)

/-! ## Readings -/

theorem collect_lasts (file : FileId) (r : KeyRange) (fuel : Nat) (limit : Option Nat) (entries : List Entry)
    (next : PageIndex) : (collect file r fuel limit entries next).Keeps P := by
  induction fuel generalizing limit entries next with
  | zero => exact .halt _
  | succ fuel ih =>
    rw [collect]
    split
    · exact .pure _
    · exact .bind (readLeaf_lasts hP file next) fun _ => .bind (ih _ _ _) fun _ => .pure _

theorem walk_lasts {α : Type} (file : FileId) (follow : NodeLinks → PageIndex) (pick : Leaf → Option α) (fuel : Nat)
    (i : PageIndex) : (walk file follow pick fuel i).Keeps P := by
  induction fuel generalizing i with
  | zero => exact .halt _
  | succ fuel ih =>
    refine .bind (readLeaf_lasts hP file i) fun leaf => ?_
    split
    · exact .pure _
    · split
      · exact .pure _
      · exact ih _

theorem get_lasts (key : Key) : (tree.get key).Keeps P :=
  .bind (file_lasts tree) fun _ => .bind (readMeta_lasts hP _) fun _ => .bind (findLeaf_lasts hP _ _ _) fun _ =>
    .bind (readLeaf_lasts hP _ _) fun _ => .pure _

theorem scan_lasts (r : KeyRange) (limit : Option Nat) : (tree.scan r limit).Keeps P :=
  .bind (file_lasts tree) fun _ => .bind (readMeta_lasts hP _) fun _ => .bind (findLeaf_lasts hP _ _ _) fun _ =>
    .bind (readLeaf_lasts hP _ _) fun _ => .bind (steps_lasts _) fun _ => collect_lasts hP _ _ _ _ _ _

theorem firstKeyBetween_lasts (low high : Key) : (tree.firstKeyBetween low high).Keeps P :=
  .bind (scan_lasts hP tree _ _) fun _ => .pure _

theorem hasEntriesBetween_lasts (low high : Key) : (tree.hasEntriesBetween low high).Keeps P :=
  .bind (firstKeyBetween_lasts hP tree _ _) fun _ => .pure _

theorem lastKey_lasts : tree.lastKey.Keeps P :=
  .bind (file_lasts tree) fun _ => .bind (readMeta_lasts hP _) fun _ => .bind (steps_lasts _) fun _ =>
    .bind (descend_lasts hP _ _ _ _) fun _ => walk_lasts hP _ _ _ _ _

theorem lastKeyBetween_lasts (low high : Key) : (tree.lastKeyBetween low high).Keeps P :=
  .bind (file_lasts tree) fun _ => .bind (readMeta_lasts hP _) fun _ => .bind (findLeaf_lasts hP _ _ _) fun _ =>
    .bind (steps_lasts _) fun _ => .bind (walk_lasts hP _ _ _ _ _) fun _ => .pure _

end

theorem entryBound_lasts (file : FileId) : (Workspace.entryBound file).Keeps P := by
  refine .bind (steps_lasts file).attempt fun r => ?_
  dsimp only
  split
  · exact .bind (.pure _) fun _ => .bind (.embed Transaction.pageSize_keeps) fun _ => .pure _
  · exact .bind (.pure _) fun _ => .bind (.embed Transaction.pageSize_keeps) fun _ => .pure _

end Tree

namespace SizeMap

variable {P : Transaction → Prop}

theorem file_lasts (m : SizeMap) : m.file.Keeps P := by
  rw [file]
  split
  · exact .pure _
  · exact .refuse _

theorem slotsPerBucket_lasts : slotsPerBucket.Keeps P := .bind (.embed Transaction.pageSize_keeps) fun _ => .pure _

section

variable (hP : Transaction.Lasting P)

include hP

theorem buckets_lasts (file : FileId) : (buckets file).Keeps P :=
  .bind (.embed (hP.loadPage file 0)) fun _ => .ofChecked _

theorem locate_lasts (file : FileId) (id : SlotId) : (locate file id).Keeps P := by
  refine .bind slotsPerBucket_lasts fun capacity => .guarded (.halt _) ?_
  exact .bind (buckets_lasts hP file) fun count => .guarded (.refuse _) (.pure _)

theorem onSlot_lasts {α : Type} (file : FileId) (id : SlotId)
    (f : SlotId → Page → Checked SizesError (α × List Write)) : (onSlot file id f).Keeps P :=
  .bind (locate_lasts hP file id) fun _ => hP.edit file _ _

theorem appendBucket_lasts (file : FileId) (count : Nat) : (appendBucket file count).Keeps P := by
  refine .bind (.embed (hP.addPage file)) fun i => .guarded (.refuse _) ?_
  exact .bind (.embed (hP.writePage file i _)) fun _ => .bind (hP.edit file 0 _) fun _ => .pure _

theorem allocate_lasts (file : FileId) : (allocate file).Keeps P := by
  refine .bind slotsPerBucket_lasts fun capacity => .bind (buckets_lasts hP file) fun count => ?_
  dsimp only
  split
  -- the bucket tried first is a new one, or the last
  case' isTrue => refine .bind (appendBucket_lasts hP file 0) fun last => ?_
  case' isFalse => refine .bind (.pure count) fun last => ?_
  all_goals
    refine .bind (hP.edit file _ _) fun slot => ?_
    cases slot with
    | some slot => exact .ofChecked _
    | none =>
      refine .bind (appendBucket_lasts hP file last) fun added => .bind (hP.edit file _ _) fun slot => ?_
      cases slot with
      | some slot => exact .ofChecked _
      | none => exact .halt _

variable (m : SizeMap)

theorem create_lasts {t : Transaction} (h : P ((Transaction.addFile m.fileName).start t).2) :
    P (m.create.start t).2 := by
  have hadd : P ((liftM (Transaction.addFile m.fileName) : Task Transaction SizesError FileId).start t).2 := h
  exact Task.Keeps.after hadd fun _ => .bind (.embed (hP.addPage _)) fun _ =>
    .bind (.embed (hP.writePage _ _ _)) fun _ => .pure _

theorem add_lasts : m.add.Keeps P := .bind (file_lasts m) fun _ => .mapError _ (allocate_lasts hP _)

theorem changeSlot_lasts {α : Type} (operation : String) (id : SlotId)
    (f : SlotId → Page → Checked SizesError (α × List Write)) : (do
      let file ← m.file
      m.during operation (onSlot file id f) : Task Transaction SizesError α).Keeps P :=
  .bind (file_lasts m) fun _ => .mapError _ (onSlot_lasts hP _ _ _)

theorem count_lasts (id : SlotId) : (m.count id).Keeps P :=
  .bind (file_lasts m) fun _ => .bind (locate_lasts hP _ _) fun _ => .bind (.embed (hP.loadPage _ _)) fun _ =>
    .ofChecked _

end

end SizeMap

/-! ## Collections -/

theorem Store.checkAccess_of_allowed {st : Store} (h : st.registry.prohibited = false) :
    checkAccess.Gives st () st := by
  refine (Task.Gives.state st).bind ?_
  rw [if_neg (by rw [h]; exact Bool.false_ne_true)]
  exact .pure () _

namespace Workspace

variable {α : Type} {P : Workspace → Prop}

/-- What is kept by calls on trees and size maps that add and delete no file. -/
structure Lasting (P : Workspace → Prop) : Prop where
  part : ∀ {ε α : Type} {t : Task Transaction ε α} (f : ε → CollectionError),
    (∀ {Q : Transaction → Prop}, Transaction.Lasting Q → t.Keeps Q) →
      (Task.onPart (t.mapError f) : Task Workspace CollectionError α).Keeps P

/-- What does not depend on the count of ids. -/
def Uncounted (P : Workspace → Prop) : Prop := ∀ {w : Workspace} (n : CollectionId), P w →
  P { w with store := { w.store with registry := { w.store.registry with counter := n } } }

/-- What is told of a store without its engine. -/
theorem Lasting.ofRegistry (Q : Registry → Prop) : Lasting fun w => Q w.store.registry :=
  ⟨fun _ _ => .onPart (fun _ _ h => h) _⟩

theorem storageAt_keeps (id : StorageId) : (storageAt id).Keeps P := by
  refine .bind .state fun w => ?_
  split
  · exact .pure _
  · exact .halt _

theorem ofStore_keeps {t : Task Store CollectionError α} (h : ∀ op undo, t.Keeps fun st => P ⟨st, op, undo⟩) :
    (liftM t : Task Workspace CollectionError α).Keeps P := fun w hw => h w.operation w.undo w.store hw

theorem checkAccess_keeps {P : Store → Prop} : Store.checkAccess.Keeps P := by
  refine .bind .state fun s => ?_
  split
  · exact .refuse _
  · exact .pure _

theorem checkAccess_same (w : Workspace) :
    (liftM Store.checkAccess : Task Workspace CollectionError Unit).Keeps (· = w) :=
  ofStore_keeps fun _ _ => checkAccess_keeps

theorem checkAccess_of_allowed {w : Workspace} (h : w.store.registry.prohibited = false) :
    (liftM Store.checkAccess : Task Workspace CollectionError Unit).Gives w () w :=
  (Store.checkAccess_of_allowed h).onPart

theorem checkAccess_of_prohibited {w : Workspace} (h : w.store.registry.prohibited = true) :
    (liftM Store.checkAccess : Task Workspace CollectionError Unit).start w =
      (.error (.error .accessProhibited), w) := by
  have hrefused : Store.checkAccess.start w.store = (.error (.error .accessProhibited), w.store) := by
    rw [Store.checkAccess, (Task.Gives.state w.store).start_bind, if_pos h]
    rfl
  show ((Store.checkAccess.start w.store).1, { w with store := (Store.checkAccess.start w.store).2 }) = _
  rw [hrefused]

/-- To ask whether the engine can be used changes nothing. -/
theorem checkUsable_keeps {P : Store → Prop} :
    (liftM Engine.checkUsable : Task Store CollectionError Unit).Keeps P := by
  have hsame (e : Engine) : Engine.checkUsable.Keeps (· = e) := by
    refine .bind .state fun e => ?_
    split
    · exact .refuse _
    · exact .pure _
  intro st h
  show P { st with engine := (Engine.checkUsable.start st.engine).2 }
  rwa [hsame st.engine st.engine rfl]

/-- A view keeps what its task keeps. -/
theorem view_keeps {P : Store → Prop} {t : Task Workspace CollectionError α} (h : t.Keeps fun w => P w.store) :
    (Store.view t).Keeps P :=
  .bind checkUsable_keeps fun _ st hst => h ⟨st, .none, []⟩ hst

/-- Loading the clusters that a store has is loading them one by one and counting on from each. -/
theorem loadExisting_keeps {P : Store → Prop} (load : ∀ c, (Store.loadCluster c).Keeps P)
    (count : ∀ c, (Store.advanceCounter c).Keeps P) : Store.loadExisting.Keeps P := by
  refine .bind checkAccess_keeps fun _ => .bind .state fun st => .bind (.filterMapM fun name => ?_) fun found => ?_
  · split
    · exact .pure _
    · exact .bind (load _) fun _ => .pure _
  · exact .bind checkUsable_keeps fun _ => .bind (.forM fun c _ => count c) fun _ => .pure _

/-- To look up a pointer changes nothing. -/
theorem loadCollection_keeps {P : Store → Prop} (p : CollectionPointer) : (Store.loadCollection p).Keeps P := by
  refine .bind checkAccess_keeps fun _ => .bind .state fun s => ?_
  split
  · exact .pure _
  · exact .refuse _

namespace Lasting

variable (hP : Lasting P)

include hP

theorem allocateId (hcount : Uncounted P) (tree : Tree) (fuel : Nat) : (allocateId tree fuel).Keeps P := by
  induction fuel with
  | zero => exact .halt _
  | succ fuel ih =>
    refine .bind .state fun w => .bind (ofStore_keeps fun _ _ => .change fun st h => hcount _ h) fun _ => ?_
    split
    · exact ih
    · refine .bind (hP.part _ fun hQ => Tree.hasEntriesBetween_lasts hQ tree _ _) fun taken => ?_
      split
      · exact ih
      · exact .pure _

theorem removeEntries (tree : Tree) (high : Key) (fuel : Nat) (low : Key) (includesLow : Bool) :
    (removeEntries tree high fuel low includesLow).Keeps P := by
  induction fuel generalizing low includesLow with
  | zero => exact .halt _
  | succ fuel ih =>
    refine .bind (hP.part _ fun hQ => Tree.scan_lasts hQ tree _ _) fun batch => ?_
    split
    · exact .pure _
    · exact .bind (.forM fun e _ => .bind (hP.part _ fun hQ => Tree.remove_lasts hQ tree e.key) fun _ => .pure _)
        fun _ => ih _ _

theorem put (c : Collection) (r : RecordRef) (value : Int32) : (c.put r value).Keeps P := by
  refine .bind (storageAt_keeps _) fun st => .bind (hP.part _ fun hQ => Tree.put_lasts hQ st.tree _ _) fun old => ?_
  split
  · exact .bind (hP.part _ fun hQ => SizeMap.changeSlot_lasts hQ st.sizes _ _ _) fun _ => .pure _
  · exact .pure _

theorem remove (c : Collection) (r : RecordRef) : (c.remove r).Keeps P := by
  refine .bind (storageAt_keeps _) fun st => .bind (hP.part _ fun hQ => Tree.remove_lasts hQ st.tree _) fun old => ?_
  split
  · exact .bind (hP.part _ fun hQ => SizeMap.changeSlot_lasts hQ st.sizes _ _ _) fun _ => .pure _
  · exact .pure _

theorem get (c : Collection) (r : RecordRef) : (c.get r).Keeps P :=
  .bind (storageAt_keeps _) fun st => hP.part _ fun hQ => Tree.get_lasts hQ st.tree _

theorem size (c : Collection) : c.size.Keeps P :=
  .bind (storageAt_keeps _) fun st => hP.part _ fun hQ => SizeMap.count_lasts hQ st.sizes _

theorem entries (c : Collection) : c.entries.Keeps P :=
  .bind (storageAt_keeps _) fun st => .bind (hP.part _ fun hQ => Tree.scan_lasts hQ st.tree _ _) fun _ => .pure _

theorem first (c : Collection) : c.first.Keeps P :=
  .bind (storageAt_keeps _) fun st => .bind (hP.part _ fun hQ => Tree.firstKeyBetween_lasts hQ st.tree _ _)
    fun _ => .pure _

theorem last (c : Collection) : c.last.Keeps P :=
  .bind (storageAt_keeps _) fun st => .bind (hP.part _ fun hQ => Tree.lastKeyBetween_lasts hQ st.tree _ _)
    fun _ => .pure _

theorem deleteCollection (p : CollectionPointer) : (deleteCollection p).Keeps P :=
  .bind (ofStore_keeps fun _ _ => loadCollection_keeps p) fun _ => .bind (storageAt_keeps _) fun st =>
    .bind (hP.part _ fun _ => Tree.entryBound_lasts _) fun _ => .bind (hP.removeEntries st.tree _ _ _ _) fun _ =>
      hP.part _ fun hQ => SizeMap.changeSlot_lasts hQ st.sizes _ _ _

/-- The steps that make a collection in a storage. -/
theorem createRest (hcount : Uncounted P) (cluster : ClusterId) (id : StorageId) : (do
    let s ← Workspace.storageAt id
    let collection ← Workspace.allocateId s.tree idRound
    let slot ← onSizes s.sizes.add
    return (⟨id, ⟨s.tree.component.file, cluster, collection, slot⟩⟩ : Collection)).Keeps P :=
  .bind (storageAt_keeps _) fun st => .bind (hP.allocateId hcount st.tree _) fun _ =>
    .bind (hP.part _ fun hQ => SizeMap.add_lasts hQ st.sizes) fun _ => .pure _

end Lasting

end Workspace

end RefStore
