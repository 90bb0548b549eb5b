import RefStore.Proofs.Tasks
import RefStore.Sizes.SizeMap
import RefStore.Tree.Scan
import RefStore.Tree.Update

/-!
# Transactions over volumes that answer alike

An operation asks a volume for names, page counts, pages and new ids, and for nothing else. So calls on
files, trees and size maps end alike over two volumes that answer these questions alike, whichever of
their pages are in memory, and leave them so. Taken with one volume twice, this says what no operation
can do to the volume beneath it.
-/

namespace RefStore

namespace Task

variable {σ τ ε ε' α β : Type}

/-- From states that a relation holds between, a task ends alike, and leaves states that it holds
between. -/
def Agrees (R : σ → σ → Prop) (t : Task σ ε α) : Prop :=
  ∀ s z, R s z → (t.start s).1 = (t.start z).1 ∧ R (t.start s).2 (t.start z).2

namespace Agrees

variable {R : σ → σ → Prop}

theorem pure (a : α) : Agrees R (Pure.pure a : Task σ ε α) := fun _ _ h => ⟨rfl, h⟩

theorem ofChecked (x : Checked ε α) : Agrees R (Task.ofChecked x : Task σ ε α) := fun _ _ h => ⟨rfl, h⟩

theorem refuse (e : ε) : Agrees R (RefStore.refuse e : Task σ ε α) := fun _ _ h => ⟨rfl, h⟩

theorem halt (k : Fault) : Agrees R (RefStore.halt k : Task σ ε α) := fun _ _ h => ⟨rfl, h⟩

theorem change {f : σ → σ} (h : ∀ s z, R s z → R (f s) (f z)) :
    Agrees R (Task.change f : Task σ ε Unit) := fun s z hs => ⟨rfl, h s z hs⟩

theorem bind {t : Task σ ε α} {f : α → Task σ ε β} (h : Agrees R t) (h' : ∀ a, Agrees R (f a)) :
    Agrees R (t >>= f) := by
  intro s z hs
  obtain ⟨heq, hr⟩ := h s z hs
  rw [start_bind, start_bind]
  rcases hx : t.start s with ⟨x, s'⟩
  rcases hy : t.start z with ⟨y, z'⟩
  rw [hx, hy] at heq hr
  obtain rfl : x = y := heq
  cases x with
  | error cause => exact ⟨rfl, hr⟩
  | ok a => exact h' a s' z' hr

/-- A guard stops a task or lets it go on. -/
theorem guarded {c : Prop} [Decidable c] {t : Task σ ε β} {rest : Task σ ε α} (stops : Agrees R t)
    (h : Agrees R rest) : Agrees R (if c then t >>= fun _ => rest else rest) := by
  split
  · exact stops.bind fun _ => h
  · exact h

/-- What follows from the state follows alike if it is told by what the relation makes equal. -/
theorem state_bind {k : σ → Task σ ε α} (same : ∀ s z, R s z → k s = k z) (h : ∀ s, Agrees R (k s)) :
    Agrees R (Task.state >>= k) := by
  intro s z hs
  show ((k s).start s).1 = ((k z).start z).1 ∧ R ((k s).start s).2 ((k z).start z).2
  rw [same s z hs]
  exact h z s z hs

theorem mapError {t : Task σ ε α} (f : ε → ε') (h : Agrees R t) : Agrees R (t.mapError f) :=
  fun s z hs => ⟨congrArg (Checked.mapError f) (h s z hs).1, (h s z hs).2⟩

theorem embed [Within ε ε'] {t : Task σ ε α} (h : Agrees R t) : Agrees R (liftM t : Task σ ε' α) :=
  h.mapError Within.embed

theorem attempt {t : Task σ ε α} (h : Agrees R t) : Agrees R (t.attempt : Task σ ε' (Except ε α)) := by
  intro s z hs
  obtain ⟨heq, hr⟩ := h s z hs
  rw [Task.attempt, start_ofStep, start_ofStep]
  rcases hx : t.start s with ⟨x, s'⟩
  rcases hy : t.start z with ⟨y, z'⟩
  rw [hx, hy] at heq hr
  obtain rfl : x = y := heq
  rcases x with (cause | kind) | a <;> exact ⟨rfl, hr⟩

/-- A task on a component agrees where the components do. -/
theorem onPart [Part τ σ] {Q : τ → τ → Prop} {t : Task τ ε α} (h : Agrees Q t)
    (get : ∀ s z, R s z → Q (Part.get s) (Part.get z))
    (put : ∀ (s z : σ) (p q : τ), R s z → Q p q → R (Part.put p s) (Part.put q z)) :
    Agrees R (Task.onPart t : Task σ ε α) := fun s z hs =>
  ⟨(h _ _ (get s z hs)).1, put s z _ _ hs (h _ _ (get s z hs)).2⟩

theorem forM {xs : List α} {f : α → Task σ ε Unit} (h : ∀ x, Agrees R (f x)) : Agrees R (xs.forM f) := by
  induction xs with
  | nil => exact pure ()
  | cons x xs ih => exact (h x).bind fun _ => ih

end Agrees

end Task

namespace Mounted

/-- Between such volumes an operation that adds no file can tell no difference. -/
structure ReadAlike (R : Mounted → Mounted → Prop) : Prop where
  pageSize : ∀ m n, R m n → m.volume.pageSize = n.volume.pageSize
  idOf? : ∀ m n, R m n → ∀ name, m.volume.idOf? name = n.volume.idOf? name
  pageCount : ∀ file, (Mounted.pageCount file).Agrees R
  loadPage : ∀ file i, (Mounted.loadPage file i).Agrees R

/-- Between such volumes no operation can tell a difference. -/
structure ServeAlike (R : Mounted → Mounted → Prop) : Prop extends ReadAlike R where
  reserveId : Mounted.reserveId.Agrees R

end Mounted

namespace Transaction

/-- One operation over two volumes. -/
structure Beside (R : Mounted → Mounted → Prop) (t u : Transaction) : Prop where
  mounted : R t.mounted u.mounted
  operation : t.operation = u.operation

section

variable {R : Mounted → Mounted → Prop}

theorem inMounted_agrees {α : Type} {t : Task Mounted StorageError α} (h : t.Agrees R) :
    (liftM t : Task Transaction StorageError α).Agrees (Beside R) :=
  .onPart h (fun _ _ hs => hs.mounted) fun _ _ _ _ hs hm => ⟨hm, hs.operation⟩

theorem update_agrees (f : Operation → Operation) : (update f).Agrees (Beside R) :=
  .change fun _ _ hs => ⟨hs.mounted, congrArg f hs.operation⟩

variable (hR : Mounted.ReadAlike R)

include hR

theorem pageSize_agrees : pageSize.Agrees (Beside R) :=
  .state_bind (fun _ _ hs => congrArg Pure.pure (hR.pageSize _ _ hs.mounted)) fun _ => .pure _

theorem fileExists_agrees (name : String) : (fileExists name).Agrees (Beside R) := by
  refine .state_bind (fun t u hs => ?_) fun t => ?_
  · rw [hs.operation, hR.idOf? _ _ hs.mounted]
  · split
    · exact .pure _
    · split <;> exact .pure _

theorem findFile_agrees (name : String) : (Mounted.findFile name).Agrees R := by
  refine .state_bind (fun m n hs => ?_) fun m => ?_
  · rw [hR.idOf? m n hs]
  · split
    · exact .pure _
    · exact .refuse _

theorem openFile_agrees (name : String) : (openFile name).Agrees (Beside R) := by
  refine .state_bind (fun t u hs => ?_) fun t => ?_
  · rw [hs.operation]
  · split
    · exact .pure _
    · exact .bind (inMounted_agrees (findFile_agrees hR name)) fun id => .guarded (.refuse _) (.pure _)

theorem pageCount_agrees (file : FileId) : (pageCount file).Agrees (Beside R) := by
  refine .state_bind (fun t u hs => ?_) fun t => ?_
  · rw [hs.operation]
  · apply Task.Agrees.guarded (.refuse _)
    split
    · exact .pure _
    · exact inMounted_agrees (hR.pageCount file)

theorem deleteFile_agrees (file : FileId) : (deleteFile file).Agrees (Beside R) :=
  .bind (pageCount_agrees hR file) fun _ => update_agrees _

theorem addPage_agrees (file : FileId) : (addPage file).Agrees (Beside R) :=
  .bind (pageCount_agrees hR file) fun _ => .bind (pageSize_agrees hR) fun _ =>
    .bind (update_agrees _) fun _ => .pure _

theorem checkBounds_agrees (file : FileId) (i : PageIndex) : (checkBounds file i).Agrees (Beside R) := by
  refine .bind (pageCount_agrees hR file) fun count => ?_
  split
  · exact .refuse _
  · exact .pure _

theorem draft_agrees (file : FileId) (i : PageIndex) : (draft file i).Agrees (Beside R) := by
  refine .bind (checkBounds_agrees hR file i) fun _ => .state_bind (fun t u hs => ?_) fun t => ?_
  · rw [hs.operation]
  · split
    · exact .pure _
    · exact .bind (inMounted_agrees (hR.loadPage file i)) fun _ => .pure _

theorem loadPage_agrees (file : FileId) (i : PageIndex) : (loadPage file i).Agrees (Beside R) :=
  .bind (draft_agrees hR file i) fun _ => .pure _

theorem writePage_agrees (file : FileId) (i : PageIndex) (writes : List Write) :
    (writePage file i writes).Agrees (Beside R) :=
  .bind (draft_agrees hR file i) fun _ => .bind (.ofChecked _) fun _ => update_agrees _

theorem edit_agrees {α ε : Type} [Within StorageError ε] (file : FileId) (i : PageIndex)
    (f : Page → Checked ε (α × List Write)) : (edit file i f).Agrees (Beside R) :=
  .bind (.embed (draft_agrees hR file i)) fun _ => .bind (.embed (update_agrees _)) fun _ =>
    .bind (.ofChecked _) fun _ => .bind (.embed (writePage_agrees hR file i _)) fun _ => .pure _

end

theorem addFile_agrees {R : Mounted → Mounted → Prop} (hR : Mounted.ServeAlike R) (name : String) :
    (addFile name).Agrees (Beside R) := by
  refine .bind (fileExists_agrees hR.toReadAlike name) fun known => .guarded (.refuse _) ?_
  exact .bind (inMounted_agrees hR.reserveId) fun _ => .bind (update_agrees _) fun _ => .pure _

end Transaction

namespace Tree

open Transaction

variable {R : Mounted → Mounted → Prop}

theorem decoded_agrees {α : Type} (x : Checked NodeError α) : (decoded x).Agrees (Beside R) := .ofChecked _

theorem file_agrees (tree : Tree) : tree.file.Agrees (Beside R) := by
  rw [file]
  split
  · exact .pure _
  · exact .refuse _

variable (hR : Mounted.ReadAlike R)

include hR

/-! ## Nodes -/

theorem readMeta_agrees (file : FileId) : (readMeta file).Agrees (Beside R) :=
  .bind (.embed (loadPage_agrees hR file 0)) fun _ => decoded_agrees _

theorem writeMeta_agrees (file : FileId) (m : TreeMeta) : (writeMeta file m).Agrees (Beside R) :=
  .embed (writePage_agrees hR file 0 _)

theorem readLeaf_agrees (file : FileId) (i : PageIndex) : (readLeaf file i).Agrees (Beside R) :=
  .bind (.embed (loadPage_agrees hR file i)) fun _ => decoded_agrees _

theorem readBranch_agrees (file : FileId) (i : PageIndex) : (readBranch file i).Agrees (Beside R) :=
  .bind (.embed (loadPage_agrees hR file i)) fun _ => decoded_agrees _

theorem writeNode_agrees (file : FileId) (i : PageIndex) (node : Node) :
    (writeNode file i node).Agrees (Beside R) := edit_agrees hR file i _

theorem appendNode_agrees (file : FileId) (node : Node) : (appendNode file node).Agrees (Beside R) :=
  .bind (.embed (addPage_agrees hR file)) fun _ => .bind (writeNode_agrees hR file _ node) fun _ => .pure _

theorem relink_agrees (file : FileId) (i : PageIndex) (f : NodeLinks → NodeLinks) :
    (relink file i f).Agrees (Beside R) := edit_agrees hR file i _

/-! ## Searches -/

theorem steps_agrees (file : FileId) : (steps file).Agrees (Beside R) :=
  .bind (.embed (pageCount_agrees hR file)) fun _ => .pure _

theorem descend_agrees (file : FileId) (choose : Branch → Option PageIndex) (fuel : Nat) (i : PageIndex) :
    (descend file choose fuel i).Agrees (Beside R) := by
  induction fuel generalizing i with
  | zero => exact .halt _
  | succ fuel ih =>
    refine .bind (.embed (loadPage_agrees hR file i)) fun page => .bind (decoded_agrees _) fun kind => ?_
    dsimp only
    split
    · exact .pure _
    · exact .bind (decoded_agrees _) fun branch => .guarded (.refuse _) (ih _)

theorem findLeaf_agrees (file : FileId) (root : PageIndex) (key : Key) :
    (findLeaf file root key).Agrees (Beside R) :=
  .bind (steps_agrees hR file) fun _ => descend_agrees hR file _ _ _

theorem collect_agrees (file : FileId) (r : KeyRange) (fuel : Nat) (limit : Option Nat)
    (entries : List Entry) (next : PageIndex) :
    (collect file r fuel limit entries next).Agrees (Beside R) := by
  induction fuel generalizing limit entries next with
  | zero => exact .halt _
  | succ fuel ih =>
    rw [collect]
    split
    · exact .pure _
    · exact .bind (readLeaf_agrees hR file next) fun _ => .bind (ih _ _ _) fun _ => .pure _

theorem walk_agrees {α : Type} (file : FileId) (follow : NodeLinks → PageIndex) (pick : Leaf → Option α)
    (fuel : Nat) (i : PageIndex) : (walk file follow pick fuel i).Agrees (Beside R) := by
  induction fuel generalizing i with
  | zero => exact .halt _
  | succ fuel ih =>
    refine .bind (readLeaf_agrees hR file i) fun leaf => ?_
    split
    · exact .pure _
    · split
      · exact .pure _
      · exact ih _

/-! ## Splits -/

theorem adopt_agrees (file : FileId) (parent child : PageIndex) :
    (adopt file parent child).Agrees (Beside R) := relink_agrees hR file child _

theorem growRoot_agrees (file : FileId) (left : PageIndex) (key : Key) (right : PageIndex) :
    (growRoot file left key right).Agrees (Beside R) :=
  .bind (appendNode_agrees hR file _) fun _ => .bind (adopt_agrees hR file _ _) fun _ =>
    .bind (adopt_agrees hR file _ _) fun _ => .pure _

theorem insertAbove_agrees (file : FileId) (root : PageIndex) (fuel : Nat) (left : PageIndex) (key : Key)
    (right parent : PageIndex) : (insertAbove file root fuel left key right parent).Agrees (Beside R) := by
  induction fuel generalizing left key right parent with
  | zero => exact .halt _
  | succ fuel ih =>
    rw [insertAbove]
    split
    · exact growRoot_agrees hR file left key right
    · refine .bind (readBranch_agrees hR file parent) fun branch =>
        .bind (.embed (pageSize_agrees hR)) fun size => ?_
      split
      · exact .bind (.ofChecked _) fun _ => .bind (appendNode_agrees hR file _) fun _ =>
          .bind (writeNode_agrees hR file parent _) fun _ =>
          .bind (.forM fun _ => adopt_agrees hR file _ _) fun _ => ih _ _ _ _
      · exact .bind (writeNode_agrees hR file parent _) fun _ => .pure _

theorem splitLeaf_agrees (file : FileId) (root i : PageIndex) (leaf : Leaf) :
    (splitLeaf file root i leaf).Agrees (Beside R) := by
  refine .bind (.ofChecked _) fun _ => .bind (appendNode_agrees hR file _) fun _ =>
    .bind (writeNode_agrees hR file i _) fun _ => ?_
  have habove {left : PageIndex} {key : Key} {right : PageIndex} :
      (do insertAbove file root (2 * (← steps file)) left key right leaf.links.parent :
        Task Transaction TreeError PageIndex).Agrees (Beside R) :=
    .bind (steps_agrees hR file) fun _ => insertAbove_agrees hR file root _ _ _ _ _
  split
  · exact .bind (relink_agrees hR file _ _) fun _ => habove
  · exact habove

theorem putEntry_agrees (file : FileId) (key : Key) (value : Int32) :
    (putEntry file key value).Agrees (Beside R) := by
  refine .bind (readMeta_agrees hR file) fun m => .bind (findLeaf_agrees hR file _ key) fun i =>
    .bind (readLeaf_agrees hR file i) fun leaf => ?_
  generalize leaf.insert key value = inserted
  have hrest (root : PageIndex) (count : UInt64) : (if inserted.2.isNone ∨ root ≠ m.root
      then writeMeta file ⟨root, count⟩ >>= fun _ => pure inserted.2
      else pure inserted.2 : Task Transaction TreeError (Option Int32)).Agrees (Beside R) := by
    split
    · exact .bind (writeMeta_agrees hR file _) fun _ => .pure _
    · exact .pure _
  refine .bind (.embed (pageSize_agrees hR)) fun size => ?_
  by_cases hfull : inserted.1.isOverfull size = true
  · rw [if_pos hfull]
    exact .bind (splitLeaf_agrees hR file _ _ _) fun root => hrest root _
  · rw [if_neg hfull]
    exact .bind (writeNode_agrees hR file _ _) fun _ => .bind (.pure _) fun root => hrest root _

theorem removeEntry_agrees (file : FileId) (key : Key) : (removeEntry file key).Agrees (Beside R) := by
  refine .bind (readMeta_agrees hR file) fun m => .bind (findLeaf_agrees hR file _ key) fun i =>
    .bind (readLeaf_agrees hR file i) fun leaf => ?_
  dsimp only
  split
  · exact .bind (writeNode_agrees hR file _ _) fun _ => .bind (writeMeta_agrees hR file _) fun _ => .pure _
  · exact .pure _

/-! ## Calls on trees -/

variable (tree : Tree)

omit hR in
theorem create_agrees (hs : Mounted.ServeAlike R) : tree.create.Agrees (Beside R) :=
  have hr := hs.toReadAlike
  .mapError _ (.bind (.embed (addFile_agrees hs _)) fun _ => .bind (.embed (addPage_agrees hr _)) fun _ =>
    .bind (.embed (writePage_agrees hr _ _ _)) fun _ => .bind (appendNode_agrees hr _ _) fun _ => .pure _)

theorem delete_agrees : tree.delete.Agrees (Beside R) :=
  .bind (file_agrees tree) fun _ => .mapError _ (.embed (deleteFile_agrees hR _))

theorem entryCount_agrees : tree.entryCount.Agrees (Beside R) :=
  .bind (file_agrees tree) fun _ => .bind (readMeta_agrees hR _) fun _ => .pure _

theorem get_agrees (key : Key) : (tree.get key).Agrees (Beside R) :=
  .bind (file_agrees tree) fun _ => .bind (readMeta_agrees hR _) fun _ =>
    .bind (findLeaf_agrees hR _ _ _) fun _ => .bind (readLeaf_agrees hR _ _) fun _ => .pure _

theorem put_agrees (key : Key) (value : Int32) : (tree.put key value).Agrees (Beside R) :=
  .bind (file_agrees tree) fun _ => .mapError _ (putEntry_agrees hR _ _ _)

theorem remove_agrees (key : Key) : (tree.remove key).Agrees (Beside R) :=
  .bind (file_agrees tree) fun _ => .mapError _ (removeEntry_agrees hR _ _)

theorem scan_agrees (r : KeyRange) (limit : Option Nat) : (tree.scan r limit).Agrees (Beside R) :=
  .bind (file_agrees tree) fun _ => .bind (readMeta_agrees hR _) fun _ =>
    .bind (findLeaf_agrees hR _ _ _) fun _ => .bind (readLeaf_agrees hR _ _) fun _ =>
    .bind (steps_agrees hR _) fun _ => collect_agrees hR _ _ _ _ _ _

theorem firstKeyBetween_agrees (low high : Key) : (tree.firstKeyBetween low high).Agrees (Beside R) :=
  .bind (scan_agrees hR tree _ _) fun _ => .pure _

theorem hasEntriesBetween_agrees (low high : Key) :
    (tree.hasEntriesBetween low high).Agrees (Beside R) :=
  .bind (firstKeyBetween_agrees hR tree _ _) fun _ => .pure _

theorem firstKey_agrees : tree.firstKey.Agrees (Beside R) :=
  .bind (file_agrees tree) fun _ => .bind (readMeta_agrees hR _) fun _ => .bind (steps_agrees hR _) fun _ =>
    .bind (descend_agrees hR _ _ _ _) fun _ => walk_agrees hR _ _ _ _ _

theorem lastKey_agrees : tree.lastKey.Agrees (Beside R) :=
  .bind (file_agrees tree) fun _ => .bind (readMeta_agrees hR _) fun _ => .bind (steps_agrees hR _) fun _ =>
    .bind (descend_agrees hR _ _ _ _) fun _ => walk_agrees hR _ _ _ _ _

theorem lastKeyBetween_agrees (low high : Key) : (tree.lastKeyBetween low high).Agrees (Beside R) :=
  .bind (file_agrees tree) fun _ => .bind (readMeta_agrees hR _) fun _ =>
    .bind (findLeaf_agrees hR _ _ _) fun _ => .bind (steps_agrees hR _) fun _ =>
    .bind (walk_agrees hR _ _ _ _ _) fun _ => .pure _

end Tree

namespace SizeMap

open Transaction

variable {R : Mounted → Mounted → Prop}

theorem file_agrees (m : SizeMap) : m.file.Agrees (Beside R) := by
  rw [file]
  split
  · exact .pure _
  · exact .refuse _

variable (hR : Mounted.ReadAlike R)

include hR

/-! ## Buckets -/

theorem buckets_agrees (file : FileId) : (buckets file).Agrees (Beside R) :=
  .bind (.embed (loadPage_agrees hR file 0)) fun _ => .ofChecked _

theorem slotsPerBucket_agrees : slotsPerBucket.Agrees (Beside R) :=
  .bind (.embed (pageSize_agrees hR)) fun _ => .pure _

theorem locate_agrees (file : FileId) (id : SlotId) : (locate file id).Agrees (Beside R) := by
  refine .bind (slotsPerBucket_agrees hR) fun capacity => .guarded (.halt _) ?_
  exact .bind (buckets_agrees hR file) fun count => .guarded (.refuse _) (.pure _)

theorem appendBucket_agrees (file : FileId) (count : Nat) : (appendBucket file count).Agrees (Beside R) := by
  refine .bind (.embed (addPage_agrees hR file)) fun i => .guarded (.refuse _) ?_
  exact .bind (.embed (writePage_agrees hR file i _)) fun _ => .bind (edit_agrees hR file 0 _) fun _ => .pure _

theorem allocate_agrees (file : FileId) : (allocate file).Agrees (Beside R) := by
  refine .bind (slotsPerBucket_agrees hR) fun capacity => .bind (buckets_agrees hR file) fun count => ?_
  dsimp only
  split
  -- the bucket tried first is a new one, or the last
  case' isTrue => refine .bind (appendBucket_agrees hR file 0) fun last => ?_
  case' isFalse => refine .bind (.pure count) fun last => ?_
  all_goals
    refine .bind (edit_agrees hR file _ _) fun slot => ?_
    cases slot with
    | some slot => exact .ofChecked _
    | none =>
      refine .bind (appendBucket_agrees hR file last) fun added => .bind (edit_agrees hR file _ _) fun slot => ?_
      cases slot with
      | some slot => exact .ofChecked _
      | none => exact .halt _

theorem onSlot_agrees {α : Type} (file : FileId) (id : SlotId)
    (f : SlotId → Page → Checked SizesError (α × List Write)) : (onSlot file id f).Agrees (Beside R) :=
  .bind (locate_agrees hR file id) fun _ => edit_agrees hR file _ _

/-! ## Calls on size maps -/

variable (m : SizeMap)

omit hR in
theorem create_agrees (hs : Mounted.ServeAlike R) : m.create.Agrees (Beside R) :=
  have hr := hs.toReadAlike
  .mapError _ (.bind (.embed (addFile_agrees hs _)) fun _ => .bind (.embed (addPage_agrees hr _)) fun _ =>
    .bind (.embed (writePage_agrees hr _ _ _)) fun _ => .pure _)

theorem delete_agrees : m.delete.Agrees (Beside R) :=
  .bind (file_agrees m) fun _ => .mapError _ (.embed (deleteFile_agrees hR _))

theorem add_agrees : m.add.Agrees (Beside R) :=
  .bind (file_agrees m) fun _ => .mapError _ (allocate_agrees hR _)

theorem increment_agrees (id : SlotId) : (m.increment id).Agrees (Beside R) :=
  .bind (file_agrees m) fun _ => .mapError _ (onSlot_agrees hR _ _ _)

theorem decrement_agrees (id : SlotId) : (m.decrement id).Agrees (Beside R) :=
  .bind (file_agrees m) fun _ => .mapError _ (onSlot_agrees hR _ _ _)

theorem remove_agrees (id : SlotId) : (m.remove id).Agrees (Beside R) :=
  .bind (file_agrees m) fun _ => .mapError _ (onSlot_agrees hR _ _ _)

theorem count_agrees (id : SlotId) : (m.count id).Agrees (Beside R) :=
  .bind (file_agrees m) fun _ => .bind (locate_agrees hR _ _) fun _ =>
    .bind (.embed (loadPage_agrees hR _ _)) fun _ => .ofChecked _

theorem bucketCount_agrees : m.bucketCount.Agrees (Beside R) :=
  .bind (file_agrees m) fun _ => buckets_agrees hR _

end SizeMap

end RefStore
