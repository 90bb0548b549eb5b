import Mathlib.Data.List.Nodup
import RefStore.Proofs.Maps
import RefStore.Proofs.Transactions
import RefStore.Proofs.Volumes

/-!
# What an operation sees

An operation over a volume that serves a stock sees files with names of their own, each with its pages
over those of the stock. Adding and deleting files and changing one of them keeps it so. What a
transaction answers is told by the files that it sees and their pages.
-/

namespace RefStore

/-- The pages of a registered file; any other file has none. -/
def Stock.held (s : Stock) (id : FileId) : List Page := if (s.names id).isSome then s.pages id else []

namespace Operation

/-- A file that an operation sees: it was added, or it is registered and was not deleted. -/
def Sees (op : Operation) (s : Stock) (id : FileId) (name : String) : Prop :=
  (id, name) ∈ op.created ∨ s.names id = some name ∧ id ∉ op.deleted

/-- An operation on the files of a stock. Files that it does not see have left nothing behind. -/
structure Over (size : Nat) (s : Stock) (op : Operation) : Prop where
  deleted : ∀ id ∈ op.deleted, s.names id ≠ Option.none
  fresh : ∀ e ∈ op.created, s.names e.1 = Option.none
  valid : ∀ e ∈ op.created, e.1 ≠ FileId.none
  ids : (op.created.map Prod.fst).Nodup
  titles : (op.created.map Prod.snd).Nodup
  free : ∀ e ∈ op.created, ∀ id, s.names id = some e.2 → id ∈ op.deleted
  counted : ∀ e ∈ op.created, op.counts[e.1]?.isSome
  drafts : ∀ {id name}, op.Sees s id name → ∃ pages, op.Drafts id size (s.held id) pages
  idle : ∀ {id}, (∀ name, ¬ op.Sees s id name) → (∀ i, op.draft? id i = Option.none) ∧
    op.counts[id]? = Option.none

namespace Over

variable {size : Nat} {s : Stock} {op op' : Operation} {id id' : FileId} {name name' : String}
  {base pages : List Page} {i : PageIndex} {d : Draft}

theorem fresh_ids (id : OperationId) (hb : ∀ id, (s.held id).length < UInt64.size)
    (hs : ∀ id, ∀ p ∈ s.held id, p.size = size) : (Operation.fresh id).Over size s where
  deleted id hid := by simp [Operation.fresh] at hid
  fresh e he := by simp [Operation.fresh] at he
  valid e he := by simp [Operation.fresh] at he
  ids := .nil
  titles := .nil
  free e he := by simp [Operation.fresh] at he
  counted e he := by simp [Operation.fresh] at he
  drafts {f _} _ := ⟨_, .fresh id f (hb f) (hs f)⟩
  idle _ := by simp [Operation.fresh, draft?]

/-- An added file has one name. -/
theorem created_name (h : op.Over size s) (he : (id, name) ∈ op.created)
    (he' : (id, name') ∈ op.created) : name = name' :=
  congrArg Prod.snd (List.inj_on_of_nodup_map h.ids he he' rfl)

theorem created_id (h : op.Over size s) (he : (id, name) ∈ op.created)
    (he' : (id', name) ∈ op.created) : id = id' :=
  congrArg Prod.fst (List.inj_on_of_nodup_map h.titles he he' rfl)

/-- At most one file that is seen carries a name. -/
theorem sees_unique (h : op.Over size s)
    (hinj : ∀ {id id' name}, s.names id = some name → s.names id' = some name → id = id')
    (hs : op.Sees s id name) (hs' : op.Sees s id' name) : id = id' := by
  rcases hs with hc | ⟨hn, hd⟩ <;> rcases hs' with hc' | ⟨hn', hd'⟩
  · exact h.created_id hc hc'
  · exact absurd (h.free _ hc id' hn') hd'
  · exact absurd (h.free _ hc' id hn) hd
  · exact hinj hn hn'

theorem createdId?_eq_some (h : op.Over size s) : op.createdId? name = some id ↔
    (id, name) ∈ op.created := by
  rw [createdId?, Option.map_eq_some_iff]
  constructor
  · rintro ⟨⟨f, x⟩, hf, rfl⟩
    obtain rfl : x = name := by simpa using List.find?_some hf
    exact List.mem_of_find?_eq_some hf
  · intro he
    cases hf : op.created.find? fun e => e.2 = name with
    | none =>
      have := List.find?_eq_none.mp hf _ he
      simp at this
    | some e =>
      obtain ⟨f, x⟩ := e
      obtain rfl : x = name := by simpa using List.find?_some hf
      exact ⟨_, rfl, h.created_id (List.mem_of_find?_eq_some hf) he⟩

/-- A file with a draft is seen. -/
theorem sees_of_draft (h : op.Over size s) (hd : op.draft? id i = some d) : ∃ name, op.Sees s id name := by
  by_contra hno
  rw [(h.idle (not_exists.mp hno)).1] at hd
  cases hd

/-- A page that is in the operation and has no draft is a page of the stock. -/
theorem plain (h : op.Drafts id size (s.held id) pages) (hn : op.draft? id i = Option.none)
    (hi : i.toNat < pages.length) :
    ∃ name, s.names id = some name ∧ (s.pages id)[i.toNat]? = pages[i.toNat]? := by
  obtain ⟨hlt, heq⟩ := h.plain i hn hi
  rw [Stock.held] at hlt heq
  cases hname : s.names id with
  | none =>
    rw [hname] at hlt
    exact absurd hlt (by simp)
  | some name =>
    rw [hname] at heq
    exact ⟨name, rfl, heq⟩

/-- What is done to one file that is seen leaves all others as they are. -/
theorem alter (h : op.Over size s) (hs : op.Sees s id name) (hc : op'.created = op.created)
    (hd : op'.deleted = op.deleted)
    (hother : ∀ f ≠ id, op'.counts[f]? = op.counts[f]? ∧ ∀ i, op'.draft? f i = op.draft? f i)
    (hcount : ∀ x, (id, x) ∈ op.created → op'.counts[id]?.isSome)
    (hdrafts : op'.Drafts id size (s.held id) pages) : op'.Over size s := by
  have hsees {f : FileId} {x : String} : op'.Sees s f x ↔ op.Sees s f x := by rw [Sees, Sees, hc, hd]
  refine ⟨hd ▸ h.deleted, hc ▸ h.fresh, hc ▸ h.valid, hc ▸ h.ids, hc ▸ h.titles,
    by rw [hc, hd]; exact h.free, fun e he => ?_, fun {f x} hf => ?_, fun {f} hf => ?_⟩
  · by_cases hid : e.1 = id
    · subst hid
      exact hcount e.2 (hc ▸ he)
    · rw [(hother _ hid).1]
      exact h.counted e (hc ▸ he)
  · by_cases hid : f = id
    · exact hid ▸ ⟨pages, hdrafts⟩
    · obtain ⟨ps, hps⟩ := h.drafts (hsees.mp hf)
      exact ⟨ps, hps.congr (hd ▸ hps.kept) (hother f hid).1 (hother f hid).2⟩
  · have hne : f ≠ id := fun he => hf name (he ▸ hsees.mpr hs)
    obtain ⟨hdraft, hnone⟩ := h.idle fun x hx => hf x (hsees.mpr hx)
    exact ⟨fun i => ((hother f hne).2 i).trans (hdraft i), (hother f hne).1.trans hnone⟩

/-- A file is added under a name that no file carries. -/
theorem add (h : op.Over size s) (hid : s.names id = Option.none) (hvalid : id ≠ FileId.none)
    (hnew : ∀ e ∈ op.created, e.1 ≠ id) (hfree : ∀ f, ¬ op.Sees s f name) :
    { op with created := op.created ++ [(id, name)], counts := op.counts.insert id 0 }.Over size s := by
  have hgone : id ∉ op.deleted := fun hd => h.deleted id hd hid
  have hunseen : ∀ x, ¬ op.Sees s id x := by
    rintro x (hc | ⟨hn, -⟩)
    · exact hnew _ hc rfl
    · rw [hid] at hn
      cases hn
  have hcounts (f : FileId) : (op.counts.insert id 0)[f]? = if f = id then some 0 else op.counts[f]? := by
    rw [lookup_insert]
  have hsees {f : FileId} {x : String} :
      Sees { op with created := op.created ++ [(id, name)], counts := op.counts.insert id 0 } s f x ↔
        op.Sees s f x ∨ f = id ∧ x = name := by
    simp only [Sees, List.mem_append, List.mem_singleton, Prod.mk.injEq]
    tauto
  refine ⟨h.deleted, fun e he => ?_, fun e he => ?_, ?_, ?_, fun e he f hf => ?_, fun e he => ?_,
    fun {f x} hf => ?_, fun {f} hf => ?_⟩
  · rcases List.mem_append.mp he with he | he
    · exact h.fresh e he
    · rw [List.mem_singleton.mp he]
      exact hid
  · rcases List.mem_append.mp he with he | he
    · exact h.valid e he
    · rw [List.mem_singleton.mp he]
      exact hvalid
  · rw [List.map_append, List.nodup_append]
    refine ⟨h.ids, by simp, fun a ha b hb => ?_⟩
    obtain ⟨e, he, rfl⟩ := List.mem_map.mp ha
    obtain rfl : b = id := by simpa using hb
    exact hnew e he
  · rw [List.map_append, List.nodup_append]
    refine ⟨h.titles, by simp, fun a ha b hb => ?_⟩
    obtain ⟨e, he, rfl⟩ := List.mem_map.mp ha
    obtain rfl : b = name := by simpa using hb
    exact fun heq => hfree e.1 (.inl (heq ▸ he))
  · rcases List.mem_append.mp he with he | he
    · exact h.free e he f hf
    · rw [List.mem_singleton.mp he] at hf
      by_contra hno
      exact hfree f (.inr ⟨hf, hno⟩)
  · rw [hcounts]
    split
    · rfl
    · next hne =>
      rcases List.mem_append.mp he with he | he
      · exact h.counted e he
      · exact absurd (by rw [List.mem_singleton.mp he]) hne
  · rcases hsees.mp hf with hf | ⟨rfl, rfl⟩
    · have hne : f ≠ id := fun he => hunseen x (he ▸ hf)
      obtain ⟨ps, hps⟩ := h.drafts hf
      exact ⟨ps, hps.congr hps.kept ((hcounts f).trans (if_neg hne)) fun _ => rfl⟩
    · rw [Stock.held, hid]
      exact ⟨[], .created size hgone (h.idle hunseen).1 x⟩
  · have hne : f ≠ id := fun he => hf name (hsees.mpr (.inr ⟨he, rfl⟩))
    obtain ⟨hdrafts, hcount⟩ := h.idle fun x hx => hf x (hsees.mpr (.inl hx))
    exact ⟨hdrafts, (hcounts f).trans ((if_neg hne).trans hcount)⟩

theorem mem_created_withoutFile {e : FileId × String} :
    e ∈ (op.withoutFile id).created ↔ e ∈ op.created ∧ e.1 ≠ id := by
  simp [withoutFile]

/-- Only a file that the operation did not add is noted for deletion. -/
theorem mem_deleted_withoutFile {f : FileId} : f ∈ (op.withoutFile id).deleted ↔
    f ∈ op.deleted ∨ f = id ∧ ∀ x, (id, x) ∉ op.created := by
  have hnew : (op.created.any fun e => e.1 = id) = true ↔ ∃ x, (id, x) ∈ op.created := by
    rw [List.any_eq_true]
    constructor
    · rintro ⟨⟨f, x⟩, he, hf⟩
      obtain rfl : f = id := by simpa using hf
      exact ⟨x, he⟩
    · rintro ⟨x, he⟩
      exact ⟨_, he, by simp⟩
  simp only [withoutFile]
  split
  · next hc =>
    obtain ⟨x, hx⟩ := hnew.mp hc
    exact ⟨.inl, fun hf => hf.resolve_right fun ⟨_, hno⟩ => hno x hx⟩
  · next hc =>
    have hno : ∀ x, (id, x) ∉ op.created := fun x hx => hc (hnew.mpr ⟨x, hx⟩)
    rw [Std.TreeSet.mem_insert, Std.compare_eq_iff_eq]
    constructor
    · rintro (rfl | hf)
      · exact .inr ⟨rfl, hno⟩
      · exact .inl hf
    · rintro (hf | ⟨rfl, -⟩)
      · exact .inr hf
      · exact .inl rfl

theorem sees_withoutFile (h : op.Over size s) {f : FileId} {x : String} :
    (op.withoutFile id).Sees s f x ↔ op.Sees s f x ∧ f ≠ id := by
  constructor
  · rintro (hc | ⟨hn, hd⟩)
    · obtain ⟨hc, hne⟩ := mem_created_withoutFile.mp hc
      exact ⟨.inl hc, hne⟩
    · rw [mem_deleted_withoutFile, not_or] at hd
      refine ⟨.inr ⟨hn, hd.1⟩, fun he => hd.2 ⟨he, fun y hy => ?_⟩⟩
      have := h.fresh _ hy
      rw [← he, hn] at this
      cases this
  · rintro ⟨hc | ⟨hn, hd⟩, hne⟩
    · exact .inl (mem_created_withoutFile.mpr ⟨hc, hne⟩)
    · refine .inr ⟨hn, fun hf => ?_⟩
      rcases mem_deleted_withoutFile.mp hf with hf | ⟨he, -⟩
      · exact hd hf
      · exact hne he

/-- A file is deleted: one that the operation added is forgotten. -/
theorem delete (h : op.Over size s) (hs : op.Sees s id name) : (op.withoutFile id).Over size s := by
  have hcounts (f : FileId) : (op.counts.erase id)[f]? = if f = id then Option.none else op.counts[f]? := by
    rw [lookup_erase]
  have hdrafts (f : FileId) : (op.drafts.erase id)[f]? = if f = id then Option.none else op.drafts[f]? := by
    rw [lookup_erase]
  have hregistered (hno : ∀ x, (id, x) ∉ op.created) : s.names id ≠ Option.none := by
    rcases hs with hc | ⟨hn, -⟩
    · exact absurd hc (hno _)
    · rw [hn]
      simp
  have hsub : (op.withoutFile id).created.Sublist op.created := List.filter_sublist
  refine ⟨fun f hf => ?_, fun e he => h.fresh e (mem_created_withoutFile.mp he).1,
    fun e he => h.valid e (mem_created_withoutFile.mp he).1, h.ids.sublist (hsub.map _), h.titles.sublist (hsub.map _),
    fun e he f hf => mem_deleted_withoutFile.mpr (.inl (h.free e (mem_created_withoutFile.mp he).1 f hf)),
    fun e he => ?_, fun {f x} hf => ?_, fun {f} hf => ?_⟩
  · rcases mem_deleted_withoutFile.mp hf with hf | ⟨rfl, hno⟩
    · exact h.deleted f hf
    · exact hregistered hno
  · obtain ⟨he, hne⟩ := mem_created_withoutFile.mp he
    exact ((hcounts e.1).trans (if_neg hne)).symm ▸ h.counted e he
  · obtain ⟨hf, hne⟩ := h.sees_withoutFile.mp hf
    obtain ⟨ps, hps⟩ := h.drafts hf
    refine ⟨ps, hps.congr (fun hd => ?_) ((hcounts f).trans (if_neg hne)) fun i => ?_⟩
    · rcases mem_deleted_withoutFile.mp hd with hd | ⟨he, -⟩
      · exact hps.kept hd
      · exact hne he
    · rw [draft?, draft?]
      exact congrArg (·.bind fun pages => pages[i]?) ((hdrafts f).trans (if_neg hne))
  · by_cases hid : f = id
    · refine ⟨fun i => ?_, (hcounts f).trans (if_pos hid)⟩
      rw [draft?]
      exact congrArg (·.bind fun pages => pages[i]?) ((hdrafts f).trans (if_pos hid))
    · obtain ⟨hd, hc⟩ := h.idle fun x hx => hf x (h.sees_withoutFile.mpr ⟨hx, hid⟩)
      refine ⟨fun i => Eq.trans ?_ (hd i), (hcounts f).trans ((if_neg hid).trans hc)⟩
      rw [draft?, draft?]
      exact congrArg (·.bind fun pages => pages[i]?) ((hdrafts f).trans (if_neg hid))

end Over

end Operation

namespace Transaction

/-- A transaction on a volume that serves a stock. Committed pages that it has touched are in memory. -/
structure Over (size : Nat) (s : Stock) (t : Transaction) : Prop where
  serves : t.mounted.Serves size s
  operation : t.operation.Over size s
  below : ∀ e ∈ t.operation.created, e.1 < t.mounted.volume.catalog.nextId
  warm : ∀ {id i d}, t.operation.draft? id i = some d → d.appended = false → t.mounted.Warm id i

theorem start_mounted {α : Type} (u : Task Mounted StorageError α) (t : Transaction) :
    (liftM u : Task Transaction StorageError α).start t =
      ((u.start t.mounted).1, ⟨(u.start t.mounted).2, t.operation⟩) := rfl

namespace Over

variable {size : Nat} {s : Stock} {t : Transaction} {id : FileId} {name : String} {pages : List Page}
  {i : PageIndex} {p : Page} {d : Draft} {m' : Mounted}

/-- Reading changes nothing for the operation. -/
theorem read (h : t.Over size s) (hs : m'.Serves size s) (hr : t.mounted.Reads m') :
    Over size s ⟨m', t.operation⟩ :=
  ⟨hs, h.operation, fun e he => hr.catalog ▸ h.below e he, fun hd ha => hr.warm (h.warm hd ha)⟩

/-- Files that it sees, and those it deletes, makes or changes, have ids that were handed out. -/
theorem sees_lt (h : t.Over size s) (hs : t.operation.Sees s id name) : id < t.mounted.volume.catalog.nextId := by
  rcases hs with hc | ⟨hname, -⟩
  · exact h.below _ hc
  · exact h.serves.catalog.next hname

theorem concerned_lt (h : t.Over size s) (hf : t.operation.Concerns id) : id < t.mounted.volume.catalog.nextId := by
  rcases hf with hd | ⟨name, hc⟩ | ⟨i, d, hx⟩
  · obtain ⟨x, hx⟩ := Option.ne_none_iff_exists'.mp (h.operation.deleted id hd)
    exact h.serves.catalog.next hx
  · exact h.below _ hc
  · obtain ⟨x, hs⟩ := h.operation.sees_of_draft (Operation.mem_changes.mp hx).1
    exact h.sees_lt hs

theorem fileExists (h : t.Over size s) (name : String) : ∃ b, (Transaction.fileExists name).Gives t b t ∧
    (b = true ↔ ∃ id, t.operation.Sees s id name) := by
  rw [Transaction.fileExists]
  cases hc : t.operation.createdId? name with
  | some id =>
    refine ⟨true, (Task.Gives.state t).bind (by rw [hc]; exact .pure true t), ?_⟩
    exact iff_of_true rfl ⟨id, .inl (h.operation.createdId?_eq_some.mp hc)⟩
  | none =>
    have hno : ∀ id, (id, name) ∉ t.operation.created := fun id he => by
      rw [h.operation.createdId?_eq_some.mpr he] at hc
      cases hc
    cases hid : t.mounted.volume.idOf? name with
    | none =>
      refine ⟨false, (Task.Gives.state t).bind (by rw [hc, hid]; exact .pure false t), ?_⟩
      refine iff_of_false (by simp) ?_
      rintro ⟨id, he | ⟨hn, -⟩⟩
      · exact hno id he
      · exact h.serves.idOf?_eq_none.mp hid id hn
    | some id =>
      have hn := h.serves.idOf?_eq_some.mp hid
      refine ⟨!t.operation.deleted.contains id,
        (Task.Gives.state t).bind (by rw [hc, hid]; exact .pure _ t), ?_⟩
      rw [Bool.not_eq_true', ← Bool.not_eq_true, Std.TreeSet.contains_iff_mem]
      constructor
      · exact fun hd => ⟨id, .inr ⟨hn, hd⟩⟩
      · rintro ⟨id', he | ⟨hn', hd⟩⟩
        · exact absurd he (hno id')
        · rwa [h.serves.inj hn hn']

theorem openFile (h : t.Over size s) (hs : t.operation.Sees s id name) :
    (Transaction.openFile name).Gives t id t := by
  refine (Task.Gives.state t).bind ?_
  rcases hs with he | ⟨hn, hd⟩
  · rw [h.operation.createdId?_eq_some.mpr he]
    exact .pure id t
  · have hnone : t.operation.createdId? name = none := by
      rw [Option.eq_none_iff_forall_ne_some]
      exact fun id' he => hd (h.operation.free _ (h.operation.createdId?_eq_some.mp he) id hn)
    have hf : (liftM (Mounted.findFile name) : Task Transaction StorageError FileId).Gives t id t :=
      Task.Gives.onPart (s := t) (h.serves.findFile hn)
    rw [hnone]
    refine hf.bind ?_
    rw [if_neg (by rwa [Std.TreeSet.contains_iff_mem])]
    exact .pure id t

theorem openFile_none (h : t.Over size s) (hno : ∀ id, ¬ t.operation.Sees s id name) :
    (Transaction.openFile name).start t = (refuse (.fileNotFound name), t) := by
  have hnone : t.operation.createdId? name = none := by
    rw [Option.eq_none_iff_forall_ne_some]
    exact fun id he => hno id (.inl (h.operation.createdId?_eq_some.mp he))
  rw [Transaction.openFile, (Task.Gives.state t).start_bind, hnone]
  by_cases hn : ∃ id, s.names id = some name
  · obtain ⟨id, hn⟩ := hn
    have hd : id ∈ t.operation.deleted := by
      by_contra hd
      exact hno id (.inr ⟨hn, hd⟩)
    have hf : (liftM (Mounted.findFile name) : Task Transaction StorageError FileId).Gives t id t :=
      Task.Gives.onPart (s := t) (h.serves.findFile hn)
    dsimp only
    rw [hf.start_bind, if_pos (Std.TreeSet.contains_iff_mem.mpr hd)]
    rfl
  · have hf : (liftM (Mounted.findFile name) : Task Transaction StorageError FileId).start t =
        (refuse (.fileNotFound name), t) := by
      rw [start_mounted, h.serves.findFile_none (not_exists.mp hn)]
    dsimp only
    rw [Task.start_bind, hf]
    rfl

theorem pageCount (h : t.Over size s) (hd : t.operation.Drafts id size (s.held id) pages)
    (hs : t.operation.Sees s id name) :
    (Transaction.pageCount id).Gives t (UInt64.ofNat pages.length) t := by
  refine (Task.Gives.state t).bind ?_
  dsimp only
  rw [if_neg (by rw [Std.TreeSet.contains_iff_mem]; exact hd.kept)]
  rcases hd.count with hc | ⟨hc, hlen⟩
  · rw [hc]
    exact .pure _ t
  · rw [hc]
    rcases hs with he | ⟨hn, -⟩
    · have := h.operation.counted _ he
      rw [hc] at this
      cases this
    · have hheld : s.held id = s.pages id := by rw [Stock.held, hn]; rfl
      rw [hlen, hheld]
      exact Task.Gives.onPart (s := t) (h.serves.pageCount hn)

theorem pageCount_none (h : t.Over size s) (hno : ∀ name, ¬ t.operation.Sees s id name) :
    (Transaction.pageCount id).start t = (refuse (.unknownFile id), t) := by
  rw [Transaction.pageCount, (Task.Gives.state t).start_bind]
  dsimp only
  by_cases hd : id ∈ t.operation.deleted
  · rw [if_pos (Std.TreeSet.contains_iff_mem.mpr hd)]
    rfl
  · have hn : s.names id = none := by
      cases hn : s.names id with
      | none => rfl
      | some name => exact absurd (.inr ⟨hn, hd⟩) (hno name)
    have hp : (liftM (Mounted.pageCount id) : Task Transaction StorageError PageIndex).start t =
        (refuse (.unknownFile id), t) := by
      rw [start_mounted, h.serves.pageCount_none hn]
    rw [if_neg (by rwa [Std.TreeSet.contains_iff_mem]), (h.operation.idle hno).2]
    exact hp

theorem checkBounds (h : t.Over size s) (hd : t.operation.Drafts id size (s.held id) pages)
    (hs : t.operation.Sees s id name) (hi : i.toNat < pages.length) :
    (Transaction.checkBounds id i).Gives t () t := by
  refine (h.pageCount hd hs).bind ?_
  rw [if_neg]
  · exact .pure () t
  · rw [UInt64.le_iff_toNat_le, UInt64.toNat_ofNat_of_lt' hd.bound]
    omega

/-- A page with a draft is shown with its changes. -/
theorem draft_some (h : t.Over size s) (hp : t.operation.Drafts id size (s.held id) pages)
    (hs : t.operation.Sees s id name) (hd : t.operation.draft? id i = some d) :
    (Transaction.draft id i).Gives t d t := by
  refine (h.checkBounds hp hs (hp.draft i d hd).1).bind ((Task.Gives.state t).bind ?_)
  rw [hd]
  exact .pure d t

/-- Any other page is loaded. -/
theorem draft_none (h : t.Over size s) (hp : t.operation.Drafts id size (s.held id) pages)
    (hs : t.operation.Sees s id name) (hn : t.operation.draft? id i = none)
    (hi : pages[i.toNat]? = some p) : ∃ f m', t.mounted.volume.files[id]? = some f ∧
      (s.pages id)[i.toNat]? = some p ∧
      (Transaction.draft id i).start t = ((f.shown i p).map fun p => ⟨.on p, false⟩, ⟨m', t.operation⟩) ∧
      m'.Serves size s ∧ t.mounted.Reads m' ∧ ∀ q, f.shown i p = .ok q → m'.Warm id i := by
  have hlt := (List.getElem?_eq_some_iff.mp hi).1
  obtain ⟨x, hx, heq⟩ := Operation.Over.plain hp hn hlt
  obtain ⟨f, hf, -, -⟩ := h.serves.file hx
  obtain ⟨m', hload, hserves, hreads, hwarm⟩ := h.serves.loadPage_start hf (heq.trans hi)
  refine ⟨f, m', hf, heq.trans hi, ?_, hserves, hreads, hwarm⟩
  have hlift : (liftM (Mounted.loadPage id i) : Task Transaction StorageError Page).start t =
      (f.shown i p, ⟨m', t.operation⟩) := by
    rw [start_mounted, hload]
  rw [Transaction.draft, (h.checkBounds hp hs hlt).start_bind, (Task.Gives.state t).start_bind, hn]
  dsimp only
  rw [Task.start_bind, hlift]
  cases f.shown i p with
  | error e => rfl
  | ok q => rfl

theorem loadPage_some (h : t.Over size s) (hp : t.operation.Drafts id size (s.held id) pages)
    (hs : t.operation.Sees s id name) (hd : t.operation.draft? id i = some d) :
    (Transaction.loadPage id i).Gives t d.overlay.page t :=
  (h.draft_some hp hs hd).bind (.pure _ t)

theorem loadPage_none (h : t.Over size s) (hp : t.operation.Drafts id size (s.held id) pages)
    (hs : t.operation.Sees s id name) (hn : t.operation.draft? id i = none)
    (hi : pages[i.toNat]? = some p) : ∃ f, t.mounted.volume.files[id]? = some f ∧
      (s.pages id)[i.toNat]? = some p ∧ ((Transaction.loadPage id i).start t).1 = f.shown i p := by
  obtain ⟨f, m', hf, heq, hstart, -⟩ := h.draft_none hp hs hn hi
  refine ⟨f, hf, heq, ?_⟩
  rw [Transaction.loadPage, Task.start_bind, hstart]
  cases f.shown i p with
  | error e => rfl
  | ok q => rfl

theorem loadPage_outside (h : t.Over size s) (hp : t.operation.Drafts id size (s.held id) pages)
    (hs : t.operation.Sees s id name) (hi : pages.length ≤ i.toNat) :
    (Transaction.loadPage id i).start t =
      (refuse (.pageOutOfBounds id i (UInt64.ofNat pages.length)), t) := by
  have hc : (Transaction.checkBounds id i).start t =
      (refuse (.pageOutOfBounds id i (UInt64.ofNat pages.length)), t) := by
    rw [Transaction.checkBounds, (h.pageCount hp hs).start_bind, if_pos]
    · rfl
    · rw [UInt64.le_iff_toNat_le, UInt64.toNat_ofNat_of_lt' hp.bound]
      exact hi
  rw [Transaction.loadPage, Task.start_bind, Transaction.draft, Task.start_bind, hc]
  rfl

theorem loadPage_unseen (h : t.Over size s) (hno : ∀ name, ¬ t.operation.Sees s id name)
    (i : PageIndex) : (Transaction.loadPage id i).start t = (refuse (.unknownFile id), t) := by
  rw [Transaction.loadPage, Task.start_bind, Transaction.draft, Task.start_bind, Transaction.checkBounds,
    Task.start_bind, h.pageCount_none hno]
  rfl

end Over

end Transaction

end RefStore
