import RefStore.Proofs.TreeUpdates

/-!
# Entries of intact trees

Putting an entry into an intact tree, or removing one, leaves an intact tree. Its entries are those
before with this one put in or left out. Main statements: `Shows.put`, `Shows.remove` and
`exists_create`.
-/

namespace RefStore.Tree

/-- Page sizes that leave room for a few entries in every node. -/
def Ample (pageSize : Nat) : Prop := 1024 ≤ pageSize ∧ pageSize ≤ 65536

namespace Ample

variable {pageSize : Nat}

theorem leaf (h : Ample pageSize) : 1 ≤ Leaf.capacity pageSize := by
  have := h.1
  rw [Leaf.capacity]
  omega

theorem branch (h : Ample pageSize) : 2 ≤ Branch.capacity pageSize := by
  have := h.1
  rw [Branch.capacity]
  omega

end Ample

namespace Refilled

variable {t t' : Transaction} {file : FileId} {base : List Page} {s s' : Sheet} {h h' : Nat}
  {b : Shape h} {b' : Shape h'} {tip : Tip} {es : List Entry} {xs ys : List Tip}

theorem entries_eq (hr : Refilled t file base s b tip es t' s' b') (htips : b.tips = xs ++ tip :: ys) :
    b'.entries = xs.flatMap Tip.entries ++ es ++ ys.flatMap Tip.entries := by
  obtain ⟨leaves, hes, -, hplaces⟩ := hr.tips
  rw [Shape.entries, hplaces xs ys htips, List.flatMap_append, List.flatMap_append, hes]

theorem length_tips (hr : Refilled t file base s b tip es t' s' b')
    (htips : b.tips = xs ++ tip :: ys) : b'.tips.length ≤ b.tips.length + 1 := by
  obtain ⟨leaves, -, hfew, hplaces⟩ := hr.tips
  rw [hplaces xs ys htips, htips]
  simp only [List.length_append, List.length_cons]
  omega

/-- With a root and a count written that fit the tree, the file is in order again. -/
theorem intact (hr : Refilled t file base s b tip es t' s' b') {m : TreeMeta} (hroot : b'.page = m.root)
    (hcount : m.count.toNat = b'.entries.length) :
    Intact t.mounted.volume.pageSize { s' with info := m } b' where
  toLaid := ⟨hr.laid.stored, hr.laid.ordered, hr.laid.fits, hr.laid.pages, hr.laid.linked⟩
  root := hroot
  count := hcount

end Refilled

/-- A tree file after an update that leaves it in order, with the entries given and a few more leaves
at most. -/
structure Updated (t : Transaction) (file : FileId) (base : List Page) {h : Nat} (b : Shape h)
    (es : List Entry) (more : Nat) (t' : Transaction) (s' : Sheet) {h' : Nat} (b' : Shape h') :
    Prop where
  alters : Transaction.Alters file t t'
  shows : Shows t' file base s'
  intact : Intact t.mounted.volume.pageSize s' b'
  entries : b'.entries = es
  tips : b'.tips.length ≤ b.tips.length + more

namespace Shows

variable {t : Transaction} {file : FileId} {base : List Page} {s : Sheet} {h : Nat} {b : Shape h}

/-- Put an entry in its leaf, which is split if it has become too large. -/
theorem putLeaf (hs : Shows t file base s) (hb : Laid t.mounted.volume.pageSize s b) {tip : Tip}
    {links : NodeLinks} {key : Key} (hl : b.LeadsTo key tip)
    (hnode : s.node tip.page = some (.leaf ⟨links, tip.entries⟩)) {es : List Entry}
    (ho : Entries.InOrder es) (hkeys : ∀ x ∈ es, x ∈ tip.entries ∨ x.key = key)
    (hlen : es.length ≤ tip.entries.length + 1) (hample : Ample t.mounted.volume.pageSize)
    (hsize : 2 * s.size < UInt64.size) {α : Type} {f : PageIndex → Task Transaction TreeError α} :
    ∃ t' s' h', ∃ b' : Shape h', Refilled t file base s b tip es t' s' b' ∧
      (if (⟨links, es⟩ : Leaf).isOverfull t.mounted.volume.pageSize then
          splitLeaf file b.page tip.page ⟨links, es⟩ >>= f
        else Tree.writeNode file tip.page (.leaf ⟨links, es⟩) >>= fun _ => pure b.page >>= f).start t =
        (f b'.page).start t' := by
  have hfits : tip.entries.length ≤ Leaf.capacity t.mounted.volume.pageSize := hl.fits hb.fits
  by_cases hover : (⟨links, es⟩ : Leaf).isOverfull t.mounted.volume.pageSize = true
  · have hlt : Leaf.capacity t.mounted.volume.pageSize < es.length := by
      simpa [Leaf.isOverfull] using hover
    obtain ⟨t', s', h', b', hg, hr⟩ := hs.refill_split hb hl hnode ho hkeys (by omega) hample.leaf
      hample.branch hsize
    refine ⟨t', s', h', b', hr, ?_⟩
    rw [if_pos hover, hg.start_bind]
  · have hroom : es.length ≤ Leaf.capacity t.mounted.volume.pageSize := by
      simpa [Leaf.isOverfull] using hover
    obtain ⟨t', s', b', hg, hr, hpage, -⟩ := hs.refill hb hl hnode ho hkeys hroom
    refine ⟨t', s', h, b', hr, ?_⟩
    rw [if_neg hover, hg.start_bind, Task.Gives.start_bind (.pure b.page t'), hpage]

/-- The last step of putting an entry: the meta data are written if they are new. -/
theorem noteMeta (hs : Shows t file base s) (m : TreeMeta) {c : Prop} [Decidable c]
    (hsame : ¬ c → m = s.info) {α : Type} (a : α) :
    ∃ t', (if c then Tree.writeMeta file m >>= fun _ => pure a else pure a :
        Task Transaction TreeError α).Gives t a t' ∧ Transaction.Alters file t t' ∧
      Shows t' file base { s with info := m } := by
  by_cases hc : c
  · obtain ⟨t', hg, ha, hs'⟩ := hs.writeMeta m
    exact ⟨t', by rw [if_pos hc]; exact hg.bind (.pure a t'), ha, hs'⟩
  · refine ⟨t, by rw [if_neg hc]; exact .pure a t, .refl file t, ?_⟩
    rw [hsame hc]
    exact hs

theorem putEntry (hs : Shows t file base s) (hb : Intact t.mounted.volume.pageSize s b)
    (hample : Ample t.mounted.volume.pageSize) (hsize : 2 * s.size < UInt64.size)
    (hcount : b.entries.length + 1 < UInt64.size) (key : Key) (value : Int32) :
    ∃ below old above t' s' h', ∃ b' : Shape h', Entries.Cut b.entries key below old above ∧
      (Tree.putEntry file key value).Gives t old t' ∧
      Updated t file base b (below ++ ⟨key, value⟩ :: above) 1 t' s' b' := by
  obtain ⟨tip, links, xs, ys, hl, htips, hin, hx, hy, hnode, hfind⟩ := hs.exists_leafFor hb key
  obtain ⟨below, old, above, hcut, -, hinsert, -⟩ :=
    Leaf.exists_cut ⟨links, tip.entries⟩ hin key
  have hall := cut_tips htips hcut hx hy
  have hkeys : ∀ x ∈ below ++ ⟨key, value⟩ :: above, x ∈ tip.entries ∨ x.key = key := by
    intro x hx
    rcases List.mem_append.mp hx with hx | hx
    · exact .inl (hcut.mem (List.mem_append_left _ hx))
    · rcases List.mem_cons.mp hx with rfl | hx
      · exact .inr rfl
      · exact .inl (hcut.mem (List.mem_append_right _ hx))
  obtain ⟨t₁, s₁, h', b', hr, hrun⟩ := hs.putLeaf hb.toLaid hl hnode (hcut.inOrder_put hin value)
    hkeys (hcut.length_put_le value) hample hsize (f := fun root => do
      let count := if old.isNone then s.info.count + 1 else s.info.count
      if old.isNone ∨ root ≠ b.page then Tree.writeMeta file ⟨root, count⟩
      return old)
  have hentries : b'.entries =
      (xs.flatMap Tip.entries ++ below) ++ ⟨key, value⟩ :: (above ++ ys.flatMap Tip.entries) := by
    rw [hr.entries_eq htips]
    simp only [List.append_assoc, List.cons_append]
  have hcount' := hall.count_put hb.count hcount value
  rw [← hentries] at hcount'
  set m : TreeMeta := ⟨b'.page, if old.isNone then s.info.count + 1 else s.info.count⟩ with hm
  obtain ⟨t₂, hg, ha, hs₂⟩ := hr.shows.noteMeta m (c := old.isNone ∨ b'.page ≠ b.page)
    (fun hc => by
      obtain ⟨hold, hroot⟩ := not_or.mp hc
      rw [hm, if_neg hold, not_not.mp hroot, hb.root, hr.info]) old
  refine ⟨_, old, _, t₂, _, h', b', hall, ?_, hr.alters.trans ha, hs₂, hr.intact rfl hcount', hentries,
    hr.length_tips htips⟩
  rw [Task.Gives, Tree.putEntry, hs.readMeta.start_bind, hfind.start_bind,
    (hs.readLeaf hnode).start_bind, hinsert]
  dsimp only
  rw [(Transaction.pageSize_gives t).embed.start_bind, ← hb.root]
  exact hrun.trans hg

theorem removeEntry (hs : Shows t file base s) (hb : Intact t.mounted.volume.pageSize s b) (key : Key) :
    ∃ below old above t' s' h', ∃ b' : Shape h', Entries.Cut b.entries key below old above ∧
      (Tree.removeEntry file key).Gives t old t' ∧
      Updated t file base b (below ++ above) 0 t' s' b' := by
  obtain ⟨tip, links, xs, ys, hl, htips, hin, hx, hy, hnode, hfind⟩ := hs.exists_leafFor hb key
  obtain ⟨below, old, above, hcut, -, -, hremove⟩ :=
    Leaf.exists_cut ⟨links, tip.entries⟩ hin key
  have hall := cut_tips htips hcut hx hy
  have hstart : (Tree.removeEntry file key).start t =
      (if old.isSome then do
        Tree.writeNode file tip.page (.leaf ⟨links, below ++ above⟩)
        Tree.writeMeta file
          { s.info with count := if s.info.count = 0 then 0 else s.info.count - 1 }
        return old
      else return old : Task Transaction TreeError (Option Int32)).start t := by
    rw [Tree.removeEntry, hs.readMeta.start_bind, hfind.start_bind,
      (hs.readLeaf hnode).start_bind, hremove]
  cases old with
  | none =>
    have hsame : b.entries = _ := hall.eq
    refine ⟨_, none, _, t, s, h, b, hall, hstart, .refl file t, hs, hb, ?_, Nat.le_refl _⟩
    simpa using hsame
  | some v =>
    obtain ⟨t₁, s₁, b', hg₁, hr, hpage, htips'⟩ := hs.refill hb.toLaid hl hnode (hcut.inOrder_drop hin)
      (fun x hx => .inl (hcut.mem hx)) (Nat.le_trans hcut.length_drop_le (hl.fits hb.fits))
    have hentries : b'.entries =
        (xs.flatMap Tip.entries ++ below) ++ (above ++ ys.flatMap Tip.entries) := by
      rw [hr.entries_eq htips]
      simp only [List.append_assoc]
    have hcount' := hall.count_drop hb.count
    rw [← hentries] at hcount'
    obtain ⟨t₂, hg₂, ha₂, hs₂⟩ := hr.shows.writeMeta
      { s.info with count := if s.info.count = 0 then 0 else s.info.count - 1 }
    refine ⟨_, some v, _, t₂, _, h, b', hall, hstart.trans ?_, hr.alters.trans ha₂, hs₂,
      hr.intact (hpage.trans hb.root) hcount', hentries, Nat.le_of_eq htips'⟩
    rw [Option.isSome_some, if_pos rfl]
    exact hg₁.bind (hg₂.bind (.pure _ t₂))

variable {tree : Tree}

theorem put (hatt : tree.component.isAttached) (hs : Shows t tree.component.file base s)
    (hb : Intact t.mounted.volume.pageSize s b) (hample : Ample t.mounted.volume.pageSize)
    (hsize : 2 * s.size < UInt64.size) (hcount : b.entries.length + 1 < UInt64.size) (key : Key)
    (value : Int32) :
    ∃ below old above t' s' h', ∃ b' : Shape h', Entries.Cut b.entries key below old above ∧
      (tree.put key value).Gives t old t' ∧
      Updated t tree.component.file base b (below ++ ⟨key, value⟩ :: above) 1 t' s' b' := by
  obtain ⟨below, old, above, t', s', h', b', hcut, hg, hu⟩ :=
    hs.putEntry hb hample hsize hcount key value
  exact ⟨below, old, above, t', s', h', b', hcut, (file_gives hatt t).bind (hg.mapError _), hu⟩

theorem remove (hatt : tree.component.isAttached) (hs : Shows t tree.component.file base s)
    (hb : Intact t.mounted.volume.pageSize s b) (key : Key) :
    ∃ below old above t' s' h', ∃ b' : Shape h', Entries.Cut b.entries key below old above ∧
      (tree.remove key).Gives t old t' ∧
      Updated t tree.component.file base b (below ++ above) 0 t' s' b' := by
  obtain ⟨below, old, above, t', s', h', b', hcut, hg, hu⟩ := hs.removeEntry hb key
  exact ⟨below, old, above, t', s', h', b', hcut, (file_gives hatt t).bind (hg.mapError _), hu⟩

end Shows

/-- A tree is created under a name that is free. It has an empty leaf for its root. -/
theorem exists_create {t : Transaction} {tree : Tree}
    (hfree : (Transaction.fileExists tree.fileName).Gives t false t)
    (hdel : t.mounted.volume.catalog.nextId ∉ t.operation.deleted)
    (hdraft : ∀ i, t.operation.draft? t.mounted.volume.catalog.nextId i = none)
    (hample : Ample t.mounted.volume.pageSize) :
    ∃ t' s, tree.create.Gives t (tree.attached t.mounted.volume.catalog.nextId) t' ∧
      Transaction.Alters t.mounted.volume.catalog.nextId (t.withFile tree.fileName) t' ∧
      Shows t' t.mounted.volume.catalog.nextId [] s ∧
      Intact t'.mounted.volume.pageSize s (Shape.leaf ⟨1, []⟩) := by
  set file := t.mounted.volume.catalog.nextId with hfile
  have hroom : 64 ≤ (t.withFile tree.fileName).mounted.volume.pageSize :=
    Nat.le_trans (by decide) hample.1
  have hnone : (t.withFile tree.fileName).Shows file [] [] :=
    ⟨.inl ⟨by simp [Transaction.withFile, hfile], rfl⟩, .created _ hdel hdraft _⟩
  obtain ⟨t₂, hg₂, ha₂, hs₂⟩ := hnone.addPage (by decide)
  replace hg₂ : (Transaction.addPage file).Gives _ 0 t₂ := hg₂
  obtain ⟨hins, hmeta⟩ := TreeMeta.inPage_fresh ⟨1, 0⟩
    (.zero (t.withFile tree.fileName).mounted.volume.pageSize) (by rw [Page.size_zero]; exact hroom)
  obtain ⟨t₃, hg₃, ha₃, hs₃⟩ := hs₂.writePage (i := 0) rfl hins
  have hsheet : Shows t₃ file [] ⟨1, ⟨1, 0⟩, fun _ => none⟩ := by
    refine ⟨⟨_, hs₃, rfl, ⟨_, rfl, hmeta⟩, fun i n hn => by cases hn⟩, ?_, ?_⟩
    · rw [ha₃.mounted, ha₂.mounted]
      exact hroom
    · rw [ha₃.mounted, ha₂.mounted]
      exact hample.2
  obtain ⟨t₄, hg₄, ha₄, hs₄⟩ := hsheet.appendNode (.leaf (.empty 0)) (by decide)
    (Nat.zero_le _) trivial
  refine ⟨t₄, _, Task.Gives.mapError _ ?_, (ha₂.trans ha₃).trans ha₄, hs₄, ⟨?_, ?_, ?_, ?_, ?_⟩, rfl, rfl⟩
  · rw [Task.Gives, (Transaction.addFile_free hfree).embed.start_bind, hg₂.embed.start_bind,
      hg₃.embed.start_bind, hg₄.start_bind]
    rfl
  · exact rfl
  · exact ⟨fun _ hlo => (by cases hlo), .nil, fun e he => absurd he List.not_mem_nil⟩
  · exact Nat.zero_le _
  · exact List.Perm.refl _
  · exact ⟨rfl, trivial⟩

/-- A tree is created only under a name that is free. -/
theorem create_gives {t t' : Transaction} {tree made : Tree} (h : tree.create.Gives t made t') :
    (Transaction.fileExists tree.fileName).Gives t false t := by
  obtain ⟨_, _, h₁, -⟩ := Task.bind_gives (Task.mapError_gives h)
  exact Transaction.addFile_gives (Task.embed_gives h₁)

end RefStore.Tree
