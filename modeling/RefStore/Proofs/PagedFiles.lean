import RefStore.Disk.PagedFile
import RefStore.Proofs.FileCalls
import RefStore.Proofs.Maps
import RefStore.Proofs.Pages

/-!
# Pages of a file on disk

The bytes of a paged file are those of its pages, one after another. A page is read from its place and
written there; a write that is cut short leaves the first bytes of the new page over the old one.
-/

namespace RefStore

namespace Page

/-- The bytes of some pages. -/
def flat (ps : List Page) : List UInt8 := ps.flatMap toList

/-- The first bytes of one page over another. -/
def laid (k : Nat) (old new : Page) : Page :=
  ⟨Block.ofList (new.toList.take k ++ old.toList.drop k)⟩

/-- The pages of a file with one of them replaced, or one more. -/
def placed (ps : List Page) (i : PageIndex) (p : Page) : List Page :=
  if i.toNat < ps.length then ps.set i.toNat p else ps ++ [p]

/-- The pages of a file after a page was put at an index. A gap is filled with zero pages. -/
def filled (size : Nat) (ps : List Page) (i : PageIndex) (p : Page) : List Page :=
  (ps ++ List.replicate (i.toNat + 1 - ps.length) (zero size)).set i.toNat p

/-- The page at an index, zero past the end. -/
def pageAt (size : Nat) (ps : List Page) (i : PageIndex) : Page := ps[i.toNat]?.getD (zero size)

variable {ps : List Page} {p q : Page} {i : PageIndex} {n k : Nat}

@[simp] theorem flat_append (a b : List Page) : flat (a ++ b) = flat a ++ flat b :=
  List.flatMap_append

@[simp] theorem flat_cons (p : Page) (b : List Page) : flat (p :: b) = p.toList ++ flat b := rfl

@[simp] theorem flat_nil : flat [] = [] := rfl

theorem length_flat (h : ∀ p ∈ ps, p.size = n) : (flat ps).length = ps.length * n := by
  induction ps with
  | nil => simp
  | cons p ps ih =>
    rw [flat_cons, List.length_append, ih fun q hq => h q (List.mem_cons_of_mem _ hq),
      length_toList, h p List.mem_cons_self, List.length_cons, Nat.succ_mul, Nat.add_comm]

@[simp] theorem toList_laid (k : Nat) (old new : Page) :
    (laid k old new).toList = new.toList.take k ++ old.toList.drop k := by
  simp [laid, toList]

theorem size_laid (h : p.size = n) (h' : q.size = n) : (laid k p q).size = n := by
  rw [← length_toList, toList_laid, List.length_append, List.length_take, List.length_drop,
    length_toList, length_toList, h, h']
  omega

theorem laid_zero (old new : Page) : laid 0 old new = old := ext_toList (by simp)

theorem laid_full {old new : Page} (h : old.size = new.size) (hk : new.size ≤ k) :
    laid k old new = new := by
  refine ext_toList ?_
  rw [toList_laid, List.take_of_length_le (by simpa using hk),
    List.drop_of_length_le (by rw [length_toList, h]; exact hk), List.append_nil]

theorem exists_split {j : Nat} (h : ps[j]? = some p) : ∃ a b, ps = a ++ p :: b ∧ a.length = j := by
  obtain ⟨hj, rfl⟩ := List.getElem?_eq_some_iff.mp h
  refine ⟨ps.take j, ps.drop (j + 1), ?_, by rw [List.length_take]; omega⟩
  rw [List.getElem_cons_drop, List.take_append_drop]

/-- The bytes of one page among all. -/
theorem slice_flat (h : ∀ p ∈ ps, p.size = n) {j : Nat} (hp : ps[j]? = some p) :
    ((flat ps).drop (j * n)).take n = p.toList := by
  obtain ⟨a, b, rfl, rfl⟩ := exists_split hp
  have ha : (flat a).length = a.length * n := length_flat fun q hq => h q (by simp [hq])
  have hn : p.toList.length = n := h p (by simp)
  rw [flat_append, List.drop_left' ha, flat_cons, List.take_left' hn]

/-- Bytes put over one page leave all other pages. -/
theorem flat_set (h : ∀ p ∈ ps, p.size = n) {j : Nat} (hp : ps[j]? = some p) (hq : q.size = n)
    (k : Nat) : (flat ps).take (j * n) ++ q.toList.take k ++
      (flat ps).drop (j * n + (q.toList.take k).length) = flat (ps.set j (laid k p q)) := by
  obtain ⟨a, b, rfl, rfl⟩ := exists_split hp
  have ha : (flat a).length = a.length * n := length_flat fun q hq => h q (by simp [hq])
  have hn : p.toList.length = n := h p (by simp)
  have hset : (a ++ p :: b).set a.length (laid k p q) = a ++ laid k p q :: b := by
    rw [List.set_append_right _ _ (Nat.le_refl _), Nat.sub_self, List.set_cons_zero]
  have hdrop : p.toList.drop (q.toList.take k).length = p.toList.drop k := by
    by_cases hk : k ≤ n
    · rw [List.length_take, length_toList, hq, Nat.min_eq_left hk]
    · rw [List.length_take, length_toList, hq, Nat.min_eq_right (by omega),
        List.drop_of_length_le (by omega), List.drop_of_length_le (by omega)]
  have hle : (q.toList.take k).length ≤ p.toList.length := by
    rw [List.length_take, length_toList, hq, hn]
    omega
  rw [hset, flat_append, flat_append, List.take_left' ha, ← ha, ← List.drop_drop, List.drop_left,
    flat_cons, flat_cons, List.drop_append_of_le_length hle, toList_laid, hdrop]
  simp only [List.append_assoc]

theorem flat_replicate_zero (k n : Nat) : flat (List.replicate k (zero n)) = List.replicate (k * n) 0 := by
  induction k with
  | zero => simp
  | succ k ih => rw [List.replicate_succ, flat_cons, ih, toList_zero, List.replicate_append_replicate,
      Nat.succ_mul, Nat.add_comm]

theorem placed_of_lt (h : i.toNat < ps.length) : placed ps i p = ps.set i.toNat p := if_pos h

theorem placed_of_le (h : ps.length ≤ i.toNat) : placed ps i p = ps ++ [p] := if_neg (by omega)

theorem length_placed (h : i.toNat ≤ ps.length) :
    (placed ps i p).length = max ps.length (i.toNat + 1) := by
  rw [placed]
  split
  · rw [List.length_set]
    omega
  · rw [List.length_append, List.length_singleton]
    omega

theorem getElem?_placed (h : i.toNat ≤ ps.length) (j : Nat) :
    (placed ps i p)[j]? = if j = i.toNat then some p else ps[j]? := by
  rw [placed]
  split
  · next hlt =>
    rw [List.getElem?_set]
    split
    · next he => rw [if_pos he.symm]
    · next he => rw [if_neg (Ne.symm he)]
  · next hge =>
    split
    · next he => rw [he, show i.toNat = ps.length by omega, List.getElem?_concat_length]
    · next he =>
      rcases Nat.lt_or_gt_of_ne he with hlt | hgt
      · rw [List.getElem?_append_left (by omega)]
      · rw [List.getElem?_eq_none (by simp; omega), List.getElem?_eq_none (by omega)]

theorem mem_placed (h : q ∈ placed ps i p) : q ∈ ps ∨ q = p := by
  rw [placed] at h
  split at h
  · exact List.mem_or_eq_of_mem_set h
  · simpa using h

theorem length_filled : (filled n ps i p).length = max ps.length (i.toNat + 1) := by
  rw [filled, List.length_set, List.length_append, List.length_replicate]
  omega

theorem getElem?_filled (j : Nat) : (filled n ps i p)[j]? =
    if j = i.toNat then some p else if j < i.toNat ∧ ps.length ≤ j then some (zero n) else ps[j]? := by
  rw [filled]
  split
  · next he =>
    subst he
    exact List.getElem?_set_self (by rw [List.length_append, List.length_replicate]; omega)
  · next hne =>
    rw [List.getElem?_set_ne (Ne.symm hne), List.getElem?_append]
    split
    · next hlt => rw [if_neg (by omega)]
    · next hge =>
      rw [List.getElem?_replicate, List.getElem?_eq_none (Nat.le_of_not_lt hge)]
      refine if_congr ?_ rfl rfl
      omega

theorem mem_filled (h : q ∈ filled n ps i p) : q ∈ ps ∨ q = zero n ∨ q = p := by
  obtain ⟨j, hj⟩ := List.mem_iff_getElem?.mp h
  rw [getElem?_filled] at hj
  split at hj
  · exact .inr (.inr (Option.some.inj hj).symm)
  · split at hj
    · exact .inr (.inl (Option.some.inj hj).symm)
    · exact .inl (List.mem_of_getElem? hj)

theorem filled_of_lt (h : i.toNat < ps.length) : filled n ps i p = ps.set i.toNat p := by
  rw [filled, show i.toNat + 1 - ps.length = 0 by omega, List.replicate_zero, List.append_nil]

/-- There is no gap if the page comes right after the last one. -/
theorem filled_of_le (n : Nat) (h : i.toNat ≤ ps.length) : filled n ps i p = placed ps i p := by
  refine List.ext_getElem? fun j => ?_
  rw [getElem?_filled, getElem?_placed h, if_neg (c := j < i.toNat ∧ ps.length ≤ j) (by omega)]

theorem size_pageAt (h : ∀ p ∈ ps, p.size = n) : (pageAt n ps i).size = n := by
  rw [pageAt]
  cases hp : ps[i.toNat]? with
  | none => exact size_zero n
  | some p => exact h p (List.mem_of_getElem? hp)

/-- The pages of a file that is made longer by zero pages, up to an index. -/
def reaching (size : Nat) (ps : List Page) (i : PageIndex) : List Page :=
  ps ++ List.replicate (i.toNat + 1 - ps.length) (zero size)

theorem lt_length_reaching : i.toNat < (reaching n ps i).length := by
  rw [reaching, List.length_append, List.length_replicate]
  omega

theorem placed_reaching : placed (reaching n ps i) i p = filled n ps i p :=
  placed_of_lt lt_length_reaching

theorem getElem?_reaching (h : ps.length ≤ i.toNat) : (reaching n ps i)[i.toNat]? = some (zero n) := by
  rw [reaching, List.getElem?_append_right h, List.getElem?_replicate, if_pos (by omega)]

theorem pageAt_reaching (h : ps.length ≤ i.toNat) : pageAt n (reaching n ps i) i = pageAt n ps i := by
  rw [pageAt, pageAt, getElem?_reaching h, List.getElem?_eq_none h]
  rfl

theorem filled_pageAt (h : ps.length ≤ i.toNat) : filled n ps i (pageAt n ps i) = reaching n ps i := by
  obtain ⟨_, hzero⟩ := List.getElem?_eq_some_iff.mp (getElem?_reaching (n := n) h)
  rw [pageAt, List.getElem?_eq_none h, Option.getD_none, ← hzero]
  exact List.set_getElem_self _

theorem filled_bounded {size bound : Nat} (h : ps.length * size ≤ bound) (hi : (i.toNat + 1) * size ≤ bound) :
    (filled n ps i p).length * size ≤ bound := by
  rw [length_filled]
  rcases Nat.le_total ps.length (i.toNat + 1) with hle | hle
  · rwa [Nat.max_eq_right hle]
  · rwa [Nat.max_eq_left hle]

section Resident

variable {resident : Std.TreeMap PageIndex Page} {j : PageIndex}

/-- The pages in memory are pages of the file, also when one more was read. -/
theorem getElem?_of_insert (h : ∀ (j : PageIndex) q, resident[j]? = some q → ps[j.toNat]? = some q)
    (hp : ps[i.toNat]? = some p) (hq : (resident.insert i p)[j]? = some q) : ps[j.toNat]? = some q := by
  rw [lookup_insert] at hq
  split at hq
  · next he => exact he ▸ hp.trans hq
  · exact h j q hq

/-- And when one was put into both. -/
theorem filled_of_insert (h : ∀ (j : PageIndex) q, resident[j]? = some q → ps[j.toNat]? = some q)
    (hq : (resident.insert i p)[j]? = some q) : (filled n ps i p)[j.toNat]? = some q := by
  rw [lookup_insert] at hq
  rw [getElem?_filled]
  split at hq
  · next he =>
    rw [if_pos (by rw [he])]
    exact hq
  · next hne =>
    have hold := h j q hq
    have hlt := (List.getElem?_eq_some_iff.mp hold).1
    have hij : j.toNat ≠ i.toNat := fun heq => hne (UInt64.toNat_inj.mp heq)
    rw [if_neg hij, if_neg (by omega)]
    exact hold

theorem placed_of_insert (hi : i.toNat ≤ ps.length)
    (h : ∀ (j : PageIndex) q, resident[j]? = some q → ps[j.toNat]? = some q)
    (hq : (resident.insert i p)[j]? = some q) : (placed ps i p)[j.toNat]? = some q := by
  rw [← filled_of_le 0 hi]
  exact filled_of_insert h hq

end Resident

end Page

/-- A file of a directory that holds pages of one size. -/
structure Disk.Paged (d : Disk) (place : Location) (name : String) (n size : Nat) (ps : List Page) :
    Prop where
  node : d.node? place name = some n
  bytes : d.bytes? place name = some (Page.flat ps)
  sizes : ∀ p ∈ ps, p.size = size

theorem Contents.toList_overwrite_of_le (c : Contents) {offset : Nat} (w : ByteArray)
    (h : offset ≤ c.size) : (c.overwrite offset w).toList =
      c.toList.take offset ++ Block.toList w ++ c.toList.drop (offset + w.size) := by
  by_cases hw : w.size = 0
  · have hnil : Block.toList w = [] := List.eq_nil_of_length_eq_zero hw
    rw [overwrite_of_size_eq_zero _ _ _ hw, hnil, hw, List.append_nil, Nat.add_zero,
      List.take_append_drop]
  · rw [toList_overwrite _ _ _ hw, Nat.sub_eq_zero_of_le h, List.replicate_zero, List.append_nil]

namespace PagedFile

variable {d : Disk} {dir : Path} {place : Location} {name : String} {n size : Nat} {ps : List Page}
  {i : PageIndex} {page : Page} {cut : Disk → Prop}

theorem content_eq (h : d.Paged place name n size ps) : (d.content n).toList = Page.flat ps := by
  have := h.bytes
  rw [Disk.bytes?, h.node] at this
  exact Option.some.inj this

theorem content_size (h : d.Paged place name n size ps) :
    (d.content n).size = ps.length * size := by
  rw [← Contents.length_toList, content_eq h, Page.length_flat h.sizes]

/-- The handle of a file with some pages. -/
def handle (dir : Path) (name : String) (n size : Nat) (ps : List Page) : PagedFile :=
  ⟨n, dir.join name, size, UInt64.ofNat ps.length⟩

theorem lt_pageCount (hlen : ps.length < UInt64.size) :
    i < (handle dir name n size ps).pageCount ↔ i.toNat < ps.length := by
  rw [UInt64.lt_iff_toNat_lt, handle, UInt64.toNat_ofNat_of_lt' hlen]

theorem open_start (h : d.Houses dir place) (hf : dir.Fits name) (hp : d.Paged place name n size ps)
    (hs : 0 < size) :
    (PagedFile.open (dir.join name) size).start d = (.ok (handle dir name n size ps), d) := by
  have hopen : (liftM (Disk.openFile (dir.join name)) : Task Disk FileError Nat).Gives d n d :=
    Task.Gives.embed (Disk.openFile_start h hf hp.node)
  have hlen : (liftM (Disk.length n) : Task Disk FileError Nat).Gives d (ps.length * size) d := by
    refine Task.Gives.embed ?_
    rw [← content_size hp]
    exact (Task.Gives.state d).bind (.pure _ d)
  rw [PagedFile.open, hopen.start_bind, hlen.start_bind, if_neg (by omega), Nat.mul_div_cancel _ hs]
  rfl

theorem readPage_start (hp : d.Paged place name n size ps) (hlen : ps.length < UInt64.size)
    (hi : ps[i.toNat]? = some page) :
    ((handle dir name n size ps).readPage i size).start d = (.ok page, d) := by
  have hlt := (List.getElem?_eq_some_iff.mp hi).1
  have hin : ¬ (handle dir name n size ps).pageCount ≤ i :=
    UInt64.not_le.mpr ((lt_pageCount hlen).mpr hlt)
  have hroom : ¬ ((d.content n).size < i.toNat * size + size ∧ 0 < size) := by
    rw [content_size hp]
    have := Nat.mul_le_mul_right size (Nat.succ_le_of_lt hlt)
    rw [Nat.succ_mul] at this
    omega
  have hslice : (⟨(d.content n).slice (i.toNat * size) size⟩ : Page) = page := by
    refine Page.ext_toList ?_
    rw [Page.toList, Contents.toList_slice, content_eq hp, Page.slice_flat hp.sizes hi]
  have hread : (liftM (Disk.readAt n (i.toNat * size) size) : Task Disk FileError ByteArray).Gives d
      ((d.content n).slice (i.toNat * size) size) d := by
    refine Task.Gives.embed ((Task.Gives.state d).bind ?_)
    rw [if_neg hroom]
    exact .pure _ d
  have hsame : ¬ size ≠ (handle dir name n size ps).pageSize := not_not_intro rfl
  rw [PagedFile.readPage, if_neg hin]
  dsimp only
  rw [if_neg hsame]
  refine (hread.start_bind _).trans ?_
  rw [hslice]
  rfl

theorem create_survives (h : d.Houses dir place) (hf : dir.Fits name) (hn : d.node? place name = none)
    (hcut : ∀ d', Disk.OnlyAt dir place name d d' → cut d') :
    (PagedFile.create (dir.join name) size).Survives d cut (handle dir name d.nextNode size [])
      (d.effect (.addFile (place ++ [name]))) := by
  have hknown : (Disk.exists? (dir.join name)).Survives d cut false d := .ofReads fun o => by
    rw [Disk.exists_start (h.withOutage o) hf,
      show (withOutage o d).node? place name = none from hn]
    rfl
  exact .bind hknown.embed (.bind (Disk.createFile_survives h hf hn hcut).embed (.pure _ _))

theorem paged_store (h : d.Houses dir place) (hp : d.Paged place name n size ps) {c : Contents}
    {qs : List Page} (hc : c.toList = Page.flat qs) (hq : ∀ q ∈ qs, q.size = size) :
    (d.store n c).Paged place name n size qs where
  node := hp.node
  bytes := by rw [Disk.bytes?_store h hp.node, if_pos rfl, hc]
  sizes := hq

/-- The first bytes of a page written over another one. -/
theorem paged_overwrite (h : d.Houses dir place) (hp : d.Paged place name n size ps)
    (hi : i.toNat < ps.length) (hps : page.size = size) (k : Nat) :
    (d.store n ((d.content n).overwrite (i.toNat * size) (page.bytes.extract 0 k))).Paged place name n
      size (Page.placed ps i (Page.laid k (Page.pageAt size ps i) page)) := by
  have hold := List.getElem?_eq_getElem hi
  have hle : i.toNat * size ≤ (d.content n).size := by
    rw [content_size hp]
    exact Nat.mul_le_mul_right size (Nat.le_of_lt hi)
  have hw : Block.toList (page.bytes.extract 0 k) = page.toList.take k := by
    rw [Block.toList_extract, List.drop_zero]
    rfl
  have hpage : Page.pageAt size ps i = ps[i.toNat] := by rw [Page.pageAt, hold]; rfl
  rw [Page.placed_of_lt hi, hpage]
  refine paged_store h hp ?_ fun q hq => ?_
  · rw [Contents.toList_overwrite_of_le _ _ hle, ← Block.length_toList, hw, content_eq hp]
    exact Page.flat_set hp.sizes hold hps k
  · rcases List.mem_or_eq_of_mem_set hq with hq | rfl
    · exact hp.sizes q hq
    · exact Page.size_laid (hp.sizes _ (List.getElem_mem hi)) hps

theorem paged_extend (h : d.Houses dir place) (hp : d.Paged place name n size ps) (k : Nat) :
    (d.store n ((d.content n).resize ((ps.length + k) * size))).Paged place name n size
      (ps ++ List.replicate k (.zero size)) := by
  refine paged_store h hp ?_ fun q hq => ?_
  · rw [Contents.toList_resize, content_size hp, content_eq hp,
      List.take_of_length_le (by rw [Page.length_flat hp.sizes, Nat.add_mul]; omega),
      Page.flat_append, Page.flat_replicate_zero, Nat.add_mul, Nat.add_sub_cancel_left]
  · rcases List.mem_append.mp hq with hq | hq
    · exact hp.sizes q hq
    · rw [List.eq_of_mem_replicate hq, Page.size_zero]

theorem paged_restart (hp : d.Paged place name n size ps) : d.restart.Paged place name n size ps :=
  ⟨hp.node, hp.bytes, hp.sizes⟩

/-- A page is written over the one at its index. A cut leaves any part of it over the old one. -/
theorem overwrite_survives (h : d.Houses dir place) (hp : d.Paged place name n page.size ps)
    (hi : i.toNat < ps.length) (hroom : i.toNat * page.size + page.bytes.size ≤ Disk.longestFile)
    (hcut : ∀ d' k, Disk.OnlyAt dir place name d d' → d'.Paged place name n page.size
      (Page.placed ps i (Page.laid k (Page.pageAt page.size ps i) page)) → cut d') :
    ∃ d', (Disk.writeAt n (i.toNat * page.size) page.bytes).Survives d cut () d' ∧ d'.outage = d.outage ∧
      Disk.OnlyAt dir place name d d' ∧ d'.Paged place name n page.size (Page.placed ps i page) := by
  have hover (k : Nat) := paged_overwrite (i := i) h hp hi (rfl : page.size = page.size) k
  have hdone := hover page.size
  have hwhole : page.bytes.extract 0 page.size = page.bytes :=
    Block.toList_injective (by simp [Page.size, ← Block.length_toList])
  rw [Page.laid_full (Page.size_pageAt hp.sizes) (Nat.le_refl _), hwhole] at hdone
  refine ⟨_, Disk.writeAt_survives hroom fun k => ?_, rfl, .store h hp.node _, hdone⟩
  exact hcut _ k (Disk.OnlyAt.store h hp.node _).restart (paged_restart (hover k))

/-- A file is made longer by zero pages, up to an index. -/
theorem lengthen_survives (h : d.Houses dir place) (hp : d.Paged place name n size ps)
    (hi : ps.length ≤ i.toNat) (hroom : (i.toNat + 1) * size ≤ Disk.longestFile) (hcut : cut d.restart)
    (hcut' : ∀ d', Disk.OnlyAt dir place name d d' → d'.Paged place name n size (Page.reaching size ps i) →
      cut d') :
    ∃ d', (Disk.setLength n ((i.toNat + 1) * size)).Survives d cut () d' ∧ d'.outage = d.outage ∧
      Disk.OnlyAt dir place name d d' ∧ d'.Paged place name n size (Page.reaching size ps i) := by
  have hlong := paged_extend h hp (i.toNat + 1 - ps.length)
  rw [Nat.add_sub_cancel' (by omega)] at hlong
  have honly := Disk.OnlyAt.store h hp.node ((d.content n).resize ((i.toNat + 1) * size))
  exact ⟨_, Disk.setLength_survives hroom hcut (hcut' _ honly.restart (paged_restart hlong)), rfl, honly, hlong⟩

/-- A page replaces the one at its index or comes after the last one, with zero pages before it if need
be. A cut leaves the pages as they were, or with any part of the new page over the old one or over zeros. -/
theorem fillPage_survives (h : d.Houses dir place) (hp : d.Paged place name n size ps)
    (hlen : ps.length < UInt64.size) (hps : page.size = size) (hs : 0 < size)
    (hroom : (i.toNat + 1) * size ≤ Disk.longestFile) (hcut : cut d.restart)
    (hcut' : ∀ d' k, Disk.OnlyAt dir place name d d' →
      d'.Paged place name n size (Page.filled size ps i (Page.laid k (Page.pageAt size ps i) page)) →
      cut d') :
    ∃ d', ((handle dir name n size ps).writePage i page).Survives d cut
        (handle dir name n size (Page.filled size ps i page)) d' ∧ d'.outage = d.outage ∧
      Disk.OnlyAt dir place name d d' ∧ d'.Paged place name n size (Page.filled size ps i page) := by
  subst hps
  have hsame : ¬ page.size ≠ (handle dir name n page.size ps).pageSize := not_not_intro rfl
  have hoff : i.toNat * page.size + page.bytes.size ≤ Disk.longestFile := by
    rwa [Nat.succ_mul] at hroom
  rw [PagedFile.writePage]
  dsimp only
  rw [if_neg hsame]
  by_cases hlt : i.toNat < ps.length
  · have hfilled (q : Page) : Page.filled page.size ps i q = Page.placed ps i q :=
      Page.filled_of_le _ (Nat.le_of_lt hlt)
    have hhandle : handle dir name n page.size (Page.filled page.size ps i page) =
        handle dir name n page.size ps := by
      rw [handle, Page.filled_of_lt hlt, List.length_set]
      rfl
    simp only [hfilled] at hcut'
    obtain ⟨d', hwrite, ho, honly, hd⟩ := overwrite_survives h hp hlt hoff hcut'
    rw [if_pos ((lt_pageCount hlen).mpr hlt), hhandle, hfilled]
    exact ⟨d', .bind hwrite.embed (.pure _ _), ho, honly, hd⟩
  · have hge : ps.length ≤ i.toNat := Nat.le_of_not_lt hlt
    have hlength : (handle dir name n page.size ps).lengthUpTo i = .ok ((i.toNat + 1) * page.size) := by
      have hfits : (i.toNat + 1) * page.size < UInt64.size := Nat.lt_of_le_of_lt hroom (by decide)
      exact lengthUpTo_eq (Nat.lt_of_le_of_lt (Nat.le_mul_of_pos_right _ hs) hfits) hfits
    have hhandle : handle dir name n page.size (Page.filled page.size ps i page) =
        { handle dir name n page.size ps with pageCount := i + 1 } := by
      rw [handle, Page.length_filled, Nat.max_eq_right (by omega), UInt64.ofNat_add, UInt64.ofNat_toNat]
      rfl
    -- the page is written over the last one of the longer file, which is zero
    obtain ⟨d₁, hset, ho₁, honly₁, hp₁⟩ := lengthen_survives h hp hge hroom hcut fun d' honly hd => by
      refine hcut' d' 0 honly ?_
      rwa [Page.laid_zero, Page.filled_pageAt hge]
    obtain ⟨d₂, hwrite, ho₂, honly₂, hp₂⟩ := overwrite_survives honly₁.houses hp₁ Page.lt_length_reaching hoff
      fun d' k honly hd => by
        refine hcut' d' k (honly₁.trans honly) ?_
        rwa [Page.placed_reaching, Page.pageAt_reaching hge] at hd
    rw [Page.placed_reaching] at hp₂
    rw [if_neg ((lt_pageCount hlen).not.mpr hlt), hhandle]
    exact ⟨d₂, .bind (.ofChecked hlength d) (.bind hset.embed (.bind hwrite.embed (.pure _ _))), ho₂.trans ho₁,
      honly₁.trans honly₂, hp₂⟩

/-- No file gets longer than a disk takes. -/
theorem fillPage_refuses (hlen : ps.length < UInt64.size) (hi : ps.length ≤ i.toNat) (hps : page.size = size)
    (hlong : Disk.longestFile < (i.toNat + 1) * size) :
    ∃ cause, ((handle dir name n size ps).writePage i page).start d = (.error cause, d) := by
  have hsame : ¬ page.size ≠ (handle dir name n size ps).pageSize := not_not_intro hps
  rw [PagedFile.writePage]
  dsimp only
  rw [if_neg hsame, if_neg ((lt_pageCount hlen).not.mpr (by omega))]
  cases hlength : (handle dir name n size ps).lengthUpTo i with
  | error cause => exact ⟨_, Task.start_bind_error (Task.start_ofChecked _ d) _⟩
  | ok length =>
    obtain rfl := lengthUpTo_eq_ok hlength
    have hset : (Disk.setLength n ((i.toNat + 1) * size)).start d = (refuse ⟨"file too large"⟩, d) := by
      rw [Disk.setLength, if_pos hlong]
      rfl
    have hgives : (Task.ofChecked (.ok ((i.toNat + 1) * size)) : Task Disk FileError Nat).Gives d _ d :=
      .ofChecked rfl d
    exact ⟨_, (hgives.start_bind _).trans (Task.start_bind_error (Task.start_embed_error hset) _)⟩

/-- So it is when there is no gap. -/
theorem writePage_survives (h : d.Houses dir place) (hp : d.Paged place name n size ps)
    (hi : i.toNat ≤ ps.length) (hlen : ps.length < UInt64.size) (hps : page.size = size) (hs : 0 < size)
    (hroom : (i.toNat + 1) * size ≤ Disk.longestFile) (hcut : cut d.restart)
    (hcut' : ∀ d' k, Disk.OnlyAt dir place name d d' →
      d'.Paged place name n size (Page.placed ps i (Page.laid k (Page.pageAt size ps i) page)) →
      cut d') :
    ∃ d', ((handle dir name n size ps).writePage i page).Survives d cut
        (handle dir name n size (Page.placed ps i page)) d' ∧
      Disk.OnlyAt dir place name d d' ∧ d'.Paged place name n size (Page.placed ps i page) := by
  simp only [← Page.filled_of_le size hi] at hcut' ⊢
  obtain ⟨d', hs, -, hd⟩ := fillPage_survives h hp hlen hps hs hroom hcut hcut'
  exact ⟨d', hs, hd⟩

end PagedFile

end RefStore
