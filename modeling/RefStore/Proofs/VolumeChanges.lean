import RefStore.Proofs.Maps
import RefStore.Proofs.Residents
import RefStore.Proofs.Volumes

/-!
# Changing a volume that serves a stock

Each step of carrying out an operation, if it succeeds, makes of a volume that serves a stock one that
serves the stock with the same change. Files keep the pages that they have in memory.
-/

namespace RefStore

/-- Of a file that stays, another page was written. -/
theorem OpenFile.Serves.written {f : OpenFile} {d d' : Disk} {temporary : Path} {size : Nat}
    {ps : List Page} {i : PageIndex} {page : Page} {g : PagedFile}
    (h : f.Serves d temporary size ps) (hi : i.toNat ≤ ps.length)
    (hb : i.toNat + 1 < UInt64.size) (hw : (f.file.writePage i page).Gives d g d') :
    OpenFile.Serves { f with file := g, resident := f.resident.insert i page } d' temporary size
      (Page.placed ps i page) ∧ g.node = f.file.node ∧
      Disk.Leaving temporary (some f.file.node) d d' := by
  obtain ⟨hsize, rfl, hr⟩ := PagedFile.writePage_gives hw
  rw [h.pageSize] at hsize
  have hnode : (if i < f.file.pageCount then f.file else { f.file with pageCount := i + 1 }).node =
      f.file.node := by
    split
    · rfl
    · rfl
  have hlen := Page.length_placed (p := page) hi
  have hlt := h.length_lt
  refine ⟨⟨?_, ?_, by omega, fun q hq => ?_, ?_, fun j q hq => ?_, fun j q hq hn => ?_⟩, hnode,
    .ofRewrites hr temporary⟩
  · dsimp only
    split
    · exact h.pageSize
    · exact h.pageSize
  · dsimp only
    rw [hlen]
    split
    · next hin =>
      have := h.lt_pageCount.mp hin
      rw [Nat.max_eq_left (by omega)]
      exact h.pageCount
    · next hout =>
      have := mt h.lt_pageCount.mpr hout
      rw [Nat.max_eq_right (by omega), UInt64.ofNat_add, UInt64.ofNat_toNat]
      rfl
  · rcases Page.mem_placed hq with hq | rfl
    · exact h.sizes q hq
    · exact hsize
  · rw [hnode, hr.next]
    exact h.node_lt
  · exact Page.placed_of_insert hi h.resident hq
  · -- a page that is still to be read stands elsewhere in the file
    rw [lookup_insert] at hn
    split at hn
    · cases hn
    next hne =>
    have hji : j.toNat ≠ i.toNat := fun he => hne (UInt64.toNat_inj.mp he)
    rw [Page.getElem?_placed hi, if_neg hji] at hq
    obtain ⟨hhas, hspare⟩ := h.stored j q hq hn
    rw [hnode]
    refine ⟨fun k b hk => ?_, fun hlook => hspare (hr.lookup? hlook)⟩
    have hk' : k < size := by
      rw [← h.sizes q (List.mem_of_getElem? hq), ← Page.length_toList]
      exact (List.getElem?_eq_some_iff.mp hk).1
    rw [hr.self]
    apply Contents.getElem?_overwrite_resize (hhas k b hk)
    · intro hout
      have hge := mt h.lt_pageCount.mpr hout
      have hj := (List.getElem?_eq_some_iff.mp hq).1
      rw [h.pageSize]
      exact PagedFile.place_lt (by omega) hk'
    · have hps : page.bytes.size = size := hsize
      rw [PagedFile.offset, h.pageSize, hps]
      exact PagedFile.place_apart hji hk'

namespace Mounted

variable {m m' : Mounted} {size : Nat} {s : Stock} {id : FileId} {name : String} {i : PageIndex}
  {page : Page}

theorem recatalog_leaving {g : Catalog → Catalog} {u : Unit} (h : (recatalog g).Gives m u m') :
    m'.volume = { m.volume with catalog := g m.volume.catalog } ∧
      Disk.Leaving (m.volume.directory.join Catalog.temporaryName) none m.disk m'.disk := by
  obtain ⟨_, m₁, h₁, h⟩ := Task.bind_gives h
  obtain rfl := Task.gives_change h₁
  obtain ⟨_, m₂, h₂, h⟩ := Task.bind_gives h
  obtain ⟨rfl, rfl⟩ := (Task.Gives.state _).unique h₂
  obtain ⟨d, hd, rfl⟩ := Task.onPart_gives h
  exact ⟨rfl, Catalog.save_leaving hd⟩

namespace Serves

theorem openFile_gives {f : OpenFile} (h : m.Serves size s) (hg : (Mounted.openFile id).Gives m f m') :
    m = m' ∧ m.volume.files[id]? = some f ∧ s.names id = some f.name := by
  cases hf : m.volume.files[id]? with
  | none =>
    rw [Task.Gives, openFile_unknown hf] at hg
    cases hg
  | some g =>
    obtain ⟨rfl, rfl⟩ := (openFile_known hf).unique hg
    exact ⟨rfl, rfl, h.named hf⟩

theorem delete (h : m.Serves size s) {u : Unit} (hg : (Mounted.delete id).Gives m u m') :
    m'.Serves size (s.without id) ∧ m'.volume.files = m.volume.files.erase id := by
  obtain ⟨f, m₀, h₁, hg⟩ := Task.bind_gives hg
  obtain ⟨rfl, hf, hid⟩ := h.openFile_gives h₁
  obtain ⟨_, m₁, h₂, hg⟩ := Task.bind_gives hg
  obtain rfl := Task.gives_change h₂
  obtain ⟨_, m₂, h₃, hg⟩ := Task.bind_gives hg
  obtain ⟨rfl, rfl⟩ := (Task.Gives.state _).unique h₃
  have hreg : (m.volume.catalog.names[id]?).isSome = true := by rw [h.catalog.name, hid]; rfl
  dsimp only at hg
  rw [if_pos hreg] at hg
  obtain ⟨_, m₃, h₄, hg⟩ := Task.bind_gives hg
  obtain ⟨hv, hl⟩ := recatalog_leaving h₄
  obtain ⟨d, hd, rfl⟩ := Task.inPart_gives hg
  have hleaving : Disk.Leaving (m.volume.directory.join Catalog.temporaryName) none m.disk d := by
    refine hl.trans ⟨?_, fun n _ _ _ => Disk.removeFile_leaves hd n⟩
    exact (Disk.removeFile_keeps _).gives hd (Nat.le_refl _)
  refine ⟨?_, congrArg Volume.files hv⟩
  show Serves size (s.without id) ⟨d, m₃.volume⟩
  rw [hv]
  refine ⟨h.room, h.pageSize, h.catalog.erase id, fun hx hy => ?_, fun hx => ?_, fun {id'} hx => ?_,
    fun hx hy => ?_, fun hx => ?_, Nat.lt_of_lt_of_le h.log_lt hleaving.next⟩
  · exact h.inj (Stock.names_without.mp hx).2 (Stock.names_without.mp hy).2
  · obtain ⟨hne, hx⟩ := Stock.names_without.mp hx
    obtain ⟨g, hg', hname, hs⟩ := h.file hx
    exact ⟨g, (lookup_erase_of_ne hne).trans hg', hname, hs.of_leaving hleaving (by simp)⟩
  · dsimp only
    rw [lookup_erase]
    split
    · rfl
    · next hne => exact h.noFile ((Stock.names_without_eq_none.mp hx).resolve_left hne)
  · exact h.apart (lookup_erase_eq_some.mp hx).2 (lookup_erase_eq_some.mp hy).2
  · exact h.log (lookup_erase_eq_some.mp hx).2

/-- Something on the disk that is not a file of the volume is made or removed. -/
theorem register (h : m.Serves size s) (hid : s.names id = none) (hvalid : id ≠ FileId.none)
    (hfree : ∀ f, s.names f ≠ some name) {path : Path} {u : Unit}
    (hg : (Mounted.register path size id name).Gives m u m') :
    m'.Serves size (s.withFile id name) ∧ ∃ f, f.name = name ∧ f.resident = ∅ ∧
      m'.volume.files = m.volume.files.insert id f := by
  obtain ⟨file, m₁, h₁, hg⟩ := Task.bind_gives hg
  obtain ⟨d, hd, rfl⟩ := Task.inPart_gives h₁
  obtain ⟨rfl, hnext, hleaves⟩ := PagedFile.create_gives hd
  dsimp only at hg
  split at hg
  · obtain ⟨_, _, h₂, -⟩ := Task.bind_gives hg
    exact absurd h₂ Task.not_gives_refuse
  obtain ⟨_, m₂, h₂, hg⟩ := Task.bind_gives hg
  obtain ⟨hv, hl⟩ := recatalog_leaving h₂
  obtain rfl := Task.gives_change hg
  have hmade : Disk.Leaving (m.volume.directory.join Catalog.temporaryName) none m.disk d :=
    ⟨by rw [hnext]; exact Nat.le_succ _, fun n hn _ _ => hleaves n (Nat.ne_of_lt hn)⟩
  have hleaving := hmade.trans hl
  set f : OpenFile := ⟨name, ⟨m.disk.nextNode, path, size, 0⟩, ∅⟩ with hf
  have hnode : m.disk.nextNode < m₂.disk.nextNode :=
    Nat.lt_of_lt_of_le (show m.disk.nextNode < d.nextNode from hnext ▸ Nat.lt_succ_self _) hl.next
  have hnew : f.Serves m₂.disk (m.volume.directory.join Catalog.temporaryName) size [] :=
    ⟨rfl, rfl, by decide, fun _ hp => absurd hp List.not_mem_nil, hnode,
      fun _ _ hp => absurd hp (by simp [hf]), fun _ _ hp => absurd hp (by simp)⟩
  -- no file that was there has the node of the new one
  have hapart {id' : FileId} {x : OpenFile} (hx : m.volume.files[id']? = some x) :
      x.file.node ≠ m.disk.nextNode := Nat.ne_of_lt (h.serves hx).node_lt
  refine ⟨?_, f, rfl, rfl, ?_⟩
  · rw [hv]
    refine ⟨h.room, h.pageSize, h.catalog.insert hvalid name, fun {a b x} hx hy => ?_, fun {id' x} hx => ?_,
      fun {id'} hx => ?_, fun {a b x y} hx hy hxy => ?_, fun {a x} hx => ?_,
      Nat.lt_of_lt_of_le h.log_lt hleaving.next⟩
    · rcases Stock.names_withFile.mp hx with ⟨rfl, rfl⟩ | ⟨-, ha⟩ <;>
        rcases Stock.names_withFile.mp hy with ⟨rfl, he⟩ | ⟨-, hb⟩
      · rfl
      · exact absurd hb (hfree _)
      · exact absurd (he ▸ ha) (hfree _)
      · exact h.inj ha hb
    · rcases Stock.names_withFile.mp hx with ⟨rfl, rfl⟩ | ⟨hne, hx⟩
      · exact ⟨f, Std.TreeMap.getElem?_insert_self, rfl, Stock.pages_withFile_self ▸ hnew⟩
      · obtain ⟨g, hg', hname, hs⟩ := h.file hx
        refine ⟨g, (lookup_insert_of_ne hne).trans hg', hname, ?_⟩
        rw [Stock.pages_withFile hne]
        exact hs.of_leaving hleaving (by simp)
    · obtain ⟨hne, hx⟩ := Stock.names_withFile_eq_none.mp hx
      exact (lookup_insert_of_ne hne).trans (h.noFile hx)
    · rcases lookup_insert_eq_some.mp hx with ⟨rfl, rfl⟩ | ⟨-, ha⟩ <;>
        rcases lookup_insert_eq_some.mp hy with ⟨rfl, rfl⟩ | ⟨-, hb⟩
      · rfl
      · exact absurd hxy.symm (hapart hb)
      · exact absurd hxy (hapart ha)
      · exact h.apart ha hb hxy
    · rcases lookup_insert_eq_some.mp hx with ⟨rfl, rfl⟩ | ⟨-, ha⟩
      · exact Nat.ne_of_gt h.log_lt
      · exact h.log ha
  · rw [hv]
    rfl

theorem createWithId (h : m.Serves size s) (hid : s.names id = none) (hvalid : id ≠ FileId.none)
    {u : Unit} (hg : (Mounted.createWithId id name).Gives m u m') :
    m'.Serves size (s.withFile id name) ∧ (∀ f, s.names f ≠ some name) ∧
      ∃ f, f.name = name ∧ f.resident = ∅ ∧ m'.volume.files = m.volume.files.insert id f := by
  rw [createWithId_eq] at hg
  obtain ⟨_, _, h₁, hg⟩ := Task.bind_gives hg
  obtain ⟨rfl, rfl⟩ := (Task.Gives.state m).unique h₁
  dsimp only at hg
  split at hg
  · obtain ⟨_, _, h₂, -⟩ := Task.bind_gives hg
    exact absurd h₂ Task.not_gives_refuse
  next hfresh =>
  have hfree : ∀ f, s.names f ≠ some name :=
    h.idOf?_eq_none.mp (Option.not_isSome_iff_eq_none.mp hfresh)
  obtain ⟨known, m₁, h₂, hg⟩ := Task.bind_gives hg
  obtain ⟨d, hd, rfl⟩ := Task.inPart_gives h₂
  obtain rfl := Disk.exists_gives hd
  rw [h.pageSize] at hg
  cases known with
  | false =>
    obtain ⟨hs, hfile⟩ := register h hid hvalid hfree hg
    exact ⟨hs, hfree, hfile⟩
  | true =>
    obtain ⟨_, m₂, h₃, hg⟩ := Task.bind_gives hg
    obtain ⟨d, hd, rfl⟩ := Task.inPart_gives h₃
    have hl : Disk.Leaving (m.volume.directory.join Catalog.temporaryName) none m.disk d :=
      ⟨(Disk.removeFile_keeps _).gives hd (Nat.le_refl _), fun n _ _ _ => Disk.removeFile_leaves hd n⟩
    obtain ⟨hs, hfile⟩ := register (h.onDisk hl fun _ => by simp) hid hvalid hfree hg
    exact ⟨hs, hfree, hfile⟩

theorem installPage (h : m.Serves size s) (hi : i.toNat ≤ (s.pages id).length)
    (hb : i.toNat + 1 < UInt64.size) (hp : page.size = size) {u : Unit}
    (hg : (Mounted.installPage id i page).Gives m u m') :
    m'.Serves size (s.withPages id (Page.placed (s.pages id) i page.withSeal)) ∧
      ∃ f g, m.volume.files[id]? = some f ∧ g.name = f.name ∧
        g.resident = f.resident.insert i page.withSeal ∧
        m'.volume.files = m.volume.files.insert id g := by
  have hroom := h.room
  obtain ⟨f, m₀, h₁, hg⟩ := Task.bind_gives hg
  obtain ⟨rfl, hf, -⟩ := h.openFile_gives h₁
  obtain ⟨stored, m₁, h₂, hg⟩ := Task.bind_gives hg
  obtain ⟨hstored, rfl⟩ := Task.gives_ofChecked h₂
  rw [Page.sealed_eq (by omega)] at hstored
  obtain rfl := Except.ok.inj hstored
  obtain ⟨file, m₂, h₃, hg⟩ := Task.bind_gives hg
  obtain ⟨d, hd, rfl⟩ := Task.inPart_gives h₃
  obtain rfl := Task.gives_change hg
  obtain ⟨hs, hnode, hl⟩ := (h.serves hf).written hi hb hd
  exact ⟨h.withFile hf rfl hnode hs hl, f, { f with file, resident := f.resident.insert i page.withSeal },
    hf, rfl, rfl, rfl⟩

theorem sync (h : m.Serves size s) {u : Unit} (hg : (Mounted.sync id).Gives m u m') :
    m'.Serves size s ∧ m'.volume = m.volume := by
  obtain ⟨f, m₀, h₁, hg⟩ := Task.bind_gives hg
  obtain ⟨rfl, -, -⟩ := h.openFile_gives h₁
  obtain ⟨d, hd, rfl⟩ := Task.inPart_gives hg
  have hl : Disk.Leaving (m.volume.directory.join Catalog.temporaryName) none m.disk d :=
    ⟨(Disk.perform_keeps _).gives (Task.embed_gives hd) (Nat.le_refl _),
      fun n _ _ _ => Disk.sync_leaves (Task.embed_gives hd) n⟩
  exact ⟨h.onDisk hl fun _ => by simp, rfl⟩

end Serves

end Mounted

end RefStore
