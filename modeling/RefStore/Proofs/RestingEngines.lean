import RefStore.Proofs.Isolation
import RefStore.Proofs.LastingCalls
import RefStore.Proofs.Maps
import RefStore.Proofs.Reopenings

/-!
# Engines between operations

What an engine at rest answers is told by the files on its disk. An operation does not change them
before it is committed, and what it logs can be read back.
-/

namespace RefStore

/-! ## Drafts -/

/-- Every file with drafts has a page among them. -/
def Operation.Drafted (op : Operation) : Prop := ∀ f ∈ op.drafts, ∃ i d, op.draft? f i = some d

namespace Operation.Drafted

variable {op : Operation} {file : FileId}

theorem withDraft (h : op.Drafted) (file : FileId) (i : PageIndex) (d : Draft) :
    (op.withDraft file i d).Drafted := by
  intro f hf
  by_cases he : f = file
  · exact ⟨i, d, by rw [Operation.draft?_withDraft, if_pos ⟨he, rfl⟩]⟩
  · have hold : f ∈ op.drafts := by
      rw [Operation.withDraft, Std.TreeMap.mem_alter] at hf
      simpa [Ne.symm he] using hf
    obtain ⟨j, e, hj⟩ := h f hold
    exact ⟨j, e, by rw [Operation.draft?_withDraft, if_neg fun hh => he hh.1]; exact hj⟩

theorem withoutFile (h : op.Drafted) (file : FileId) : (op.withoutFile file).Drafted := by
  intro f hf
  obtain ⟨hne, hold⟩ : file ≠ f ∧ f ∈ op.drafts := by simpa [Operation.withoutFile] using hf
  obtain ⟨j, e, hj⟩ := h f hold
  refine ⟨j, e, ?_⟩
  rw [Operation.draft?, Operation.withoutFile, lookup_erase_of_ne hne.symm]
  exact hj

end Operation.Drafted

/-- A transaction whose operation has no empty set of drafts. -/
def Transaction.Drafted (t : Transaction) : Prop := t.operation.Drafted

namespace Transaction

theorem Drafted.lasting : Lasting Drafted where
  load _ _ := .onPart (fun _ _ h => h) _
  note i d _ h := h.withDraft _ i d
  count _ _ h := h

theorem addFile_keeps (name : String) : (addFile name).Keeps Drafted := by
  refine .bind (fileExists_keeps name) fun known => .guarded (.refuse _) ?_
  exact .bind (.onPart (fun _ _ h => h) _) fun _ => .bind (.change fun _ h => h) fun _ => .pure _

theorem deleteFile_keeps (file : FileId) : (deleteFile file).Keeps Drafted :=
  .bind (pageCount_keeps file) fun _ => .change fun _ h => h.withoutFile file

/-- No request leaves an empty set of drafts. -/
theorem run_keeps_drafted (r : Request) : r.run.Keeps Drafted := by
  cases r with
  | addFile name => exact .bind (addFile_keeps name) fun _ => .pure _
  | deleteFile file => exact deleteFile_keeps file
  | openFile name => exact .bind (openFile_keeps name) fun _ => .pure _
  | fileExists name => exact .bind (fileExists_keeps name) fun _ => .pure _
  | pageCount file => exact .bind (pageCount_keeps file) fun _ => .pure _
  | addPage file => exact .bind (Drafted.lasting.addPage file) fun _ => .pure _
  | loadPage file i => exact .bind (Drafted.lasting.loadPage file i) fun _ => .pure _
  | writePage file i writes => exact Drafted.lasting.writePage file i writes

end Transaction

theorem Edits.drafted {m : Mounted} {id : OperationId} {t : Transaction} (h : Edits m id t) :
    t.operation.Drafted := by
  induction h with
  | begun =>
    intro f hf
    simp [Operation.fresh] at hf
  | request before r room ih => exact Transaction.run_keeps_drafted r _ ih

/-- An operation does not change what is committed. -/
theorem Edits.unchanged {m : Mounted} {id : OperationId} {t : Transaction} (h : Edits m id t) :
    m.Unchanged t.mounted := by
  have hR := Mounted.Unchanged.serveAlike m
  have hcall {α : Type} {u : Task Transaction StorageError α} (hu : StorageCall u) :
      (do let _ ← u : Task Transaction StorageError Unit).Agrees
        (Transaction.Beside fun n n' => n = n' ∧ m.Unchanged n) :=
    (hu.agrees hR).bind fun _ => .pure _
  induction h with
  | begun => exact .refl m
  | @request t before r room ih =>
    have hbegin : Transaction.Beside (fun n n' => n = n' ∧ m.Unchanged n) t t := ⟨⟨rfl, ih⟩, rfl⟩
    cases r with
    | addFile name => exact ((hcall (.addFile name)) _ _ hbegin).2.mounted.2
    | deleteFile file => exact ((StorageCall.deleteFile file).agrees hR _ _ hbegin).2.mounted.2
    | openFile name => exact ((hcall (.openFile name)) _ _ hbegin).2.mounted.2
    | fileExists name => exact ((hcall (.fileExists name)) _ _ hbegin).2.mounted.2
    | pageCount file => exact ((hcall (.pageCount file)) _ _ hbegin).2.mounted.2
    | addPage file => exact ((hcall (.addPage file)) _ _ hbegin).2.mounted.2
    | loadPage file i => exact ((hcall (.loadPage file i)) _ _ hbegin).2.mounted.2
    | writePage file i writes => exact ((StorageCall.writePage file i writes).agrees hR _ _ hbegin).2.mounted.2

/-! ## Volumes that mirror their disks -/

namespace Mounted.Mirrors

variable {m m' : Mounted} {dir dir' : Path} {place place' : Location} {size : Nat} {s t : Stock}
  {name : String}

/-- The bytes of a page of a file. -/
theorem has_of_paged {d : Disk} {n : Nat} {ps : List Page} (h : d.Paged place name n size ps)
    {i : PageIndex} {p : Page} (hp : ps[i.toNat]? = some p) : d.Has n (i.toNat * size) p := by
  intro j b hb
  have hj : j < size := by
    have := (List.getElem?_eq_some_iff.mp hb).1
    rwa [Page.length_toList, h.sizes p (List.mem_of_getElem? hp)] at this
  rw [← Page.slice_flat h.sizes hp, List.getElem?_take_of_lt hj, List.getElem?_drop] at hb
  rw [PagedFile.content_eq h]
  exact hb

theorem serves (h : m.Mirrors dir place size s) (hs : 8 ≤ size) : m.Serves size s where
  room := hs
  pageSize := h.pageSize
  catalog := h.catalog
  inj := h.stocks.sane.inj
  file {id name} hid := by
    obtain ⟨n, res, hfile, hn, hres⟩ := h.file hid
    obtain ⟨n', hp⟩ := h.stocks.file hid
    obtain rfl : n = n' := Option.some.inj (hn.symm.trans hp.node)
    obtain ⟨hdata, hfits⟩ := h.stocks.sane.named hid
    refine ⟨_, hfile, rfl, rfl, rfl, h.stocks.sane.length_lt hid (by omega), hp.sizes,
      h.stocks.houses.lt (Disk.entries_of_node? hn), hres, fun i p hi _ => ⟨has_of_paged hp hi, ?_⟩⟩
    -- the temporary catalog is another file
    intro hlook
    have ht := hdata.fits_temporary hfits
    rw [h.directory, Disk.lookup?, h.stocks.houses.toLeads.join ht.plain ht.usable] at hlook
    have hentry : m.disk.entries[place ++ [Catalog.temporaryName]]? = some (.file n) :=
      (Disk.entryAt?_append ..).symm.trans hlook
    have := h.stocks.houses.inj hentry (Disk.entries_of_node? hn)
    simp at this
    exact hdata.ne_temporary this.symm
  noFile := h.noFile
  apart {id id' f g} hf hg hnode := by
    have hnamed {f : FileId} {x : OpenFile} (hx : m.volume.files[f]? = some x) :
        ∃ y, s.names f = some y ∧ m.disk.node? place y = some x.file.node := by
      cases hy : s.names f with
      | none =>
        rw [h.noFile hy] at hx
        cases hx
      | some y =>
        obtain ⟨n, res, hfile, hn, -⟩ := h.file hy
        rw [hfile] at hx
        cases hx
        exact ⟨y, rfl, hn⟩
    obtain ⟨x, hx, hnx⟩ := hnamed hf
    obtain ⟨y, hy, hny⟩ := hnamed hg
    have := h.stocks.houses.inj (Disk.entries_of_node? hnx) (Disk.entries_of_node? (hnode ▸ hny))
    obtain rfl : x = y := by simpa using this
    exact h.stocks.sane.inj hx hy
  log {id f} hf hnode := by
    cases hy : s.names id with
    | none =>
      rw [h.noFile hy] at hf
      cases hf
    | some y =>
      obtain ⟨n, res, hfile, hn, -⟩ := h.file hy
      rw [hfile] at hf
      cases hf
      have hlog := Disk.entries_of_node? h.stocks.logNode
      have := h.stocks.houses.inj (Disk.entries_of_node? hn) (hnode ▸ hlog)
      exact (h.stocks.sane.named hy).1.ne_log (by simpa using this)
  log_lt := h.stocks.houses.lt (Disk.entries_of_node? h.stocks.logNode)

/-- Pages in memory and reserved ids do not count. -/
theorem of_unchanged (h : m.Mirrors dir place size s) (hu : m.Unchanged m') (hs : m'.Serves size s) :
    m'.Mirrors dir place size s where
  stocks := hu.disk ▸ h.stocks
  directory := hu.directory.trans h.directory
  pageSize := hu.pageSize.trans h.pageSize
  catalog := hs.catalog
  file {id name} hid := by
    obtain ⟨n, res, hfile, hn, -⟩ := h.file hid
    obtain ⟨f, hf, -, hserves⟩ := hs.file hid
    have hsame := hu.file id
    rw [hfile, hf, Option.map_some, Option.map_some, Option.some.injEq, Prod.mk.injEq] at hsame
    obtain ⟨rfl, hfile'⟩ : f.name = name ∧ f.file = .handle dir name n size (s.pages id) := hsame
    refine ⟨n, f.resident, ?_, hu.disk ▸ hn, hserves.resident⟩
    rw [hf, ← hfile']
  noFile := hs.noFile

/-- What a volume answers is told by the files on its disk. -/
theorem answers_eq (h : m.Mirrors dir place size s) (h' : m'.Mirrors dir' place' size t) (hs : 8 ≤ size)
    (hv : ∀ {f x}, s.names f = some x → ∀ p ∈ s.pages f, p.verify = .ok ()) (hsame : s.SameFiles t) :
    m'.answers = m.answers := by
  have hm := h.serves hs
  have hm' := h'.serves hs
  have hid (name : String) : m'.volume.idOf? name = m.volume.idOf? name := by
    refine Option.ext fun f => ?_
    rw [hm.idOf?_eq_some, hm'.idOf?_eq_some, hsame.names]
  have hfind (name : String) : ((findFile name).start m').1 = ((findFile name).start m).1 := by
    rw [findFile, (Task.Gives.state m').start_bind, (Task.Gives.state m).start_bind, hid]
    cases m.volume.idOf? name <;> rfl
  refine Answers.ext (funext fun name => ?_) (funext fun name => ?_) (funext fun f => ?_)
    (funext₂ fun f i => ?_)
  · show Except.ok (m'.volume.idOf? name).isSome = Except.ok (m.volume.idOf? name).isSome
    rw [hid]
  · exact hfind name
  · show ((Mounted.pageCount f).start m').1 = ((Mounted.pageCount f).start m).1
    cases hf : s.names f with
    | none => rw [hm.pageCount_none hf, hm'.pageCount_none ((hsame.names f).trans hf)]
    | some x =>
      rw [(hm.pageCount hf).eq, (hm'.pageCount ((hsame.names f).trans hf)).eq, hsame.pages hf]
  · show ((Mounted.loadPage f i).start m').1 = ((Mounted.loadPage f i).start m).1
    cases hf : s.names f with
    | none => rw [hm.loadPage_none hf, hm'.loadPage_none ((hsame.names f).trans hf)]
    | some x =>
      obtain ⟨g, hg, -, -⟩ := hm.file hf
      obtain ⟨g', hg', -, -⟩ := hm'.file ((hsame.names f).trans hf)
      have hpages := hsame.pages hf
      cases hp : (s.pages f)[i.toNat]? with
      | none =>
        have hle := List.getElem?_eq_none_iff.mp hp
        rw [hm.loadPage_outside hg hle, hm'.loadPage_outside hg' (hpages ▸ hle), hpages]
      | some p =>
        have hverified := hv hf p (List.mem_of_getElem? hp)
        have hshown (f : OpenFile) : f.shown i p = .ok p := by
          rw [OpenFile.shown, hverified]
          split <;> rfl
        obtain ⟨_, hload, -⟩ := hm.loadPage_start hg hp
        obtain ⟨_, hload', -⟩ := hm'.loadPage_start hg' (hpages ▸ hp)
        rw [hload, hload', hshown, hshown]

end Mounted.Mirrors

/-! ## What is logged -/

namespace LogPayload

theorem length_rangeBytes (r : LogRange) : (rangeBytes r).length = 8 + r.bytes.length := by
  simp [rangeBytes, Word.width]
  omega

/-- Ranges take more room than their number and their bytes. -/
theorem le_length_ranges (l : List LogRange) : l.length ≤ (l.flatMap rangeBytes).length ∧
    ∀ r ∈ l, r.bytes.length ≤ (l.flatMap rangeBytes).length := by
  induction l with
  | nil => simp
  | cons r l ih =>
    obtain ⟨hlen, hall⟩ := ih
    rw [List.flatMap_cons, List.length_append, length_rangeBytes, List.length_cons]
    refine ⟨by omega, fun r' hr => ?_⟩
    rcases List.mem_cons.mp hr with rfl | hr
    · omega
    · have := hall r' hr
      omega

end LogPayload

/-- Patches that stand apart take no more room than the stretch that they stand in. -/
theorem Patch.length_ranges_le {ps : List Patch} (h : Patch.Apart ps) {low high : Nat}
    (hlow : ∀ p ∈ ps, low ≤ p.offset) (hhigh : ∀ p ∈ ps, p.stop ≤ high) :
    ((ps.map fun p => (⟨UInt32.ofNat p.offset, Block.toList p.bytes⟩ : LogRange)).flatMap
      LogPayload.rangeBytes).length ≤ 9 * (high - low) := by
  induction ps generalizing low with
  | nil => simp
  | cons p ps ih =>
    obtain ⟨hp, hgap, hps⟩ := h
    have hrest := ih hps (fun q hq => Nat.le_of_lt (hgap q hq)) fun q hq =>
      hhigh q (List.mem_cons_of_mem _ hq)
    have hl := hlow p List.mem_cons_self
    have hh := hhigh p List.mem_cons_self
    rw [Patch.stop] at hp hh hrest
    rw [List.map_cons, List.flatMap_cons, List.length_append, LogPayload.length_rangeBytes,
      Block.length_toList]
    omega

/-- What an operation logs of a page or a file is short, on pages of the sizes that settings allow. -/
theorem Operation.Over.payload_short {size : Nat} {s : Stock} {op : Operation} (hop : op.Over size s)
    (hs : size ≤ Settings.maxPageSize) (hnames : ∀ {f name}, (f, name) ∈ op.created → name.utf8ByteSize ≤ 255) :
    ∀ p ∈ op.payloads, p.Encodable ∧ p.bytes.length < 1000000 := by
  intro p hp
  rw [payloads_eq, steps, List.mem_append, List.mem_append, List.mem_append] at hp
  rcases hp with ((hp | hp) | hp) | hp
  · obtain ⟨f, -, rfl⟩ := List.mem_map.mp hp
    exact ⟨trivial, by simp [LogPayload.bytes, Word.width]⟩
  · obtain ⟨⟨f, name⟩, he, rfl⟩ := List.mem_map.mp hp
    have hshort := hnames he
    refine ⟨show name.utf8ByteSize < 65536 by omega, ?_⟩
    simp only [LogPayload.bytes, List.length_append, Word.length_bytes, Word.width,
      Fields.length_ofText]
    omega
  · obtain ⟨⟨f, i, d⟩, hx, rfl⟩ := List.mem_map.mp hp
    obtain ⟨ht, hsize⟩ := hop.tidy_of_change hx
    have hle := Patch.length_ranges_le ht.apart (fun _ _ => Nat.zero_le _) ht.inside
    have hbase : d.overlay.base.size = size := hsize
    obtain ⟨hcount, hbytes⟩ := LogPayload.le_length_ranges
      (d.overlay.patches.map fun p => ⟨UInt32.ofNat p.offset, Block.toList p.bytes⟩)
    simp only [Settings.maxPageSize] at hs
    refine ⟨⟨by omega, fun r hr => ?_⟩, ?_⟩
    · have := hbytes r hr
      omega
    · simp only [pageUpdate, LogPayload.bytes, List.length_append, Word.length_bytes, Word.width]
      omega
  · rw [List.mem_singleton.mp hp]
    exact ⟨trivial, by simp [LogPayload.bytes]⟩

/-- So it can be read back. -/
theorem Operation.records_encodable {dir : Path} {size : Nat} {s : Stock} {op : Operation}
    (hop : op.Over size s) (hs : size ≤ Settings.maxPageSize) (hfits : op.Fits dir size) :
    ∀ r ∈ op.records, r.Encodable := by
  intro r hr
  obtain ⟨p, hp, rfl⟩ := List.mem_map.mp hr
  obtain ⟨henc, hlen⟩ := hop.payload_short hs (fun he => (hfits.named he).1.plain.short) p hp
  refine ⟨henc, ?_⟩
  simp only [LogRecord.headerSize, LogRecord.checksumSize]
  omega

end RefStore
