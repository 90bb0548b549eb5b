import RefStore.Proofs.FileCalls
import RefStore.Proofs.Maps

/-!
# Reading back a file catalog

A catalog that was encoded is decoded as it was, and saving it leaves it under its name. A save that is
cut short leaves the catalog that was there.
-/

namespace RefStore

theorem Fields.length_ofText (s : String) : (ofText s).length = s.utf8ByteSize := rfl

theorem Fields.fromUTF8?_ofText (s : String) :
    String.fromUTF8? (ofText s).toByteArray = some s := by
  have hb : (ofText s).toByteArray = s.toByteArray :=
    ByteArray.ext (Array.toList_inj.mp List.toList_data_toByteArray)
  rw [hb, String.fromUTF8?, dif_pos s.isValidUTF8]
  rfl

namespace Catalog

/-- Catalogs that the encoding has room for. -/
structure Encodable (c : Catalog) : Prop where
  count : c.names.size < 4294967296
  name : ∀ e ∈ c.names.toList, e.2.utf8ByteSize ≤ longestName

theorem entries_flatMap {l : List (FileId × String)} (h : ∀ e ∈ l, e.2.utf8ByteSize ≤ longestName) :
    entries l.length (l.flatMap entryBytes) = .ok l := by
  induction l with
  | nil => rfl
  | cons e l ih =>
    obtain ⟨id, name⟩ := e
    have hlen : name.utf8ByteSize < 65536 := Nat.lt_succ_of_le (h (id, name) List.mem_cons_self)
    obtain ⟨field, hfield⟩ : ∃ field, field =
        Word.bytes id ++ Word.bytes (UInt16.ofNat (Fields.ofText name).length) := ⟨_, rfl⟩
    have hl : field.length = 6 := by simp [hfield, Word.width]
    have hbytes : ((id, name) :: l).flatMap entryBytes =
        field ++ (Fields.ofText name ++ l.flatMap entryBytes) := by
      simp [entryBytes, hfield]
    have hnum : ((Word.ofBytes (field.drop 4) : UInt16)).toNat = (Fields.ofText name).length := by
      rw [hfield, List.drop_left' (by simp [Word.width]), Word.ofBytes_bytes, Fields.length_ofText,
        UInt16.toNat_ofNat_of_lt' hlen]
    have hid : (Word.ofBytes (field.take 4) : FileId) = id := by
      rw [hfield, List.take_left' (by simp [Word.width]), Word.ofBytes_bytes]
    rw [List.length_cons, hbytes, entries, ← hl, Fields.take?_append]
    dsimp only
    rw [hnum, Fields.take?_append]
    dsimp only
    rw [Fields.fromUTF8?_ofText]
    dsimp only
    rw [ih fun e he => h e (List.mem_cons_of_mem _ he), hid]
    rfl

theorem getElem?_foldl_insert {l : List (FileId × String)} (t : Std.TreeMap FileId String)
    (hd : l.Pairwise fun a b => a.1 ≠ b.1) (id : FileId) :
    (∀ name, (id, name) ∈ l → (l.foldl (fun t e => t.insert e.1 e.2) t)[id]? = some name) ∧
      ((∀ name, (id, name) ∉ l) → (l.foldl (fun t e => t.insert e.1 e.2) t)[id]? = t[id]?) := by
  induction l generalizing t with
  | nil => exact ⟨by simp, fun _ => rfl⟩
  | cons e l ih =>
    obtain ⟨hne, hd⟩ := List.pairwise_cons.mp hd
    obtain ⟨hin, hout⟩ := ih (t.insert e.1 e.2) hd
    rw [List.foldl_cons]
    refine ⟨fun name hm => ?_, fun hm => ?_⟩
    · rcases List.mem_cons.mp hm with rfl | hm
      · rw [hout fun name' hm' => hne _ hm' rfl, Std.TreeMap.getElem?_insert_self]
      · exact hin name hm
    · have hne' : e.1 ≠ id := fun he => hm e.2 (he ▸ List.mem_cons_self)
      rw [hout fun name hm' => hm name (List.mem_cons_of_mem _ hm'), 
        lookup_insert_of_ne (Ne.symm hne')]

theorem getElem?_foldl_toList (names : Std.TreeMap FileId String) (id : FileId) :
    (names.toList.foldl (fun t e => t.insert e.1 e.2) (∅ : Std.TreeMap FileId String))[id]? =
      names[id]? := by
  have hd : names.toList.Pairwise fun a b => a.1 ≠ b.1 := by
    refine (Std.TreeMap.distinct_keys_toList (t := names)).imp fun h he => h ?_
    simp [he]
  obtain ⟨hin, hout⟩ := getElem?_foldl_insert ∅ hd id
  cases hn : names[id]? with
  | some name => exact hin name (Std.TreeMap.mem_toList_iff_getElem?_eq_some.mpr hn)
  | none =>
    rw [hout fun name hm => ?_, Std.TreeMap.getElem?_emptyc]
    rw [Std.TreeMap.mem_toList_iff_getElem?_eq_some.mp hm] at hn
    cases hn

theorem decode_encode {c : Catalog} (h : c.Encodable) : ∃ c' : Catalog, decode c.encode = .ok c' ∧
    c'.nextId = c.nextId ∧ ∀ id : FileId, c'.names[id]? = c.names[id]? := by
  have hlen : c.encode.length = c.body.length + 4 := by simp [encode, Word.width]
  have hbody : c.body = Word.bytes c.nextId ++ (Word.bytes (UInt32.ofNat c.names.size) ++
      c.names.toList.flatMap entryBytes) := by simp [body]
  have h8 : 8 ≤ c.body.length := by
    rw [hbody]
    simp [Word.width]
    omega
  have htake : c.encode.take (c.encode.length - 4) = c.body := by
    rw [hlen, Nat.add_sub_cancel, encode, List.take_left]
  have hdrop : (Word.ofBytes (c.encode.drop (c.encode.length - 4)) : UInt32) =
      Checksum.crc32 c.body := by
    rw [hlen, Nat.add_sub_cancel, encode, List.drop_left, Word.ofBytes_bytes]
  have hcount : ((Word.ofBytes ((c.body.drop 4).take 4) : UInt32)).toNat =
      c.names.toList.length := by
    rw [hbody, List.drop_left' (by simp [Word.width]), List.take_left' (by simp [Word.width]),
      Word.ofBytes_bytes, UInt32.toNat_ofNat_of_lt' h.count, Std.TreeMap.length_toList]
  have hrest : c.body.drop 8 = c.names.toList.flatMap entryBytes := by
    rw [hbody, ← List.append_assoc, List.drop_left' (by simp [Word.width])]
  have hnext : (Word.ofBytes (c.body.take 4) : FileId) = c.nextId := by
    rw [hbody, List.take_left' (by simp [Word.width]), Word.ofBytes_bytes]
  refine ⟨⟨c.nextId, c.names.toList.foldl (fun t e => t.insert e.1 e.2) ∅⟩, ?_, rfl,
    getElem?_foldl_toList c.names⟩
  rw [decode, if_neg (by omega)]
  dsimp only
  rw [htake, hdrop]
  simp only [ne_eq, not_true_eq_false, if_false, hcount, hrest, entries_flatMap h.name, hnext]
  rfl

theorem length_encode_le {c : Catalog} (h : c.Encodable) : c.encode.length ≤ Disk.longestFile := by
  have hsum : ∀ l : List (FileId × String), (∀ e ∈ l, e.2.utf8ByteSize ≤ longestName) →
      (l.flatMap entryBytes).length ≤ l.length * 65541 := by
    intro l hl
    induction l with
    | nil => simp
    | cons e l ih =>
      have he := hl e List.mem_cons_self
      have := ih fun e' he' => hl e' (List.mem_cons_of_mem _ he')
      simp only [List.flatMap_cons, List.length_append, entryBytes, Word.length_bytes, Word.width,
        Fields.length_ofText, List.length_cons, longestName] at he ⊢
      omega
  have hl := hsum _ h.name
  have hc := h.count
  rw [Std.TreeMap.length_toList] at hl
  simp only [encode, body, List.length_append, Word.length_bytes, Word.width, Disk.longestFile]
  omega

/-- The disk after a catalog was saved. -/
structure Saved (dir : Path) (place : Location) (c : Catalog) (d d' : Disk) : Prop where
  houses : d'.Houses dir place
  catalog : d'.bytes? place fileName = some c.encode
  node : ∀ x, x ≠ fileName → x ≠ temporaryName → d'.node? place x = d.node? place x
  bytes : ∀ x, x ≠ fileName → x ≠ temporaryName → d'.bytes? place x = d.bytes? place x

theorem Saved.restart {dir : Path} {place : Location} {c : Catalog} {d d' : Disk}
    (h : Saved dir place c d d') : Saved dir place c d d'.restart :=
  ⟨h.houses.withOutage none, h.catalog, h.node, h.bytes⟩

/-- Until the new catalog gets its name, nothing but the temporary file has changed. -/
theorem save_survives {c : Catalog} {dir : Path} {place : Location} {d : Disk} {cut : Disk → Prop}
    (hc : c.Encodable) (h : d.Houses dir place) (hf : dir.Fits fileName) (ht : dir.Fits temporaryName)
    (hcut : ∀ d', Disk.OnlyAt dir place temporaryName d d' → cut d')
    (hcut' : ∀ d', Saved dir place c d d' → cut d') :
    ∃ d', (c.save dir).Survives d cut () d' ∧ Saved dir place c d d' := by
  obtain ⟨n, d₁, hmade, h₁, hn, hempty⟩ := Disk.createOrClear_survives h ht hcut
  have hcontent : (d₁.content n).toList = [] := by
    rw [Disk.bytes?, hn] at hempty
    exact Option.some.inj hempty
  have hstore (b : Contents) : Disk.OnlyAt dir place temporaryName d (d₁.store n b) :=
    h₁.trans (.store h₁.houses hn b)
  have hwrite : (Disk.writeAt n 0 (Block.ofList c.encode)).Survives d₁ cut ()
      (d₁.store n ((d₁.content n).overwrite 0 (Block.ofList c.encode))) :=
    Disk.writeAt_survives (by simpa using length_encode_le hc) fun k => hcut _ (hstore _).restart
  generalize hb : (d₁.content n).overwrite 0 (Block.ofList c.encode) = b at hwrite
  have hbytes : b.toList = c.encode := by
    have hpos : c.encode.length ≠ 0 := by
      simp [encode, body, Word.width]
    rw [← hb, Contents.toList_overwrite _ _ _ (by simpa using hpos), hcontent]
    simp [← Contents.length_toList, hcontent]
  have hn₂ : (d₁.store n b).node? place temporaryName = some n := hn
  have hsaved : Saved dir place c d
      ((d₁.store n b).effect (.rename (place ++ [temporaryName]) (place ++ [fileName]) n)) := by
    have hne : temporaryName ≠ fileName := by decide
    refine ⟨(hstore b).houses.rename hn₂ fileName, ?_, fun x hx hx' => ?_, fun x hx hx' => ?_⟩
    · rw [Disk.bytes?_rename hn₂, if_pos rfl, Disk.bytes?_store h₁.houses hn, if_pos rfl, hbytes]
    · rw [Disk.node?_rename, if_neg hx, if_neg hx']
      exact (hstore b).node x hx'
    · rw [Disk.bytes?_rename hn₂, if_neg hx, if_neg hx']
      exact (hstore b).bytes x hx'
  have hrename := Disk.renameFile_survives (hstore b).houses ht hf hn₂ (hcut _ (hstore b).restart)
    (hcut' _ hsaved.restart)
  refine ⟨_, ?_, hsaved⟩
  have hsync := Disk.sync_survives (hcut _ (hstore b).restart) n
  exact .bind hmade.embed (.bind hwrite.embed (.bind hsync.embed hrename.embed))

end Catalog

end RefStore
