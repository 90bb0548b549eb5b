import RefStore.Proofs.PageViews
import RefStore.Proofs.NodeBytes

/-!
# Keys among bytes

A key is put into a buffer field by field, and into a page, or into changes over one, in one piece. Both
test first that a whole key has room. Main statement: `Key.codec_exact`.
-/

namespace RefStore

/-! ## What shows a page -/

section

variable {π ε : Type} [Writable π] {shown : π → Page} {p : π} {w : Write}

/-- What is read and written as the page that it shows. -/
structure Writable.Shows (shown : π → Page) (p : π) : Prop where
  size : Readable.size p = (shown p).size
  slice {ε : Type} (offset length : Nat) :
    (Readable.slice p offset length : Checked ε ByteArray) = (shown p).slice offset length
  write {ε : Type} {w : Write} : Page.Inside (shown p).size w →
    ∃ q, (Writable.write p w : Checked ε π) = .ok q ∧ shown q = (shown p).written w

namespace Writable

theorem shows_buffer (buffer : ByteArray) : Shows Page.mk buffer where
  size := rfl
  slice _ _ := rfl
  write {ε w} hin := by
    refine ⟨(Page.written ⟨buffer⟩ w).bytes, ?_, rfl⟩
    exact congrArg (Functor.map Page.bytes) (Page.write_eq hin)

theorem shows_page (page : Page) : Shows id page where
  size := rfl
  slice _ _ := rfl
  write hin := ⟨page.written _, Page.write_eq hin, rfl⟩

theorem shows_overlay {o : Overlay} (h : o.Tidy) : Shows Overlay.page o where
  size := (Overlay.size_page h).symm
  slice := Overlay.slice_eq h
  write {ε w} hin := by
    have hroom : Page.Inside o.size w := by
      rw [← Overlay.size_page h]
      exact hin
    exact ⟨o.written w, Overlay.write_eq_ok_iff.mpr ⟨hroom, rfl⟩, Overlay.page_written h hroom⟩

theorem Shows.put_gives (h : Shows shown p) (hin : Page.Inside (shown p).size w) :
    ∃ q, (put w : Task π ε Unit).Gives p () q ∧ shown q = (shown p).written w := by
  obtain ⟨q, hw, hq⟩ := h.write (ε := ε) hin
  refine ⟨q, ?_, hq⟩
  apply (Task.Gives.state p).bind
  apply (Task.Gives.ofChecked hw p).bind
  exact .change _ p

/-- A word is put into a buffer, which keeps its size. -/
theorem put_word {α : Type} [Word α] (buffer : ByteArray) (offset : Nat) (x : α)
    (h : offset + Word.width α ≤ buffer.size) :
    ∃ b : ByteArray, (put (.word offset x) : Task ByteArray ε Unit).Gives buffer () b ∧
      (⟨b⟩ : Page) = Page.written ⟨buffer⟩ (.word offset x) ∧ b.size = buffer.size := by
  have hin : Page.Inside (Page.size ⟨buffer⟩) (.word offset x) := by
    rw [Page.Inside, Write.word, Word.length_bytes]
    exact h
  obtain ⟨b, hg, hb⟩ := (shows_buffer buffer).put_gives (ε := ε) hin
  have hsize : Page.size ⟨b⟩ = Page.size ⟨buffer⟩ := by rw [hb, Page.size_written hin]
  exact ⟨b, hg, hb, hsize⟩

end Writable

end

namespace Key

variable {π : Type} [Writable π] {shown : π → Page} {p : π} {buffer : ByteArray} {length offset : Nat}

/-! ## Room for a key -/

/-- The refusal of an offset with less than a whole key behind it. -/
def tooSmall (length offset : Nat) : KeyError := .bufferTooSmall offset (length - offset)

theorem sizeIn_short (h : length < offset + size) : sizeIn length offset = .error (tooSmall length offset) := by
  apply if_pos
  rw [size] at *
  omega

theorem sizeIn_room (h : offset + size ≤ length) : sizeIn length offset = .ok size := by
  apply if_neg
  rw [size] at *
  omega

theorem sizeIn_refuses_iff : sizeIn length offset = .error (tooSmall length offset) ↔ length < offset + size := by
  constructor
  · intro h
    by_contra hroom
    rw [sizeIn_room (Nat.le_of_not_lt hroom)] at h
    cases h
  · exact sizeIn_short

/-- The test that a write makes first. -/
theorem checkRoom_short {σ : Type} (s : σ) (h : length < offset + size) :
    (Task.ofChecked ((sizeIn length offset).mapError .error) : Task σ KeyError Nat).start s =
      (refuse (tooSmall length offset), s) := by
  rw [Task.start_ofChecked, sizeIn_short h]
  rfl

theorem checkRoom_gives {σ : Type} (s : σ) (h : offset + size ≤ length) :
    (Task.ofChecked ((sizeIn length offset).mapError .error) : Task σ KeyError Nat).Gives s size s := by
  apply Task.Gives.ofChecked
  rw [sizeIn_room h]
  rfl

/-! ## Reading and writing a key -/

theorem decode_short (h : buffer.size < offset + size) :
    decode buffer offset = refuse (tooSmall buffer.size offset) := by
  have hsize : sizeIn (Readable.size buffer) offset = .error (tooSmall buffer.size offset) := sizeIn_short h
  rw [decode, readFrom, hsize]
  rfl

theorem decode_room (h : offset + size ≤ buffer.size) :
    decode buffer offset = .ok (ofBytes (Page.bytesAt ⟨buffer⟩ offset size)) := by
  have hsize : sizeIn (Readable.size buffer) offset = .ok size := sizeIn_room h
  have hslice : (Readable.slice buffer offset size : Checked KeyError ByteArray) =
      .ok (buffer.extract offset (offset + size)) := Page.slice_eq h
  rw [decode, readFrom, hsize]
  change (Readable.slice buffer offset size >>= fun block => pure (ofBytes (Block.toList block))) = _
  rw [hslice, ← Page.toList_extract]
  rfl

/-- What shows a page holds the keys of the page. -/
theorem readFrom_shown (h : Writable.Shows shown p) (offset : Nat) :
    readFrom p offset = decode (shown p).bytes offset :=
  readFrom_congr h.size h.slice offset

theorem encode_short (k : Key) (h : buffer.size < offset + size) :
    (k.encode offset).start buffer = (refuse (tooSmall buffer.size offset), buffer) := by
  apply ((Task.Gives.state buffer).start_bind _).trans
  exact Task.start_bind_error (checkRoom_short buffer h) _

/-- The fields, one after another, leave the bytes of the key. -/
theorem encode_room (k : Key) (h : offset + size ≤ buffer.size) :
    ∃ b, (k.encode offset).Gives buffer () b ∧ (⟨b⟩ : Page) = Page.written ⟨buffer⟩ ⟨offset, k.bytes⟩ := by
  have hroom : offset + 20 ≤ buffer.size := h
  obtain ⟨b₁, g₁, h₁, hs₁⟩ := Writable.put_word (ε := KeyError) buffer offset k.collection
    (by simp only [Word.width]; omega)
  obtain ⟨b₂, g₂, h₂, hs₂⟩ := Writable.put_word (ε := KeyError) b₁ (offset + 8) k.cluster
    (by simp only [Word.width]; omega)
  obtain ⟨b₃, g₃, h₃, -⟩ := Writable.put_word (ε := KeyError) b₂ (offset + 12) k.position
    (by simp only [Word.width]; omega)
  refine ⟨b₃, ?_, ?_⟩
  · apply (Task.Gives.state buffer).bind
    apply (checkRoom_gives buffer h).bind
    exact g₁.bind (g₂.bind g₃)
  · have hfirst : (⟨b₂⟩ : Page) =
        Page.written ⟨buffer⟩ ⟨offset, Word.bytes k.collection ++ Word.bytes k.cluster⟩ := by
      rw [h₂, h₁]
      apply Page.written_written
      rw [Word.length_bytes, Word.length_bytes]
      exact (by omega : offset + (8 + 4) ≤ buffer.size)
    have hwidth : offset + (Word.bytes k.collection ++ Word.bytes k.cluster).length = offset + 12 := by
      rw [List.length_append, Word.length_bytes, Word.length_bytes]
      rfl
    rw [h₃, hfirst, Write.word, ← hwidth]
    apply Page.written_written
    rw [← Nat.add_assoc, hwidth, Word.length_bytes]
    exact hroom

theorem store_short (k : Key) (hp : Writable.Shows shown p) (h : (shown p).size < offset + size) :
    (k.store offset).start p = (refuse (tooSmall (shown p).size offset), p) := by
  apply ((Task.Gives.state p).start_bind _).trans
  rw [hp.size]
  exact Task.start_bind_error (checkRoom_short p h) _

theorem store_room (k : Key) (hp : Writable.Shows shown p) (h : offset + size ≤ (shown p).size) :
    ∃ q, (k.store offset).Gives p () q ∧ shown q = (shown p).written ⟨offset, k.bytes⟩ := by
  obtain ⟨q, hg, hq⟩ := hp.put_gives (ε := KeyError) (w := ⟨offset, k.bytes⟩)
    (by rw [Page.Inside, length_bytes]; exact h)
  refine ⟨q, ?_, hq⟩
  apply (Task.Gives.state p).bind
  rw [hp.size]
  exact (checkRoom_gives p h).bind hg

/-! ## The codec -/

/-- The codec at an offset of a buffer. It refuses the offsets with less than a whole key behind them, and
there only. Elsewhere it puts a key in the place it takes one from, and a key that was taken goes back as it
was. -/
structure Codes (k : Key) (buffer : ByteArray) (offset : Nat) : Prop where
  size_refuses : sizeIn buffer.size offset = .error (tooSmall buffer.size offset) ↔ buffer.size < offset + size
  decode_refuses : decode buffer offset = refuse (tooSmall buffer.size offset) ↔ buffer.size < offset + size
  encode_refuses : (k.encode offset).start buffer = (refuse (tooSmall buffer.size offset), buffer) ↔
    buffer.size < offset + size
  size_room : offset + size ≤ buffer.size → sizeIn buffer.size offset = .ok size
  encode_room : offset + size ≤ buffer.size → ∃ b, (k.encode offset).Gives buffer () b ∧
    Page.bytesAt ⟨b⟩ offset size = k.bytes ∧ decode b offset = .ok k ∧
    Page.AgreeOutside (Set.Ico offset (offset + size)) ⟨buffer⟩ ⟨b⟩
  decode_room : offset + size ≤ buffer.size → ∃ k', decode buffer offset = .ok k' ∧
    k'.bytes = Page.bytesAt ⟨buffer⟩ offset size ∧ (k'.encode offset).Gives buffer () buffer

/-- A key is read from what shows a page, and stored there, as from and into the bytes of the page. -/
structure Agrees (shown : π → Page) (k : Key) (p : π) (offset : Nat) : Prop where
  read : readFrom p offset = decode (shown p).bytes offset
  outcome : ((k.store offset).start p).1 = ((k.encode offset).start (shown p).bytes).1
  bytes : (shown ((k.store offset).start p).2).bytes = ((k.encode offset).start (shown p).bytes).2

theorem codes (k : Key) (buffer : ByteArray) (offset : Nat) : k.Codes buffer offset where
  size_refuses := sizeIn_refuses_iff
  decode_refuses := by
    constructor
    · intro h
      by_contra hroom
      rw [decode_room (Nat.le_of_not_lt hroom)] at h
      cases h
    · exact decode_short
  encode_refuses := by
    constructor
    · intro h
      by_contra hroom
      obtain ⟨b, hg, -⟩ := k.encode_room (Nat.le_of_not_lt hroom)
      rw [hg.eq] at h
      cases h
    · exact k.encode_short
  size_room := sizeIn_room
  encode_room h := by
    obtain ⟨b, hg, hb⟩ := k.encode_room h
    have hin : Page.Inside (Page.size ⟨buffer⟩) ⟨offset, k.bytes⟩ := by
      rw [Page.Inside, length_bytes]
      exact h
    have hbytes : Page.bytesAt ⟨b⟩ offset size = k.bytes := by
      rw [hb, ← k.length_bytes]
      exact Page.bytesAt_written_self hin
    have hsize : offset + size ≤ b.size := by
      have hb' : Page.size ⟨b⟩ = Page.size ⟨buffer⟩ := by rw [hb, Page.size_written hin]
      exact h.trans_eq hb'.symm
    refine ⟨b, hg, hbytes, ?_, ?_⟩
    · rw [Key.decode_room hsize, hbytes, ofBytes_bytes]
    · have hagree := Page.agreeOutside_written hin
      rw [length_bytes, ← hb] at hagree
      exact hagree
  decode_room h := by
    have hlen : (Page.bytesAt ⟨buffer⟩ offset size).length = size := Page.length_bytesAt h
    have hback := bytes_ofBytes hlen
    refine ⟨_, Key.decode_room h, hback, ?_⟩
    obtain ⟨b, hg, hb⟩ := (ofBytes (Page.bytesAt ⟨buffer⟩ offset size)).encode_room h
    have hsame : (⟨b⟩ : Page) = ⟨buffer⟩ := by
      rw [hb, hback]
      apply Page.written_eq_self
      · rw [hlen]
        exact h
      · rw [hlen]
    obtain rfl : b = buffer := congrArg Page.bytes hsame
    exact hg

theorem agrees (k : Key) (h : Writable.Shows shown p) (offset : Nat) : k.Agrees shown p offset := by
  have hread := readFrom_shown h offset
  rcases Nat.lt_or_ge (shown p).size (offset + size) with hshort | hroom
  · have hstore := k.store_short h hshort
    have hencode : (k.encode offset).start (shown p).bytes = _ := k.encode_short hshort
    constructor
    · exact hread
    · rw [hstore, hencode]
      rfl
    · rw [hstore, hencode]
  · obtain ⟨q, hstore, hq⟩ := k.store_room h hroom
    obtain ⟨b, hencode, hb⟩ : ∃ b, (k.encode offset).Gives (shown p).bytes () b ∧ _ := k.encode_room hroom
    constructor
    · exact hread
    · rw [hstore.eq, hencode.eq]
    · rw [hstore.eq, hencode.eq, hq]
      exact (congrArg Page.bytes hb).symm

/-- The test for a whole key, made on words of sixty-four bits. Nothing in it wraps around, and where it passes
neither does the end of the key. -/
theorem sizeIn_words (length start : UInt64) :
    (sizeIn length.toNat start.toNat =
      if length < start ∨ length - start < 20 then
        .error (.bufferTooSmall start.toNat (if length < start then 0 else (length - start).toNat))
      else .ok size) ∧
    (start.toNat + size ≤ length.toNat → (start + 20).toNat = start.toNat + size) := by
  have hlength := length.toNat_lt
  constructor
  · rcases Nat.lt_or_ge length.toNat start.toNat with hlt | hge
    · have hpast : length < start := hlt
      rw [sizeIn_short (by omega), if_pos (.inl hpast), if_pos hpast, tooSmall, Nat.sub_eq_zero_of_le hlt.le]
    · have hbefore : ¬ length < start := Nat.not_lt.mpr hge
      have hdiff : (length - start).toNat = length.toNat - start.toNat := UInt64.toNat_sub_of_le _ _ hge
      have htest : length - start < 20 ↔ length.toNat - start.toNat < size := by
        rw [UInt64.lt_iff_toNat_lt, hdiff]
        rfl
      simp only [hbefore, htest, hdiff, false_or, if_false]
      rw [sizeIn]
      simp only [Nat.not_lt.mpr hge, false_or]
  · intro h
    rw [UInt64.toNat_add]
    exact Nat.mod_eq_of_lt (Nat.lt_of_le_of_lt h hlength)

/-- Keys are put into buffers, pages and changes over pages and taken from them again, at every offset. -/
theorem codec_exact (k : Key) (offset : Nat) :
    (∀ buffer, k.Codes buffer offset) ∧
    (∀ page : Page, k.Agrees id page offset) ∧
    (∀ (ε : Type) (base : Page) (ws : List Write) (o : Overlay),
      ((Overlay.on base).writeAll ws : Checked ε Overlay) = .ok o → k.Agrees Overlay.page o offset) ∧
    ∀ length start : UInt64,
      (sizeIn length.toNat start.toNat =
        if length < start ∨ length - start < 20 then
          .error (.bufferTooSmall start.toNat (if length < start then 0 else (length - start).toNat))
        else .ok size) ∧
      (start.toNat + size ≤ length.toNat → (start + 20).toNat = start.toNat + size) := by
  refine ⟨fun buffer => k.codes buffer offset, fun page => k.agrees (Writable.shows_page page) offset, ?_,
    sizeIn_words⟩
  intro ε base ws o ho
  obtain ⟨hin, rfl⟩ := Overlay.writeAll_eq_ok_iff.mp ho
  exact k.agrees (Writable.shows_overlay (Overlay.tidy_writtenAll (Overlay.tidy_on base) hin)) offset

/-- A key that two writes put over a page of twenty-five bytes is read through them. It has room in a buffer of
that length, and the largest offset has none. -/
theorem codec_exact_joined :
    let k : Key := ⟨-9, 4, Int64.minValue⟩
    (∃ o, ((Overlay.on (.zero 25)).writeAll [⟨5, k.bytes.take 10⟩, ⟨15, k.bytes.drop 10⟩] :
        Checked PageError Overlay) = .ok o ∧ readFrom o 5 = decode o.page.bytes 5 ∧ readFrom o 5 = .ok k) ∧
      (∃ b, (k.encode 5).Gives (Block.zeros 25) () b ∧ decode b 5 = .ok k) ∧
      (k.encode (UInt64.size - 1)).start (Block.zeros 25) =
        (refuse (.bufferTooSmall (UInt64.size - 1) 0), Block.zeros 25) := by
  intro k
  obtain ⟨hbuffer, -, hoverlay, -⟩ := codec_exact k 5
  let ws : List Write := [⟨5, k.bytes.take 10⟩, ⟨15, k.bytes.drop 10⟩]
  have hwritten : ((Overlay.on (.zero 25)).writeAll ws : Checked PageError Overlay) =
      .ok ((Overlay.on (.zero 25)).writtenAll ws) :=
    Overlay.writeAll_eq_ok_iff.mpr ⟨by simp only [Page.Inside]; decide, rfl⟩
  refine ⟨⟨_, hwritten, ?_⟩, ?_, ?_⟩
  · have hread := (hoverlay PageError (.zero 25) ws _ hwritten).read
    exact ⟨hread, hread.trans (by decide +kernel)⟩
  · obtain ⟨b, hg, -, hdecode, -⟩ := (hbuffer (Block.zeros 25)).encode_room (by decide)
    exact ⟨b, hg, hdecode⟩
  · exact ((codec_exact k (UInt64.size - 1)).1 (Block.zeros 25)).encode_refuses.mpr (by decide)

end Key

end RefStore
