import RefStore.Proofs.LogCodec
import RefStore.Proofs.Outages

/-!
# The format of the log

The bytes that are read as a record are that record's encoding, so no bytes are read as a record in
two ways. A scan takes the longest run of whole records off the front of a log. Main statements:
`LogRecord.encode_of_decode`, `LogScan.exists_tail` and `LogScan.ofBytes_take_records`.
-/

namespace RefStore

namespace Fields

variable {n : Nat} {bs field rest : List UInt8}

theorem eq_append_of_take? (h : take? n bs = some (field, rest)) :
    bs = field ++ rest ∧ field.length = n := by
  unfold take? at h
  split at h
  · next hn =>
    cases h
    exact ⟨(List.take_append_drop n bs).symm, List.length_take_of_le hn⟩
  · cases h

theorem eq_append_of_word? {α : Type} [Word α] {a : α} (h : word? α bs = some (a, rest)) :
    bs = Word.bytes a ++ rest := by
  simp only [word?, Option.map_eq_some_iff, Prod.exists] at h
  obtain ⟨field, rest', hfield, heq⟩ := h
  cases heq
  obtain ⟨rfl, hlen⟩ := eq_append_of_take? hfield
  rw [Word.bytes_ofBytes field hlen]

/-- Bytes that are the UTF-8 of a text are the ones it is stored as. -/
theorem ofText_of_fromUTF8? {text : String} (h : String.fromUTF8? field.toByteArray = some text) :
    ofText text = field := by
  unfold String.fromUTF8? at h
  split at h
  · cases h
    exact List.toList_data_toByteArray
  · cases h

theorem eq_append_of_text? {text : String} (h : text? n bs = some (text, rest)) :
    bs = ofText text ++ rest ∧ text.utf8ByteSize = n := by
  simp only [text?, bind, Option.bind_eq_some_iff, pure, Option.some.injEq, Prod.exists] at h
  obtain ⟨field, rest', hfield, text', htext, heq⟩ := h
  cases heq
  obtain ⟨rfl, hlen⟩ := eq_append_of_take? hfield
  rw [← length_ofText, ofText_of_fromUTF8? htext]
  exact ⟨rfl, hlen⟩

end Fields

theorem LogKind.code_of_ofCode? {b : UInt8} {kind : LogKind} (h : ofCode? b = some kind) :
    kind.code = b := by
  unfold ofCode? at h
  split at h
  · next hb => cases h; exact hb.symm
  split at h
  · next hb => cases h; exact hb.symm
  split at h
  · next hb => cases h; exact hb.symm
  split at h
  · next hb => cases h; exact hb.symm
  cases h

namespace LogPayload

variable {kind : LogKind} {p : LogPayload} {bs rest : List UInt8}

theorem eq_append_of_ranges? {n : Nat} {ranges : List LogRange} (h : ranges? n bs = some (ranges, rest)) :
    bs = ranges.flatMap rangeBytes ++ rest ∧ ranges.length = n ∧
      ∀ r ∈ ranges, r.bytes.length < 4294967296 := by
  induction n generalizing bs ranges with
  | zero =>
    cases h
    exact ⟨rfl, rfl, nofun⟩
  | succ n ih =>
    simp only [ranges?, bind, Option.bind_eq_some_iff, pure, Option.some.injEq, Prod.exists] at h
    obtain ⟨offset, bs₁, hoffset, length, bs₂, hlength, bytes, bs₃, hbytes, more, rest', hmore, heq⟩ := h
    cases heq
    obtain ⟨hbs₃, hn, hroom⟩ := ih hmore
    obtain ⟨hbs₂, hlen⟩ := Fields.eq_append_of_take? hbytes
    have hfield : UInt32.ofNat bytes.length = length := by rw [hlen, UInt32.ofNat_toNat]
    refine ⟨?_, congrArg (· + 1) hn, List.forall_mem_cons.mpr ⟨?_, hroom⟩⟩
    · rw [Fields.eq_append_of_word? hoffset, Fields.eq_append_of_word? hlength, hbs₂, hbs₃]
      simp [rangeBytes, hfield]
    · exact hlen ▸ length.toNat_lt

/-- What is read from the front of some bytes is encoded in them. -/
theorem eq_append_of_read? (h : read? kind bs = some (p, rest)) :
    bs = p.bytes ++ rest ∧ p.kind = kind ∧ p.Encodable := by
  cases kind with
  | fileCreated =>
    simp only [read?, bind, Option.bind_eq_some_iff, pure, Option.some.injEq, Prod.exists] at h
    obtain ⟨file, bs₁, hfile, length, bs₂, hlength, name, rest', hname, heq⟩ := h
    cases heq
    obtain ⟨hbs₂, hlen⟩ := Fields.eq_append_of_text? hname
    have hfield : UInt16.ofNat (Fields.ofText name).length = length := by
      rw [Fields.length_ofText, hlen, UInt16.ofNat_toNat]
    refine ⟨?_, rfl, show name.utf8ByteSize < 65536 from hlen ▸ length.toNat_lt⟩
    rw [Fields.eq_append_of_word? hfile, Fields.eq_append_of_word? hlength, hbs₂]
    simp [bytes, hfield]
  | pageUpdate =>
    simp only [read?, bind, Option.bind_eq_some_iff, pure, Option.some.injEq, Prod.exists] at h
    obtain ⟨file, bs₁, hfile, index, bs₂, hindex, count, bs₃, hcount, ranges, rest', hranges, heq⟩ := h
    cases heq
    obtain ⟨hbs₃, hlen, hroom⟩ := eq_append_of_ranges? hranges
    have hfield : UInt32.ofNat ranges.length = count := by rw [hlen, UInt32.ofNat_toNat]
    refine ⟨?_, rfl, hlen ▸ count.toNat_lt, hroom⟩
    rw [Fields.eq_append_of_word? hfile, Fields.eq_append_of_word? hindex,
      Fields.eq_append_of_word? hcount, hbs₃]
    simp [bytes, hfield]
  | fileDeleted =>
    simp only [read?, bind, Option.bind_eq_some_iff, pure, Option.some.injEq, Prod.exists] at h
    obtain ⟨file, rest', hfile, heq⟩ := h
    cases heq
    exact ⟨Fields.eq_append_of_word? hfile, rfl, trivial⟩
  | commit =>
    cases h
    exact ⟨rfl, rfl, trivial⟩

theorem bytes_of_ofBytes? (h : ofBytes? kind bs = some p) : p.bytes = bs ∧ p.kind = kind ∧ p.Encodable := by
  unfold ofBytes? at h
  split at h
  · next hread =>
    cases h
    obtain ⟨hbs, hrest⟩ := eq_append_of_read? hread
    exact ⟨(hbs.trans (List.append_nil _)).symm, hrest⟩
  · cases h

end LogPayload

namespace LogRecord

variable {r : LogRecord} {bs : List UInt8} {n : Nat}

/-- The fields of a record, told apart by where they stand. -/
theorem body_eq {bytes : List UInt8} (hlen : headerSize ≤ bytes.length)
    (hn : (Word.ofBytes (bytes.take 4) : UInt32).toNat = bytes.length + checksumSize)
    (hkind : r.payload.kind.code = (bytes.drop 4).headD 0)
    (hop : r.operation = Word.ofBytes ((bytes.drop 5).take 8))
    (hpayload : r.payload.bytes = bytes.drop headerSize) : r.body = bytes := by
  simp only [headerSize] at hlen
  have hlength : Word.bytes (UInt32.ofNat (headerSize + r.payload.bytes.length + checksumSize)) =
      bytes.take 4 := by
    have hfield : headerSize + r.payload.bytes.length + checksumSize =
        (Word.ofBytes (bytes.take 4) : UInt32).toNat := by
      rw [hn, hpayload, List.length_drop]
      simp only [headerSize]
      omega
    rw [hfield, UInt32.ofNat_toNat]
    exact Word.bytes_ofBytes _ (List.length_take_of_le (Nat.le_trans (by decide) hlen))
  have hid : Word.bytes r.operation = (bytes.drop 5).take 8 := by
    rw [hop]
    refine Word.bytes_ofBytes _ ?_
    rw [List.length_take, List.length_drop]
    exact Nat.min_eq_left (by omega)
  have hcode : bytes.drop 4 = r.payload.kind.code :: bytes.drop 5 := by
    rw [hkind, List.drop_eq_getElem_cons (by omega), List.headD_cons]
  have hrest : bytes.drop 5 = Word.bytes r.operation ++ r.payload.bytes := by
    rw [hid, hpayload, headerSize, show (13 : Nat) = 5 + 8 from rfl, ← List.drop_drop, List.take_append_drop]
  have hbody : r.body = bytes.take 4 ++ (r.payload.kind.code :: (Word.bytes r.operation ++ r.payload.bytes)) := by
    rw [← hlength, LogRecord.body, List.append_assoc, List.cons_append]
  rw [hbody, ← hrest, ← hcode, List.take_append_drop]

/-- What was checked of the bytes that are read as a record. -/
theorem checks_of_decode (h : decode bs = .ok (r, n)) :
    (Word.ofBytes (bs.take 4) : UInt32).toNat = n ∧
      Word.ofBytes ((bs.drop (n - checksumSize)).take checksumSize) =
        Checksum.crc32 (bs.take (n - checksumSize)) ∧
      r.payload.kind.code = ((bs.take (n - checksumSize)).drop 4).headD 0 ∧
      r.operation = Word.ofBytes (((bs.take (n - checksumSize)).drop 5).take 8) ∧
      r.payload.bytes = (bs.take (n - checksumSize)).drop headerSize ∧ r.payload.Encodable := by
  unfold decode at h
  extract_lets length body expected actual code at h
  split at h
  · cases h
  split at h
  · cases h
  next hsum =>
  split at h
  · cases h
  next kind hkind =>
  split at h
  · cases h
  next payload hpayload =>
  simp only [Except.ok.injEq, Prod.mk.injEq] at h
  obtain ⟨hr, rfl⟩ := h
  obtain ⟨hbytes, hpkind, hroom⟩ := LogPayload.bytes_of_ofBytes? hpayload
  subst hr
  exact ⟨rfl, Decidable.not_not.mp hsum, hpkind ▸ LogKind.code_of_ofCode? hkind, rfl, hbytes, hroom⟩

/-- Bytes that are read as a record are its encoding, and the record is one to read back. -/
theorem encode_of_decode (h : decode bs = .ok (r, n)) : r.encode = bs.take n ∧ r.Encodable := by
  obtain ⟨hlow, hhigh⟩ := decode_bounds h
  obtain ⟨hlength, hsum, hkind, hop, hpayload, hroom⟩ := checks_of_decode h
  have hhead : headerSize ≤ n - checksumSize := Nat.le_sub_of_add_le hlow
  have hsub : n - checksumSize + checksumSize = n := Nat.sub_add_cancel (Nat.le_trans (by decide) hlow)
  have hlen : (bs.take (n - checksumSize)).length = n - checksumSize :=
    List.length_take_of_le (Nat.le_trans (Nat.sub_le _ _) hhigh)
  have hbody : r.body = bs.take (n - checksumSize) := by
    refine body_eq (hlen.symm ▸ hhead) ?_ hkind hop hpayload
    rw [List.take_take, Nat.min_eq_left (Nat.le_trans (by decide) hhead), hlength, hlen, hsub]
  have hchecksum : Word.bytes (Checksum.crc32 r.body) =
      (bs.drop (n - checksumSize)).take checksumSize := by
    rw [hbody, ← hsum]
    refine Word.bytes_ofBytes _ (List.length_take_of_le ?_)
    rw [List.length_drop]
    omega
  have hencode : r.encode = bs.take n := by
    rw [encode, hchecksum, hbody, ← List.take_add, hsub]
  refine ⟨hencode, hroom, ?_⟩
  rw [← length_encode, hencode, List.length_take_of_le hhigh, ← hlength]
  exact UInt32.toNat_lt _

/-- Where the record that `k` others precede begins in a log. -/
def offset (rs : List LogRecord) (k : Nat) : Nat := ((rs.take k).flatMap encode).length

@[simp] theorem offset_zero (rs : List LogRecord) : offset rs 0 = 0 := rfl

@[simp] theorem offset_nil (k : Nat) : offset [] k = 0 := by simp [offset]

@[simp] theorem offset_cons (r : LogRecord) (rs : List LogRecord) (k : Nat) :
    offset (r :: rs) (k + 1) = r.encode.length + offset rs k := by
  rw [offset, List.take_succ_cons, List.flatMap_cons, List.length_append, offset]

theorem offset_length (rs : List LogRecord) : offset rs rs.length = (rs.flatMap encode).length := by
  rw [offset, List.take_length]

/-- The ends of records behind the first one, counted from there. -/
theorem exists_offset_cons {rs : List LogRecord} (hle : r.encode.length ≤ n) :
    (∃ j ≤ rs.length, offset rs j = min (n - r.encode.length) (offset rs rs.length)) ↔
      ∃ j ≤ (r :: rs).length, offset (r :: rs) j = min n (offset (r :: rs) (r :: rs).length) := by
  rw [List.length_cons, offset_cons]
  constructor
  · rintro ⟨j, hj, heq⟩
    refine ⟨j + 1, Nat.succ_le_succ hj, ?_⟩
    rw [offset_cons, heq]
    omega
  · rintro ⟨j, hj, heq⟩
    cases j with
    | zero =>
      have hlen := length_encode r
      rw [offset_zero] at heq
      simp only [headerSize] at hlen
      omega
    | succ j =>
      refine ⟨j, Nat.le_of_succ_le_succ hj, ?_⟩
      rw [offset_cons] at heq
      omega

end LogRecord

namespace LogScan

variable {r : LogRecord} {rs : List LogRecord} {bs : List UInt8} {n : Nat}

/-- What a scan returns stands at the front of the bytes, and what follows is no record. -/
theorem exists_tail (bs : List UInt8) :
    ∃ tail, bs = (ofBytes bs).records.flatMap LogRecord.encode ++ tail ∧
      (∀ r ∈ (ofBytes bs).records, r.Encodable) ∧ (∀ front, LogRecord.decode tail ≠ .ok front) ∧
      ((ofBytes bs).torn = false ↔ tail = []) := by
  by_cases hnil : bs = []
  · refine ⟨[], ?_⟩
    rw [hnil, ofBytes_nil]
    refine ⟨rfl, nofun, fun front h => ?_, by simp⟩
    obtain ⟨hlow, hhigh⟩ := LogRecord.decode_bounds h
    exact absurd (Nat.le_trans hlow hhigh) (by decide)
  cases hd : LogRecord.decode bs with
  | error e =>
    refine ⟨bs, ?_⟩
    rw [ofBytes_error hnil hd]
    exact ⟨rfl, nofun, fun front h => (nomatch hd.symm.trans h), by simp [hnil]⟩
  | ok front =>
    obtain ⟨r, n⟩ := front
    have hbounds := LogRecord.decode_bounds hd
    obtain ⟨hencode, hr⟩ := LogRecord.encode_of_decode hd
    obtain ⟨tail, heq, hall, hstop, htorn⟩ := exists_tail (bs.drop n)
    rw [ofBytes_ok hd]
    refine ⟨tail, ?_, List.forall_mem_cons.mpr ⟨hr, hall⟩, hstop, htorn⟩
    rw [List.flatMap_cons, List.append_assoc, ← heq, hencode, List.take_append_drop]
termination_by bs.length
decreasing_by
  simp only [LogRecord.headerSize, LogRecord.checksumSize] at hbounds
  rw [List.length_drop]
  omega

/-- A log without records and without a torn tail is empty. -/
theorem eq_nil_of_ofBytes (h : (ofBytes bs).records = []) (ht : (ofBytes bs).torn = false) : bs = [] := by
  obtain ⟨tail, heq, -, -, htorn⟩ := exists_tail bs
  rw [h, htorn.mp ht] at heq
  exact heq

theorem ofBytes_take_encode (h : r.Encodable) (hn : n < r.encode.length) :
    ofBytes (r.encode.take n) = ⟨[], n != 0⟩ := by
  cases n with
  | zero => rw [List.take_zero, ofBytes_nil]; rfl
  | succ n =>
    have hne : r.encode.take (n + 1) ≠ [] := List.ne_nil_of_length_pos (by rw [List.length_take]; omega)
    rw [ofBytes_error hne (LogRecord.decode_take h hn)]
    rfl

/-- Of the first bytes of a log the records that lie wholly among them are read. -/
theorem ofBytes_take_records (h : ∀ r ∈ rs, r.Encodable) (n : Nat) :
    ∃ k ≤ rs.length, (ofBytes ((rs.flatMap LogRecord.encode).take n)).records = rs.take k ∧
      (∀ j ≤ rs.length, j ≤ k ↔ LogRecord.offset rs j ≤ n) ∧
      ((ofBytes ((rs.flatMap LogRecord.encode).take n)).torn = false ↔
        ∃ j ≤ rs.length, LogRecord.offset rs j = min n (LogRecord.offset rs rs.length)) := by
  induction rs generalizing n with
  | nil =>
    refine ⟨0, Nat.le_refl 0, ?_⟩
    simp [ofBytes_nil]
  | cons r rs ih =>
    have hr := h r List.mem_cons_self
    rw [List.flatMap_cons]
    by_cases hlt : n < r.encode.length
    · -- every record but the first begins after `n`
      have hbeyond (j : Nat) : n < LogRecord.offset (r :: rs) (j + 1) := by
        rw [LogRecord.offset_cons]
        omega
      rw [List.take_append_of_le_length (Nat.le_of_lt hlt), ofBytes_take_encode hr hlt, List.length_cons,
        Nat.min_eq_left (Nat.le_of_lt (hbeyond rs.length))]
      refine ⟨0, Nat.zero_le _, rfl, fun j _ => ?_, ?_, ?_⟩
      · cases j with
        | zero => simp
        | succ j => simpa using hbeyond j
      · intro hz
        exact ⟨0, Nat.zero_le _, .symm (by simpa using hz)⟩
      · rintro ⟨j, -, hj⟩
        cases j with
        | zero => simpa using hj.symm
        | succ j => exact absurd hj (Nat.ne_of_gt (hbeyond j))
    · have hle := Nat.le_of_not_lt hlt
      obtain ⟨k, hk, hrecords, hwithin, htorn⟩ := ih (fun r' hr' => h r' (List.mem_cons_of_mem _ hr'))
        (n - r.encode.length)
      rw [List.take_append, List.take_of_length_le hle, ofBytes_append hr, hrecords]
      refine ⟨k + 1, Nat.succ_le_succ hk, rfl, fun j hj => ?_, htorn.trans (LogRecord.exists_offset_cons hle)⟩
      cases j with
      | zero => simp
      | succ j =>
        have hj' := hwithin j (Nat.le_of_succ_le_succ hj)
        rw [LogRecord.offset_cons]
        omega

/-- A log that lost bytes at its end has lost its last record. -/
theorem ofBytes_take (h : ∀ r ∈ rs, r.Encodable) {k : Nat} (hk : k < (rs.flatMap LogRecord.encode).length) :
    ∃ n < rs.length, (ofBytes ((rs.flatMap LogRecord.encode).take k)).records = rs.take n := by
  obtain ⟨n, hn, hrecords, hwithin, -⟩ := ofBytes_take_records h k
  refine ⟨n, Nat.lt_of_le_of_ne hn ?_, hrecords⟩
  rintro rfl
  have hall := (hwithin rs.length (Nat.le_refl _)).mp (Nat.le_refl _)
  rw [LogRecord.offset_length] at hall
  exact absurd hk (Nat.not_lt_of_le hall)

end LogScan

namespace Log

theorem scan_gives (log : Log) (d : Disk) :
    log.scan.Gives d (LogScan.ofBytes (d.content log.node).toList) d := by
  have hread : (Disk.readAll log.node).Gives d (d.content log.node).block d :=
    (Task.Gives.state _).bind (.pure _ _)
  rw [← Contents.toList_block]
  exact hread.embed.bind (.pure _ _)

/-- The format is read exactly: a record that has room for its fields is read back whatever follows it,
the bytes taken for a record are its encoding, a scan of any bytes stops and returns what is encoded at
their front, and a log that is cut short loses just the records that are not whole. -/
theorem reads_exactly :
    (∀ (r : LogRecord) (rest : List UInt8), r.Encodable →
      LogRecord.decode (r.encode ++ rest) = .ok (r, r.encode.length)) ∧
    (∀ (bs : List UInt8) (r : LogRecord) (n : Nat), LogRecord.decode bs = .ok (r, n) →
      17 ≤ n ∧ n ≤ bs.length ∧ r.encode = bs.take n) ∧
    (∀ bs : List UInt8, ∃ tail, bs = (LogScan.ofBytes bs).records.flatMap LogRecord.encode ++ tail ∧
      ((LogScan.ofBytes bs).torn = false ↔ tail = [])) ∧
    (∀ (rs : List LogRecord) (n : Nat), (∀ r ∈ rs, r.Encodable) →
      ∃ scan, LogScan.ofBytes ((rs.flatMap LogRecord.encode).take n) = scan ∧
        ∃ k ≤ rs.length, scan.records = rs.take k ∧
          (∀ j ≤ rs.length, j ≤ k ↔ LogRecord.offset rs j ≤ n) ∧
          (scan.torn = false ↔
            ∃ j ≤ rs.length, LogRecord.offset rs j = min n (LogRecord.offset rs rs.length))) ∧
    (∀ (log : Log) (d : Disk), log.scan.Gives d (LogScan.ofBytes (d.content log.node).toList) d) := by
  refine ⟨fun r rest hr => LogRecord.decode_append hr rest, fun bs r n h => ?_, fun bs => ?_,
    fun rs n hr => ⟨_, rfl, LogScan.ofBytes_take_records hr n⟩, fun log d => log.scan_gives d⟩
  · obtain ⟨hlow, hhigh⟩ := LogRecord.decode_bounds h
    exact ⟨hlow, hhigh, (LogRecord.encode_of_decode h).1⟩
  · obtain ⟨tail, hfront, -, -, htorn⟩ := LogScan.exists_tail bs
    exact ⟨tail, hfront, htorn⟩

/-- A deletion and a commit, cut off in the middle of the commit. -/
theorem reads_exactly_deletion :
    LogScan.ofBytes ((([⟨7, .fileDeleted 3⟩, ⟨7, .commit⟩] : List LogRecord).flatMap
      LogRecord.encode).take 30) = ⟨[⟨7, .fileDeleted 3⟩], true⟩ := by
  have hdelete : LogRecord.Encodable ⟨7, .fileDeleted 3⟩ := ⟨trivial, by decide⟩
  have hcommit : LogRecord.Encodable ⟨7, .commit⟩ := ⟨trivial, by decide⟩
  obtain ⟨scan, hscan, k, hk, hrecords, hwithin, htorn⟩ := reads_exactly.2.2.2.1
    [⟨7, .fileDeleted 3⟩, ⟨7, .commit⟩] 30 (by simp [hdelete, hcommit])
  have hfirst : LogRecord.offset [⟨7, .fileDeleted 3⟩, ⟨7, .commit⟩] 1 = 21 := by
    simp [LogRecord.length_encode, LogPayload.bytes, LogRecord.headerSize, LogRecord.checksumSize, Word.width]
  have hsecond : LogRecord.offset [⟨7, .fileDeleted 3⟩, ⟨7, .commit⟩] 2 = 38 := by
    simp [LogRecord.length_encode, LogPayload.bytes, LogRecord.headerSize, LogRecord.checksumSize, Word.width]
  have hone : k = 1 := by
    have h₁ := hwithin 1 (by decide)
    have h₂ := hwithin 2 (by decide)
    simp only [List.length_cons, List.length_nil] at hk
    omega
  rw [hscan]
  have htrue : scan.torn = true := by
    cases ht : scan.torn with
    | true => rfl
    | false =>
      obtain ⟨j, hj, hoffset⟩ := htorn.mp ht
      simp only [List.length_cons, List.length_nil, Nat.zero_add, Nat.reduceAdd, hsecond] at hj hoffset
      obtain rfl | rfl | rfl : j = 0 ∨ j = 1 ∨ j = 2 := by omega
      · simp at hoffset
      · omega
      · omega
  subst hone
  cases scan
  cases hrecords
  cases htrue
  rfl

end Log

end RefStore
