import RefStore.Log.Record
import RefStore.Proofs.CatalogCodec

/-!
# Reading back the log

Records that were encoded are read back in order, and a record that is cut short is a torn tail. Main
statements: `LogRecord.decode_append`, `LogRecord.decode_take` and `LogScan.ofBytes_flatMap`.
-/

namespace RefStore

theorem Fields.text?_append (s : String) (rest : List UInt8) :
    text? s.utf8ByteSize (ofText s ++ rest) = some (s, rest) := by
  rw [text?, ← length_ofText, take?_append]
  simp only [bind, Option.bind, fromUTF8?_ofText, pure]

namespace LogPayload

/-- Payloads whose names and ranges the encoding has room for. -/
def Encodable : LogPayload → Prop
  | fileCreated _ name => name.utf8ByteSize < 65536
  | pageUpdate _ _ ranges => ranges.length < 4294967296 ∧ ∀ r ∈ ranges, r.bytes.length < 4294967296
  | fileDeleted _ => True
  | commit => True

theorem ranges?_flatMap {ranges : List LogRange} (h : ∀ r ∈ ranges, r.bytes.length < 4294967296)
    (rest : List UInt8) :
    ranges? ranges.length (ranges.flatMap rangeBytes ++ rest) = some (ranges, rest) := by
  induction ranges with
  | nil => rfl
  | cons r ranges ih =>
    have hlen : (UInt32.ofNat r.bytes.length).toNat = r.bytes.length :=
      UInt32.toNat_ofNat_of_lt' (h r List.mem_cons_self)
    have hbytes : (r :: ranges).flatMap rangeBytes ++ rest = Word.bytes r.offset ++
        (Word.bytes (UInt32.ofNat r.bytes.length) ++
          (r.bytes ++ (ranges.flatMap rangeBytes ++ rest))) := by
      simp [rangeBytes]
    rw [List.length_cons, hbytes, ranges?, Fields.word?_append]
    simp only [bind, Option.bind, Fields.word?_append, hlen, Fields.take?_append,
      ih fun r' hr => h r' (List.mem_cons_of_mem _ hr), pure]

theorem read?_bytes {p : LogPayload} (h : p.Encodable) (rest : List UInt8) :
    read? p.kind (p.bytes ++ rest) = some (p, rest) := by
  cases p with
  | fileCreated file name =>
    have hlen : (UInt16.ofNat (Fields.ofText name).length).toNat = name.utf8ByteSize :=
      UInt16.toNat_ofNat_of_lt' h
    simp only [kind, read?, bytes, List.append_assoc, Fields.word?_append, bind, Option.bind, hlen,
      Fields.text?_append, pure]
  | pageUpdate file index ranges =>
    have hlen : (UInt32.ofNat ranges.length).toNat = ranges.length :=
      UInt32.toNat_ofNat_of_lt' h.1
    simp only [kind, read?, bytes, List.append_assoc, Fields.word?_append, bind, Option.bind, hlen,
      ranges?_flatMap h.2, pure]
  | fileDeleted file => simp only [kind, read?, bytes, Fields.word?_append, bind, Option.bind, pure]
  | commit => rfl

theorem ofBytes?_bytes {p : LogPayload} (h : p.Encodable) : ofBytes? p.kind p.bytes = some p := by
  rw [ofBytes?, ← List.append_nil p.bytes, read?_bytes h]

theorem ofCode?_code (k : LogKind) : LogKind.ofCode? k.code = some k := by cases k <;> rfl

end LogPayload

namespace LogRecord

/-- Records whose length fits its field. -/
structure Encodable (r : LogRecord) : Prop where
  payload : r.payload.Encodable
  length : headerSize + r.payload.bytes.length + checksumSize < 4294967296

variable {r : LogRecord}

theorem length_body (r : LogRecord) : r.body.length = headerSize + r.payload.bytes.length := by
  simp [body, Word.width, headerSize]
  omega

theorem length_encode (r : LogRecord) :
    r.encode.length = headerSize + r.payload.bytes.length + checksumSize := by
  rw [encode, List.length_append, length_body]
  rfl

theorem Encodable.length_encode_lt (h : r.Encodable) : r.encode.length < 4294967296 := by
  rw [length_encode]
  exact h.length

/-- The first field is the length of the whole record. -/
theorem take_four (h : r.encode.length < 4294967296) {bs : List UInt8} (hb : bs.take 4 = r.encode.take 4) :
    (Word.ofBytes (bs.take 4) : UInt32).toNat = r.encode.length := by
  have hfirst : r.encode.take 4 =
      Word.bytes (UInt32.ofNat (headerSize + r.payload.bytes.length + checksumSize)) := by
    rw [encode, body, List.append_assoc, List.append_assoc, List.take_left' (by simp [Word.width])]
  rw [hb, hfirst, Word.ofBytes_bytes, ← length_encode, UInt32.toNat_ofNat_of_lt' h]

/-- The record at the front of a log is read, whatever follows it. -/
theorem decode_append (h : r.Encodable) (rest : List UInt8) :
    decode (r.encode ++ rest) = .ok (r, r.encode.length) := by
  have hlen := length_encode r
  have h17 : headerSize + checksumSize = 17 := rfl
  have hbody : r.encode.length - checksumSize = r.body.length := by
    rw [hlen, length_body]
    omega
  have hlength : (Word.ofBytes ((r.encode ++ rest).take 4) : UInt32).toNat = r.encode.length :=
    take_four h.length_encode_lt (List.take_append_of_le_length (by omega))
  have htake : (r.encode ++ rest).take r.body.length = r.body := by
    rw [encode, List.append_assoc, List.take_left]
  have hsum : (Word.ofBytes (((r.encode ++ rest).drop r.body.length).take checksumSize) : UInt32) =
      Checksum.crc32 r.body := by
    rw [encode, List.append_assoc, List.drop_left, List.take_left' (by simp [Word.width, checksumSize]),
      Word.ofBytes_bytes]
  have hsplit : r.body = Word.bytes (UInt32.ofNat (headerSize + r.payload.bytes.length + checksumSize)) ++
      (r.payload.kind.code :: (Word.bytes r.operation ++ r.payload.bytes)) := by
    simp [body]
  have hcode : (r.body.drop 4).headD 0 = r.payload.kind.code := by
    rw [hsplit, List.drop_left' (by simp [Word.width])]
    rfl
  have hpayload : r.body.drop headerSize = r.payload.bytes := by
    rw [hsplit, ← List.cons_append, ← List.append_assoc,
      List.drop_left' (by simp [Word.width, headerSize])]
  have hop : (Word.ofBytes ((r.body.drop 5).take 8) : OperationId) = r.operation := by
    rw [hsplit, ← List.singleton_append, ← List.append_assoc, List.drop_left' (by simp [Word.width]),
      List.take_left' (by simp [Word.width]), Word.ofBytes_bytes]
  rw [decode]
  simp only [hlength, hbody, htake, hsum, hcode, hpayload, hop]
  rw [if_neg (by rw [List.length_append]; omega), if_neg (not_not_intro rfl), LogPayload.ofCode?_code]
  dsimp only
  rw [LogPayload.ofBytes?_bytes h.payload]

/-- A record that is cut short is no record. -/
theorem decode_take (h : r.Encodable) {k : Nat} (hk : k < r.encode.length) :
    decode (r.encode.take k) = .error .corruptRecord := by
  rw [decode]
  refine if_pos ?_
  rw [List.length_take, Nat.min_eq_left (Nat.le_of_lt hk)]
  by_cases hfour : 4 ≤ k
  · rw [take_four h.length_encode_lt (by rw [List.take_take, Nat.min_eq_left hfour])]
    exact .inr hk
  · have h17 : headerSize + checksumSize = 17 := rfl
    omega

end LogRecord

namespace LogScan

variable {r : LogRecord} {rs : List LogRecord} {bs : List UInt8}

theorem ofBytes_nil : ofBytes [] = ⟨[], false⟩ := by
  rw [ofBytes, if_pos rfl]

theorem ofBytes_ok {n : Nat} (h : LogRecord.decode bs = .ok (r, n)) :
    ofBytes bs = ⟨r :: (ofBytes (bs.drop n)).records, (ofBytes (bs.drop n)).torn⟩ := by
  have hne : bs ≠ [] := by
    rintro rfl
    have hb := LogRecord.decode_bounds h
    simp [LogRecord.headerSize] at hb
    omega
  rw [ofBytes, if_neg hne]
  split
  · next he =>
    rw [h] at he
    cases he
  · next he =>
    rw [h] at he
    cases he
    rfl

theorem ofBytes_error {e : LogError} (hne : bs ≠ []) (h : LogRecord.decode bs = .error e) :
    ofBytes bs = ⟨[], true⟩ := by
  rw [ofBytes, if_neg hne]
  split
  · rfl
  · next he =>
    rw [h] at he
    cases he

/-- Whole records are read back, and then what follows them. -/
theorem ofBytes_append (h : r.Encodable) (rest : List UInt8) : ofBytes (r.encode ++ rest) =
    ⟨r :: (ofBytes rest).records, (ofBytes rest).torn⟩ := by
  rw [ofBytes_ok (LogRecord.decode_append h rest), List.drop_left]

theorem ofBytes_flatMap (h : ∀ r ∈ rs, r.Encodable) :
    ofBytes (rs.flatMap LogRecord.encode) = ⟨rs, false⟩ := by
  induction rs with
  | nil => exact ofBytes_nil
  | cons r rs ih =>
    rw [List.flatMap_cons, ofBytes_append (h r List.mem_cons_self),
      ih fun r' hr => h r' (List.mem_cons_of_mem _ hr)]

end LogScan

end RefStore
