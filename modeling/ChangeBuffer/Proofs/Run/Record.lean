import ChangeBuffer.Proofs.Bytes.BurstErrors
import ChangeBuffer.Run.Record

/-! # Reading records back

A record is read back from the bytes that were written for it.  After a change within four bytes
in a row, of the checksum or of the key and the row, it is not read at all.
-/

namespace ChangeBuffer

namespace Entry

def Fits (e : Entry) : Prop := e.excess? = none

instance (e : Entry) : Decidable e.Fits := inferInstanceAs (Decidable (_ = none))

def lengths (e : Entry) : Bytes :=
  Word.encode 4 e.key.length ++ Word.encode 4 e.version.lengthField

def content (e : Entry) : Bytes := e.key ++ e.version.payload

theorem body_eq (e : Entry) : e.body = e.lengths ++ e.content := by
  simp [body, lengths, content]

@[simp] theorem length_lengths (e : Entry) : e.lengths.length = 8 := by simp [lengths]

theorem length_encode (e : Entry) : e.encode.length = e.size := by
  simp [encode, body, size, headerSize]
  omega

theorem fits_iff {e : Entry} :
    e.Fits ↔ e.key.length < 2 ^ 32 ∧ e.version.payload.length < removedMark := by
  simp only [Fits, excess?]
  split
  · simp; omega
  split
  · simp; omega
  · simp; omega

theorem check_lt (e : Entry) : e.check < 256 ^ 4 := (Crc32.checksum e.body).toNat_lt

theorem Fits.lengthField_lt {e : Entry} (h : e.Fits) : e.version.lengthField < 256 ^ 4 := by
  have hp := (fits_iff.mp h).2
  match hv : e.version with
  | .present row =>
    simp only [hv, Version.payload, removedMark] at hp
    simp only [Version.lengthField]
    omega
  | .removed => decide

end Entry

namespace RecordHeader

theorem ofBytes_append {check keyLength lengthField : Nat} (hc : check < 256 ^ 4)
    (hk : keyLength < 256 ^ 4) (hl : lengthField < 256 ^ 4) (rest : Bytes) :
    ofBytes (Word.encode 4 check ++ (Word.encode 4 keyLength ++ Word.encode 4 lengthField ++ rest)) =
      ⟨check, keyLength, lengthField⟩ := by
  have h4 (n : Nat) (bs : Bytes) : (Word.encode 4 n ++ bs).take 4 = Word.encode 4 n :=
    List.take_left' (by simp)
  have d4 (n : Nat) (bs : Bytes) : (Word.encode 4 n ++ bs).drop 4 = bs := List.drop_left' (by simp)
  have d8 (bs : Bytes) : bs.drop 8 = (bs.drop 4).drop 4 := by simp
  rw [ofBytes, d8, List.append_assoc, d4, d4, h4, h4, h4, Word.value_encode hc,
    Word.value_encode hk, Word.value_encode hl]

theorem encode_ofBytes {bs : Bytes} (h : Entry.headerSize ≤ bs.length) :
    (ofBytes bs).keyLength < 2 ^ 32 ∧ (ofBytes bs).lengthField < 2 ^ 32 ∧
      Word.encode 4 (ofBytes bs).check ++ (Word.encode 4 (ofBytes bs).keyLength ++
        Word.encode 4 (ofBytes bs).lengthField ++ bs.drop Entry.headerSize) = bs := by
  rw [Entry.headerSize] at h ⊢
  have hword (cs : Bytes) (hcs : 4 ≤ cs.length) :
      Word.value (cs.take 4) < 2 ^ 32 ∧ Word.encode 4 (Word.value (cs.take 4)) = cs.take 4 := by
    have hfour : (cs.take 4).length = 4 := List.length_take_of_le hcs
    have hlt := Word.value_lt (cs.take 4)
    have hvalue := Word.encode_value (cs.take 4)
    rw [hfour] at hlt hvalue
    exact ⟨hlt, hvalue⟩
  obtain ⟨-, hcheck⟩ := hword bs (by omega)
  obtain ⟨hkeyLt, hkey⟩ := hword (bs.drop 4) (by rw [List.length_drop]; omega)
  obtain ⟨hfieldLt, hfield⟩ := hword (bs.drop 8) (by rw [List.length_drop]; omega)
  refine ⟨hkeyLt, hfieldLt, ?_⟩
  have hfront : (bs.drop 4).take 4 ++ (bs.drop 8).take 4 = (bs.drop 4).take 8 := by
    have hnext : bs.drop 8 = (bs.drop 4).drop 4 := by rw [List.drop_drop]
    rw [hnext, ← List.take_add]
  have hback : bs.drop 12 = (bs.drop 4).drop 8 := by rw [List.drop_drop]
  rw [ofBytes, hcheck, hkey, hfield, hfront, hback, List.take_append_drop, List.take_append_drop]

theorem entry_append {e : Entry} (h : e.Fits) (check : Nat) (rest : Bytes) :
    (RecordHeader.mk check e.key.length e.version.lengthField).entry (e.content ++ rest) = e := by
  obtain ⟨key, version⟩ := e
  have hp := (Entry.fits_iff.mp h).2
  cases version with
  | present row =>
    have hne : row.length ≠ removedMark := Nat.ne_of_lt hp
    simp [entry, rowLength, Entry.content, Version.lengthField, Version.payload, hne]
  | removed => simp [entry, Entry.content, Version.lengthField, Version.payload]

theorem bodyLength_eq {e : Entry} (h : e.Fits) (check : Nat) :
    (RecordHeader.mk check e.key.length e.version.lengthField).bodyLength = e.content.length := by
  obtain ⟨key, version⟩ := e
  have hp := (Entry.fits_iff.mp h).2
  cases version with
  | present row =>
    have hne : row.length ≠ removedMark := Nat.ne_of_lt hp
    simp [bodyLength, rowLength, Entry.content, Version.lengthField, Version.payload, hne]
  | removed => simp [bodyLength, rowLength, Entry.content, Version.lengthField, Version.payload]

theorem lengths_entry {h : RecordHeader} {bs : Bytes} (hle : h.bodyLength ≤ bs.length) :
    (h.entry bs).key.length = h.keyLength ∧ (h.entry bs).version.lengthField = h.lengthField ∧
      (h.entry bs).version.payload.length = h.rowLength ∧
      (h.entry bs).content = bs.take h.bodyLength := by
  rw [bodyLength] at hle ⊢
  have hkey : (bs.take h.keyLength).length = h.keyLength :=
    List.length_take_of_le (Nat.le_trans (Nat.le_add_right _ _) hle)
  have hrow : ((bs.drop h.keyLength).take h.rowLength).length = h.rowLength := by
    rw [List.length_take_of_le]
    rw [List.length_drop]
    omega
  refine ⟨hkey, ?_⟩
  unfold entry
  split
  next hmark =>
    have hzero : h.rowLength = 0 := if_pos hmark
    rw [hzero]
    exact ⟨hmark.symm, rfl, List.append_nil _⟩
  next hmark =>
    have hfield : h.rowLength = h.lengthField := if_neg hmark
    exact ⟨hrow.trans hfield, hrow, (List.take_add).symm⟩

end RecordHeader

namespace Entry

/-- Reading goes by the checksum alone if the lengths are right. -/
theorem read_append {e : Entry} (h : e.Fits) {check : Nat} (hc : check < 256 ^ 4) (offset : Nat)
    (rest : Bytes) :
    read offset (Word.encode 4 check ++ e.body ++ rest) =
      if e.check = check then .ok (e, rest) else .error (.mismatch offset) := by
  have hheader : RecordHeader.ofBytes (Word.encode 4 check ++ e.body ++ rest) =
      ⟨check, e.key.length, e.version.lengthField⟩ := by
    rw [body_eq, List.append_assoc, lengths, List.append_assoc _ e.content]
    exact RecordHeader.ofBytes_append hc (fits_iff.mp h).1 h.lengthField_lt _
  have hdrop : (Word.encode 4 check ++ e.body ++ rest).drop headerSize = e.content ++ rest := by
    rw [body_eq, ← List.append_assoc, List.append_assoc _ e.content]
    exact List.drop_left' (by simp [headerSize])
  have hlen : Bytes.hasAtLeast headerSize (Word.encode 4 check ++ e.body ++ rest) := by
    simp [body_eq, headerSize]
    omega
  have hbody : Bytes.hasAtLeast e.content.length (e.content ++ rest) := by simp
  simp only [read, hheader, hdrop, RecordHeader.bodyLength_eq h, RecordHeader.entry_append h,
    hlen, hbody, Bool.not_true, Bool.false_eq_true, if_false, List.drop_left]

theorem read_encode_append {e : Entry} (h : e.Fits) (offset : Nat) (rest : Bytes) :
    read offset (e.encode ++ rest) = .ok (e, rest) := by
  rw [encode, read_append h e.check_lt, if_pos rfl]

/-- Whatever bytes a record is read from, they begin with the record of its entry. -/
theorem eq_of_read {e : Entry} {offset : Nat} {bs rest : Bytes}
    (h : read offset bs = .ok (e, rest)) : e.Fits ∧ bs = e.encode ++ rest := by
  simp only [read] at h
  split at h
  · cases h
  next hheader =>
    split at h
    · cases h
    next hbody =>
      split at h
      next hcheck =>
        obtain ⟨rfl, rfl⟩ := Prod.mk.inj (Except.ok.inj h)
        obtain ⟨hkeyLt, hfieldLt, hbs⟩ := RecordHeader.encode_ofBytes (by simpa using hheader)
        have hle : (RecordHeader.ofBytes bs).bodyLength ≤ (bs.drop headerSize).length := by
          simpa using hbody
        obtain ⟨hkey, hfield, hpayload, hcontent⟩ := RecordHeader.lengths_entry hle
        refine ⟨fits_iff.mpr ⟨hkey ▸ hkeyLt, ?_⟩, ?_⟩
        · rw [hpayload, RecordHeader.rowLength]
          split
          next => decide
          next hmark =>
            unfold removedMark at hmark ⊢
            omega
        · rw [encode, hcheck, body_eq, lengths, hkey, hfield, hcontent, List.append_assoc,
            List.append_assoc _ (List.take _ _), List.take_append_drop, hbs]
      next => cases h

end Entry

end ChangeBuffer
