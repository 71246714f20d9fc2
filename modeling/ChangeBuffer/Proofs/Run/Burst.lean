import ChangeBuffer.Proofs.Run.Scan

/-! # Bursts in runs

A burst changes bytes of one record within four in a row, in the checksum or in the key and the
row.  A reader that comes to the record reports a mismatch there, and a reader that does not come
to it gives what it gives without the burst.
-/

namespace ChangeBuffer

/-- `damaged` is the record with a change of bytes within four in a row.  They are all in the
checksum or all behind the lengths. -/
def Entry.Burst (record damaged : Bytes) : Prop :=
  ∃ front old new back, record = front ++ old ++ back ∧ damaged = front ++ new ++ back ∧
    new.length = old.length ∧ old.length ≤ 4 ∧ new ≠ old ∧
    (front.length + old.length ≤ 4 ∨ Entry.headerSize ≤ front.length)

/-- `damaged` is the file of a run with a burst in one of its records. -/
def Run.Burst (content damaged : Bytes) : Prop :=
  ∃ before e after record, (∀ d ∈ before ++ e :: after, d.Fits) ∧
    content = file (before ++ e :: after) ∧ Entry.Burst e.encode record ∧
    damaged = header ++ (before.flatMap Entry.encode ++ (record ++ after.flatMap Entry.encode))

namespace Entry

theorem Burst.length_eq {record damaged : Bytes} (h : Burst record damaged) :
    damaged.length = record.length := by
  obtain ⟨front, old, new, back, rfl, rfl, hlen, -⟩ := h
  simp [hlen]

theorem exists_content {e : Entry} (h : e.Fits) {bs : Bytes} (hlen : bs.length = e.content.length) :
    ∃ d : Entry, d.Fits ∧ d.lengths = e.lengths ∧ d.content = bs := by
  obtain ⟨key, version⟩ := e
  have hkey : (bs.take key.length).length = key.length := by
    simp only [content, List.length_append] at hlen
    rw [List.length_take]
    omega
  cases version with
  | present row =>
    have hrow : (bs.drop key.length).length = row.length := by
      rw [List.length_drop, hlen]
      simp [content, Version.payload]
    refine ⟨⟨bs.take key.length, .present (bs.drop key.length)⟩, ?_, ?_, ?_⟩
    · rw [fits_iff] at h ⊢
      simpa only [hkey, Version.payload, hrow] using h
    · simp only [lengths, hkey, Version.lengthField, hrow]
    · exact List.take_append_drop ..
  | removed =>
    have hall : bs.take key.length = bs := by
      apply List.take_of_length_le
      simp [hlen, content, Version.payload]
    refine ⟨⟨bs.take key.length, .removed⟩, ?_, ?_, ?_⟩
    · rw [fits_iff] at h ⊢
      simpa only [hkey, Version.payload] using h
    · simp only [lengths, hkey]
    · simpa [content, Version.payload] using hall

variable {e : Entry}

theorem read_of_check_burst (h : e.Fits) {front old new back : Bytes}
    (hrecord : e.encode = front ++ old ++ back) (hlen : new.length = old.length)
    (hsize : front.length + old.length ≤ 4) (hne : new ≠ old) (offset : Nat) (rest : Bytes) :
    read offset (front ++ new ++ back ++ rest) = .error (.mismatch offset) := by
  obtain ⟨back', rfl, hcheck⟩ : ∃ back', back = back' ++ e.body ∧
      front ++ old ++ back' = Word.encode 4 e.check := by
    rw [encode] at hrecord
    rcases List.append_eq_append_iff.mp hrecord with ⟨back', hc, hb⟩ | ⟨back', hc, hb⟩
    · have := congrArg List.length hc
      obtain rfl : back' = [] := List.eq_nil_of_length_eq_zero (by simp at this; omega)
      exact ⟨[], by simpa using hb.symm, by simpa using hc⟩
    · exact ⟨back', hb, hc.symm⟩
  have hfour : (front ++ new ++ back').length = 4 := by
    have := congrArg List.length hcheck
    simpa [hlen] using this
  have hword : Word.encode 4 (Word.value (front ++ new ++ back')) = front ++ new ++ back' := by
    rw [← hfour, Word.encode_value]
  have hlt : Word.value (front ++ new ++ back') < 256 ^ 4 := hfour ▸ Word.value_lt _
  have hmismatch : e.check ≠ Word.value (front ++ new ++ back') := by
    intro hc
    rw [hc, hword] at hcheck
    exact hne (by simpa using hcheck.symm)
  have hread := read_append h hlt offset rest
  rw [hword, if_neg hmismatch] at hread
  simpa using hread

theorem read_of_content_burst (h : e.Fits) {front old new back : Bytes}
    (hrecord : e.encode = front ++ old ++ back) (hlen : new.length = old.length)
    (hsize : old.length ≤ 4) (hfront : headerSize ≤ front.length) (hne : new ≠ old) (offset : Nat)
    (rest : Bytes) :
    read offset (front ++ new ++ back ++ rest) = .error (.mismatch offset) := by
  obtain ⟨front', rfl, hcontent⟩ : ∃ front', front = Word.encode 4 e.check ++ e.lengths ++ front' ∧
      e.content = front' ++ old ++ back := by
    have hrecord : Word.encode 4 e.check ++ e.lengths ++ e.content = front ++ (old ++ back) := by
      simpa [encode, body_eq] using hrecord
    rcases List.append_eq_append_iff.mp hrecord with ⟨front', hf, hc⟩ | ⟨front', hf, hc⟩
    · exact ⟨front', hf, by simpa using hc⟩
    · have := congrArg List.length hf
      simp [headerSize] at this hfront
      obtain rfl : front' = [] := List.eq_nil_of_length_eq_zero (by omega)
      exact ⟨[], by simpa using hf.symm, by simpa using hc.symm⟩
  have hsame : (front' ++ new ++ back).length = e.content.length := by simp [hcontent, hlen]
  obtain ⟨d, hd, hlengths, hbytes⟩ := exists_content h hsame
  have hmismatch : d.check ≠ e.check := by
    intro hc
    have hc := UInt32.toNat_inj.mp hc
    rw [body_eq, body_eq, hlengths, hbytes, hcontent, ← List.append_assoc, ← List.append_assoc,
      ← List.append_assoc, ← List.append_assoc] at hc
    exact Crc32.checksum_ne_of_burst hlen hsize hne hc
  have hread := read_append hd e.check_lt offset rest
  rw [if_neg hmismatch, body_eq, hlengths, hbytes] at hread
  simpa using hread

theorem read_of_burst (h : e.Fits) {record : Bytes} (hb : Burst e.encode record) (offset : Nat)
    (rest : Bytes) : read offset (record ++ rest) = .error (.mismatch offset) := by
  obtain ⟨front, old, new, back, hrecord, rfl, hlen, hsize, hne, hplace⟩ := hb
  rcases hplace with hfront | hfront
  · exact read_of_check_burst h hrecord hlen hfront hne offset rest
  · exact read_of_content_burst h hrecord hlen hsize hfront hne offset rest

end Entry

namespace Run

theorem readFrom_all {es : List Entry} (h : ∀ e ∈ es, e.Fits) :
    readFrom [] 0 (es.flatMap Entry.encode) = es.map .ok := by
  have hread : readFrom [] 0 (es.flatMap Entry.encode ++ []) = _ :=
    readFrom_append h (fun e _ => Or.inr e.key.nil_prefix) []
  rwa [matching_nil_stem, readFrom_nil, List.append_nil, List.append_nil] at hread

theorem file_inj {es ds : List Entry} (hes : ∀ e ∈ es, e.Fits) (hds : ∀ e ∈ ds, e.Fits)
    (h : file es = file ds) : es = ds := by
  have hread := readFrom_all hes
  rw [List.append_cancel_left h, readFrom_all hds] at hread
  exact ((List.map_inj_right fun _ _ => Except.ok.inj).mp hread).symm

theorem matching_append_of_exists {stem : Bytes} {es ds : List Entry} (ha : Ascending (es ++ ds))
    (hs : ∃ e ∈ es, ¬ e.key < stem ∧ ¬ stem <+: e.key) :
    matching stem (es ++ ds) = matching stem es := by
  obtain ⟨e, he, hlt, hp⟩ := hs
  have hnone : matching stem ds = [] := by
    apply matching_eq_nil
    intro d hd hp'
    exact hp (Bytes.prefix_of_between hlt (ha.lt he hd) hp')
  rw [matching_append, hnone, List.append_nil]

/-- A reader that may come to a record with a burst ends in front of it or reports it. -/
theorem readFrom_of_burst {es after : List Entry} {e : Entry} {record : Bytes}
    (hf : ∀ d ∈ es, d.Fits) (he : e.Fits) (ha : Ascending (es ++ e :: after))
    (hb : Entry.Burst e.encode record) (stem : Bytes) (offset : Nat) :
    stem ≠ [] ∧
        readFrom stem offset
          (es.flatMap Entry.encode ++ (record ++ after.flatMap Entry.encode)) =
          (matching stem (es ++ e :: after)).map .ok ∨
      ∃ front place, front <+: matching stem (es ++ e :: after) ∧
        readFrom stem offset
          (es.flatMap Entry.encode ++ (record ++ after.flatMap Entry.encode)) =
          front.map .ok ++ [.error (.mismatch place)] := by
  by_cases hs : ∃ e ∈ es, ¬ e.key < stem ∧ ¬ stem <+: e.key
  · left
    rw [readFrom_append_of_exists hf ha.left hs,
      matching_append_of_exists ha hs]
    obtain ⟨d, -, -, hp⟩ := hs
    exact ⟨fun hnil => hp (hnil ▸ List.nil_prefix), rfl⟩
  · right
    have hs : ∀ d ∈ es, d.key < stem ∨ stem <+: d.key := by
      intro d hd
      by_cases hlt : d.key < stem
      · exact Or.inl hlt
      · exact Or.inr (Decidable.not_not.mp fun hp => hs ⟨d, hd, hlt, hp⟩)
    have hne : record ++ after.flatMap Entry.encode ≠ [] := by
      intro hnil
      have hlen := hb.length_eq
      rw [(List.append_eq_nil_iff.mp hnil).1, Entry.length_encode] at hlen
      simp [Entry.size, Entry.headerSize] at hlen
      omega
    refine ⟨matching stem es, offset + (es.map Entry.size).sum, ?_, ?_⟩
    · rw [matching_append]
      exact List.prefix_append ..
    · rw [readFrom_append hf hs, readFrom_error hne (Entry.read_of_burst he hb _ _)]

variable {r : Run} {es : List Entry}

/-- A scan of a run with a burst misses the damaged record, or gives entries in front of it and
then the damage.  Without a stem it does not miss the record. -/
theorem Describes.scan_of_burst (h : r.Describes es) {folder : Folder} {damaged : Bytes}
    (hb : Burst (file es) damaged) (hfile : folder.find? r.name = some (.file damaged))
    (path : String) (stem : Bytes) :
    stem ≠ [] ∧ r.scan folder path stem = .ok ((matching stem es).map .ok) ∨
      ∃ front offset, front <+: matching stem es ∧ r.scan folder path stem =
        .ok (front.map .ok ++ [.error (.corrupted path (.mismatch offset))]) := by
  obtain ⟨before, e, after, record, hfits, hcontent, hrecord, rfl⟩ := hb
  obtain rfl : es = before ++ e :: after := file_inj h.fits hfits hcontent
  obtain ⟨skipped, read, hsplit, hskipped, hseek⟩ := h.exists_seek stem
  have hnone : matching stem skipped = [] :=
    matching_eq_nil fun d hd => Bytes.not_prefix_of_lt (hskipped d hd)
  have hmatching : matching stem (before ++ e :: after) = matching stem read := by
    rw [hsplit, matching_append, hnone, List.nil_append]
  have hascending : Ascending read := (hsplit ▸ h.ascending).right
  rw [scan_header_append hfile, hseek, hmatching]
  have hcases : (∃ passed, before = skipped ++ passed ∧ read = passed ++ e :: after) ∨
      ∃ passed, skipped = before ++ e :: passed ∧ after = passed ++ read := by
    rcases List.append_eq_append_iff.mp hsplit with ⟨passed, rfl, hread⟩ | ⟨passed, hb, hr⟩
    · cases passed with
      | nil => exact Or.inl ⟨[], by simp, by simpa using hread.symm⟩
      | cons d passed =>
        obtain ⟨rfl, rfl⟩ := List.cons.inj hread
        exact Or.inr ⟨passed, rfl, rfl⟩
    · exact Or.inl ⟨passed, hb, hr⟩
  rcases hcases with ⟨passed, rfl, rfl⟩ | ⟨passed, rfl, rfl⟩
  · rw [List.flatMap_append, List.append_assoc, drop_file]
    rcases readFrom_of_burst (fun d hd => hfits d (by simp [hd])) (hfits e (by simp)) hascending
      hrecord stem (header.length + (skipped.map Entry.size).sum) with
      ⟨hne, hr⟩ | ⟨front, place, hp, hr⟩
    · exact Or.inl ⟨hne, by rw [hr, map_mapError_ok]⟩
    · exact Or.inr ⟨front, place, hp, by rw [hr, List.map_append, map_mapError_ok]; rfl⟩
  · left
    have hne : stem ≠ [] := by
      intro hnil
      have := hskipped e (by simp)
      simp [hnil] at this
    have hdrop : (header ++ (before.flatMap Entry.encode ++
        (record ++ (passed ++ read).flatMap Entry.encode))).drop
          (header.length + ((before ++ e :: passed).map Entry.size).sum) =
        read.flatMap Entry.encode := by
      rw [List.flatMap_append, ← List.append_assoc, ← List.append_assoc, ← List.append_assoc]
      apply List.drop_left'
      simp [hrecord.length_eq, Entry.length_encode]
    rw [hdrop, readFrom_file (fun d hd => hfits d (by simp [hd])) hascending]
    exact ⟨hne, by rw [map_mapError_ok]⟩

end Run

end ChangeBuffer
