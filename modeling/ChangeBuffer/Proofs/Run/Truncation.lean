import ChangeBuffer.Proofs.Run.Burst

/-! # Truncated runs

The file of a run may lose its end.  What is left is a whole file again if it ends behind the header
or behind a record, and then a scan takes it for one.  Anywhere else the scan comes to the cut and
reports it.
-/

namespace ChangeBuffer

theorem Bytes.hasAtLeast_eq_false_iff {n : Nat} {bs : Bytes} :
    hasAtLeast n bs = false ↔ bs.length < n := by
  rw [← Bool.not_eq_true, hasAtLeast_iff, Nat.not_le]

/-- A record of which the end is missing is not read. -/
theorem Entry.exists_read_of_cut {e : Entry} (h : e.Fits) {part : Bytes} (hp : part <+: e.encode)
    (hlt : part.length < e.encode.length) (offset : Nat) :
    ∃ damage, read offset part = .error damage := by
  by_cases hlen : headerSize ≤ part.length
  · -- The header is there, and the key and the row that it declares are longer than what follows.
    have hheader : (Word.encode 4 e.check ++ e.lengths).length = headerSize := by
      simp [headerSize]
    have hp' : part <+: (Word.encode 4 e.check ++ e.lengths) ++ e.content := by
      simpa [encode, body_eq] using hp
    obtain ⟨content, rfl⟩ : Word.encode 4 e.check ++ e.lengths <+: part :=
      List.prefix_of_prefix_length_le (List.prefix_append ..) hp' (by omega)
    have hshort : content.length < e.content.length := by
      rw [length_encode, List.length_append, hheader] at hlt
      simp only [size, Entry.content, List.length_append] at hlt ⊢
      omega
    have hofBytes : RecordHeader.ofBytes ((Word.encode 4 e.check ++ e.lengths) ++ content) =
        ⟨e.check, e.key.length, e.version.lengthField⟩ := by
      rw [lengths, List.append_assoc]
      exact RecordHeader.ofBytes_append e.check_lt (fits_iff.mp h).1 h.lengthField_lt content
    have hdrop : ((Word.encode 4 e.check ++ e.lengths) ++ content).drop headerSize = content :=
      List.drop_left' hheader
    have hbody := Bytes.hasAtLeast_eq_false_iff.mpr hshort
    simp only [read, hofBytes, hdrop, RecordHeader.bodyLength_eq h, hbody, Bool.not_false, if_true]
    split <;> exact ⟨_, rfl⟩
  · have hfew := Bytes.hasAtLeast_eq_false_iff.mpr (Nat.not_le.mp hlen)
    exact ⟨.truncated offset, by simp [read, hfew]⟩

namespace Run

theorem exists_of_prefix_records {es : List Entry} {bs : Bytes} (h : bs <+: es.flatMap Entry.encode) :
    ∃ ds part, ds <+: es ∧ bs = ds.flatMap Entry.encode ++ part ∧
      (part = [] ∨ ∃ e ∈ es, part ≠ [] ∧ part <+: e.encode ∧ part.length < e.encode.length) := by
  induction es generalizing bs with
  | nil => exact ⟨[], bs, List.nil_prefix, rfl, Or.inl (List.prefix_nil.mp h)⟩
  | cons e es ih =>
    rw [List.flatMap_cons] at h
    by_cases hlt : bs.length < e.encode.length
    · refine ⟨[], bs, List.nil_prefix, rfl, ?_⟩
      by_cases hne : bs = []
      · exact Or.inl hne
      · have hp : bs <+: e.encode :=
          List.prefix_of_prefix_length_le h (List.prefix_append ..) (Nat.le_of_lt hlt)
        exact Or.inr ⟨e, List.mem_cons_self, hne, hp, hlt⟩
    · obtain ⟨bs, rfl⟩ : e.encode <+: bs :=
        List.prefix_of_prefix_length_le (List.prefix_append ..) h (Nat.not_lt.mp hlt)
      obtain ⟨ds, part, hds, rfl, hpart⟩ := ih ((List.prefix_append_right_inj _).mp h)
      refine ⟨e :: ds, part, List.cons_prefix_cons.mpr ⟨rfl, hds⟩, by simp, ?_⟩
      exact hpart.imp_right fun ⟨d, hd, hcut⟩ => ⟨d, List.mem_cons_of_mem _ hd, hcut⟩

/-- The bytes are a header and whole records. -/
def Whole (content : Bytes) : Prop := ∃ es : List Entry, (∀ e ∈ es, e.Fits) ∧ content = file es

theorem not_whole_of_cut {ds : List Entry} (hds : ∀ e ∈ ds, e.Fits) {part : Bytes}
    (hne : part ≠ []) (hcut : ∀ offset, ∃ damage, Entry.read offset part = .error damage) :
    ¬ Whole (header ++ (ds.flatMap Entry.encode ++ part)) := by
  rintro ⟨es, hes, heq⟩
  have hread : readFrom [] 0 (ds.flatMap Entry.encode ++ part) = _ :=
    readFrom_append hds (fun e _ => Or.inr e.key.nil_prefix) part
  obtain ⟨damage, hdamage⟩ := hcut (0 + (ds.map Entry.size).sum)
  rw [readFrom_error hne hdamage, List.append_cancel_left heq, readFrom_all hes] at hread
  have hmem : Except.error damage ∈ es.map (Except.ok (ε := Damage)) := hread ▸ by simp
  simp at hmem

variable {r : Run} {es : List Entry} {folder : Folder}

theorem Describes.seek_nil (h : r.Describes es) : r.seek [] = header.length := by
  obtain ⟨before, after, -, hbefore, hseek⟩ := h.exists_seek []
  have hnil : before = [] := List.eq_nil_iff_forall_not_mem.mpr fun e he => by
    simpa using hbefore e he
  simpa [hnil] using hseek

theorem Describes.scan_file (h : r.Describes es) {ds : List Entry} (hds : ds <+: es)
    (hfile : folder.find? r.name = some (.file (file ds))) (path : String) :
    r.scan folder path [] = .ok (ds.map .ok) := by
  have hdrop : (header ++ ds.flatMap Entry.encode).drop header.length = ds.flatMap Entry.encode :=
    List.drop_left
  rw [scan_header_append hfile, h.seek_nil, hdrop,
    readFrom_file (fun e he => h.fits e (hds.subset he))
      (List.Pairwise.sublist hds.sublist h.ascending), matching_nil_stem, map_mapError_ok]

/-- A scan of what is left of a run's file gives the entries of its whole records, and reports the
cut unless it lies behind one of them. -/
theorem Describes.scan_truncated (h : r.Describes es) {n : Nat} (hn : n < (file es).length)
    (hfile : folder.find? r.name = some (.file ((file es).take n))) (path : String) :
    (∃ ds, ds <+: es ∧ (file es).take n = file ds ∧ r.scan folder path [] = .ok (ds.map .ok)) ∨
      ¬ Whole ((file es).take n) ∧
        ((∃ e, r.scan folder path [] = .error e) ∨
          ∃ ds damage, ds <+: es ∧
            r.scan folder path [] = .ok (ds.map .ok ++ [.error (.corrupted path damage)])) := by
  by_cases hheader : n < header.length
  · right
    have hshort : ((file es).take n).length < header.length := by
      rw [List.length_take]
      omega
    refine ⟨?_, Or.inl ⟨.corrupted path (.unreadableHeader .short), ?_⟩⟩
    · rintro ⟨ds, -, heq⟩
      rw [heq, file, List.length_append] at hshort
      omega
    · simp only [scan, hfile, headerDamage?, if_pos hshort]
  · obtain ⟨bs, hbs, hp⟩ : ∃ bs, (file es).take n = header ++ bs ∧ bs <+: es.flatMap Entry.encode := by
      refine ⟨(es.flatMap Entry.encode).take (n - header.length), ?_, List.take_prefix ..⟩
      rw [file, List.take_append, List.take_of_length_le (by omega)]
    obtain ⟨ds, part, hds, rfl, hpart⟩ := exists_of_prefix_records hp
    have hfits : ∀ e ∈ ds, e.Fits := fun e he => h.fits e (hds.subset he)
    have hdrop : (header ++ (ds.flatMap Entry.encode ++ part)).drop header.length =
        ds.flatMap Entry.encode ++ part := List.drop_left
    rw [hbs] at hfile ⊢
    rcases hpart with rfl | ⟨e, he, hne, hcut, hlt⟩
    · left
      rw [List.append_nil] at hfile ⊢
      exact ⟨ds, hds, rfl, h.scan_file hds hfile path⟩
    · right
      have hcut := Entry.exists_read_of_cut (h.fits e he) hcut hlt
      obtain ⟨damage, hdamage⟩ := hcut (header.length + (ds.map Entry.size).sum)
      refine ⟨not_whole_of_cut hfits hne hcut, Or.inr ⟨ds, damage, hds, ?_⟩⟩
      rw [scan_header_append hfile, h.seek_nil, hdrop,
        readFrom_append hfits (fun e _ => Or.inr e.key.nil_prefix), matching_nil_stem,
        List.map_append, map_mapError_ok, readFrom_error hne hdamage]
      rfl

end Run

end ChangeBuffer
