import ChangeBuffer.Proofs.Run.Layers
import ChangeBuffer.Proofs.Run.Record
import ChangeBuffer.Run.Reader

/-! # Scans of runs

A scan of a run gives the entries whose keys begin with the given bytes, whichever records are
indexed.  If one record is damaged by a burst, the scan either ends before the damage or stands
behind it from the beginning, or it gives what stands in front of the damage and reports it.
-/

namespace ChangeBuffer

namespace Run

def file (es : List Entry) : Bytes := header ++ es.flatMap Entry.encode

theorem length_flatMap_encode (es : List Entry) :
    (es.flatMap Entry.encode).length = (es.map Entry.size).sum := by
  induction es with
  | nil => rfl
  | cons e es ih => simp [Entry.length_encode, ih]

section ReadFrom

variable {stem : Bytes} {es : List Entry} {offset : Nat}

theorem readFrom_nil : readFrom stem offset [] = [] := by rw [readFrom]; rfl

theorem readFrom_encode {e : Entry} (h : e.Fits) (rest : Bytes) :
    readFrom stem offset (e.encode ++ rest) =
      if e.key < stem then readFrom stem (offset + e.size) rest
      else if stem.isPrefixOf e.key then .ok e :: readFrom stem (offset + e.size) rest
      else [] := by
  have hne : (e.encode ++ rest).isEmpty = false := by
    have hlen := e.length_encode
    cases he : e.encode with
    | nil => simp [he, Entry.size, Entry.headerSize] at hlen; omega
    | cons b bs => rfl
  rw [readFrom, hne, if_neg Bool.false_ne_true]
  split
  next damage hr => simp [Entry.read_encode_append h] at hr
  next d rest' hr =>
    obtain ⟨rfl, rfl⟩ : e = d ∧ rest = rest' := by simpa [Entry.read_encode_append h] using hr
    rfl

theorem readFrom_error {damage : Damage} {bs : Bytes} (hne : bs ≠ [])
    (h : Entry.read offset bs = .error damage) : readFrom stem offset bs = [.error damage] := by
  rw [readFrom, if_neg (by simpa using hne)]
  split
  next damage' hr => simpa [hr] using h
  next e rest hr => simp [hr] at h

theorem readFrom_append (hf : ∀ e ∈ es, e.Fits) (hs : ∀ e ∈ es, e.key < stem ∨ stem <+: e.key)
    (rest : Bytes) :
    readFrom stem offset (es.flatMap Entry.encode ++ rest) =
      (matching stem es).map .ok ++ readFrom stem (offset + (es.map Entry.size).sum) rest := by
  induction es generalizing offset with
  | nil => simp [matching]
  | cons e es ih =>
    have ih (offset : Nat) := @ih offset (fun d hd => hf d (List.mem_cons_of_mem _ hd))
      (fun d hd => hs d (List.mem_cons_of_mem _ hd))
    rw [List.flatMap_cons, List.append_assoc, readFrom_encode (hf e List.mem_cons_self), ih,
      List.map_cons, List.sum_cons, Nat.add_assoc]
    rcases hs e List.mem_cons_self with hlt | hp
    · have hp := Bytes.not_prefix_of_lt hlt
      simp [hlt, matching, hp]
    · have hlt : ¬ e.key < stem := fun hlt => Bytes.not_prefix_of_lt hlt hp
      simp [hlt, matching, hp]

theorem readFrom_append_of_exists (hf : ∀ e ∈ es, e.Fits) (ha : Ascending es)
    (hs : ∃ e ∈ es, ¬ e.key < stem ∧ ¬ stem <+: e.key) (rest : Bytes) :
    readFrom stem offset (es.flatMap Entry.encode ++ rest) = (matching stem es).map .ok := by
  induction es generalizing offset with
  | nil => simp at hs
  | cons e es ih =>
    obtain ⟨hlast, ha⟩ := List.pairwise_cons.mp ha
    rw [List.flatMap_cons, List.append_assoc, readFrom_encode (hf e List.mem_cons_self)]
    by_cases he : e.key < stem ∨ stem <+: e.key
    · have hs : ∃ e ∈ es, ¬ e.key < stem ∧ ¬ stem <+: e.key := by
        obtain ⟨d, hd, hds⟩ := hs
        rcases List.mem_cons.mp hd with rfl | hd
        · exact absurd he (not_or.mpr hds)
        · exact ⟨d, hd, hds⟩
      rw [ih (fun d hd => hf d (List.mem_cons_of_mem _ hd)) ha hs]
      rcases he with hlt | hp
      · have hp := Bytes.not_prefix_of_lt hlt
        simp [hlt, matching, hp]
      · have hlt : ¬ e.key < stem := fun hlt => Bytes.not_prefix_of_lt hlt hp
        simp [hlt, matching, hp]
    · obtain ⟨hlt, hp⟩ := not_or.mp he
      have hnone : matching stem (e :: es) = [] := by
        apply matching_eq_nil
        intro d hd
        rcases List.mem_cons.mp hd with rfl | hd
        · exact hp
        · exact fun hp' => hp (Bytes.prefix_of_between hlt (hlast d hd) hp')
      simp [hlt, hp, hnone]

theorem readFrom_file (hf : ∀ e ∈ es, e.Fits) (ha : Ascending es) :
    readFrom stem offset (es.flatMap Entry.encode) = (matching stem es).map .ok := by
  rw [← List.append_nil (es.flatMap _)]
  by_cases hs : ∃ e ∈ es, ¬ e.key < stem ∧ ¬ stem <+: e.key
  · exact readFrom_append_of_exists hf ha hs []
  · have hs : ∀ e ∈ es, e.key < stem ∨ stem <+: e.key := by
      intro e he
      by_cases hlt : e.key < stem
      · exact Or.inl hlt
      · by_cases hp : stem <+: e.key
        · exact Or.inr hp
        · exact absurd ⟨e, he, hlt, hp⟩ hs
    rw [readFrom_append hf hs, readFrom_nil, List.append_nil]

end ReadFrom

theorem exists_of_mem_indexFrom {interval position offset : Nat} {es : List Entry} {key : Bytes}
    {start : Nat} (h : (key, start) ∈ indexFrom interval position offset es) :
    ∃ before e after, es = before ++ e :: after ∧ key = e.key ∧
      start = offset + (before.map Entry.size).sum := by
  induction es generalizing position offset with
  | nil => simp [indexFrom] at h
  | cons e es ih =>
    have hrest (h : (key, start) ∈ indexFrom interval (position + 1) (offset + e.size) es) :
        ∃ before d after, e :: es = before ++ d :: after ∧ key = d.key ∧
          start = offset + (before.map Entry.size).sum := by
      obtain ⟨before, d, after, rfl, hk, hs⟩ := ih h
      exact ⟨e :: before, d, after, rfl, hk, by simp [hs, Nat.add_assoc]⟩
    rw [indexFrom] at h
    split at h
    · rcases List.mem_cons.mp h with he | h
      · obtain ⟨rfl, rfl⟩ := Prod.mk.inj he
        exact ⟨[], e, es, rfl, rfl, by simp⟩
      · exact hrest h
    · exact hrest h

/-- What a run says of the entries in its file. -/
structure Describes (r : Run) (es : List Entry) : Prop where
  index : ∃ interval, r.index = indexFrom interval 0 header.length es
  count : r.entries = es.length
  size : r.size = (file es).length
  ascending : Ascending es
  fits : ∀ e ∈ es, e.Fits

variable {r : Run} {es : List Entry}

/-- A search begins at a record in front of which every key is too small. -/
theorem Describes.exists_seek (h : r.Describes es) (stem : Bytes) :
    ∃ before after, es = before ++ after ∧ (∀ e ∈ before, e.key < stem) ∧
      r.seek stem = header.length + (before.map Entry.size).sum := by
  unfold seek
  split
  next key start hlast =>
    obtain ⟨interval, hindex⟩ := h.index
    have hmem := List.mem_of_getLast? hlast
    have hkey : ¬ stem < key := by
      simpa using List.all_eq_true.mp List.all_takeWhile _ hmem
    have hmem := (List.takeWhile_sublist _).mem hmem
    rw [hindex] at hmem
    obtain ⟨before, e, after, rfl, rfl, hstart⟩ := exists_of_mem_indexFrom hmem
    refine ⟨before, e :: after, rfl, fun d hd => ?_, hstart⟩
    have hlt := h.ascending.lt hd List.mem_cons_self
    exact Std.lt_of_lt_of_le hlt (Std.not_lt.mp hkey)
  next => exact ⟨[], es, rfl, by simp, by simp⟩

theorem headerDamage?_header_append (bs : Bytes) : headerDamage? (header ++ bs) = none := by
  have hlen : ¬ (header ++ bs).length < header.length := by simp
  have hmagic : (header ++ bs).take 4 = magic := by
    rw [List.take_append_of_le_length (by decide)]
    rfl
  have hversion : ((header ++ bs).drop 4).take 2 = Word.encode 2 formatVersion := by
    rw [List.drop_append_of_le_length (by decide), List.take_append_of_le_length (by decide)]
    rfl
  rw [headerDamage?, if_neg hlen, hmagic, if_neg (by simp), hversion,
    Word.value_encode (by decide), if_neg (by simp)]

theorem map_mapError_ok (es : List Entry) (f : Damage → StoreError) :
    ((es.map .ok).map fun item : Except Damage Entry => item.mapError f) = es.map .ok := by
  rw [List.map_map]
  rfl

theorem scan_header_append {folder : Folder} {bs : Bytes}
    (hfile : folder.find? r.name = some (.file (header ++ bs))) (path : String) (stem : Bytes) :
    r.scan folder path stem =
      .ok ((readFrom stem (r.seek stem) ((header ++ bs).drop (r.seek stem))).map
        fun item => item.mapError (StoreError.corrupted path)) := by
  simp only [scan, hfile, headerDamage?_header_append]

theorem drop_file (before : List Entry) (bs : Bytes) :
    (header ++ (before.flatMap Entry.encode ++ bs)).drop
      (header.length + (before.map Entry.size).sum) = bs := by
  rw [← List.append_assoc]
  exact List.drop_left' (by rw [List.length_append, length_flatMap_encode])

/-- A scan of an intact run gives the entries whose keys begin with the stem. -/
theorem Describes.scan_eq (h : r.Describes es) {folder : Folder}
    (hfile : folder.find? r.name = some (.file (file es))) (path : String) (stem : Bytes) :
    r.scan folder path stem = .ok ((matching stem es).map .ok) := by
  obtain ⟨before, after, rfl, hbefore, hseek⟩ := h.exists_seek stem
  have hfits : ∀ e ∈ after, e.Fits := fun e he => h.fits e (List.mem_append_right _ he)
  have hbefore : matching stem before = [] :=
    matching_eq_nil fun e he => Bytes.not_prefix_of_lt (hbefore e he)
  rw [scan_header_append hfile, hseek, List.flatMap_append, drop_file,
    readFrom_file hfits h.ascending.right, matching_append, hbefore, map_mapError_ok,
    List.nil_append]

end Run

end ChangeBuffer
