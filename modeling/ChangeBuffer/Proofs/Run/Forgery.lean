import ChangeBuffer.Proofs.Run.Merge
import ChangeBuffer.Proofs.Run.Scan
import Mathlib.Algebra.Order.BigOperators.Group.List
import Mathlib.Algebra.Order.Group.Nat

/-! # Runs of any bytes

Whatever bytes the file of a run holds, a scan gives entries of whole records that stand in the file
behind each other, and perhaps one damage behind them.  Such entries need not be in order, and a
merge of them still ends: each of its rows is an entry of a source, and each entry makes one row at
most.
-/

namespace ChangeBuffer

/-! ## Records -/

namespace Run

variable {stem content : Bytes} {path : String} {folder : Folder} {r : Run}
  {source : Merge.Source StoreError}

theorem headerSize_mul_length_le (es : List Entry) :
    Entry.headerSize * es.length ≤ (es.flatMap Entry.encode).length := by
  rw [length_flatMap_encode]
  induction es with
  | nil => exact Nat.zero_le _
  | cons e es ih =>
    rw [List.length_cons, List.map_cons, List.sum_cons, Entry.size, Nat.mul_succ]
    omega

theorem encode_infix_flatMap {es : List Entry} {e : Entry} (he : e ∈ es) :
    e.encode <:+: es.flatMap Entry.encode := by
  obtain ⟨front, back, rfl⟩ := List.append_of_mem he
  rw [List.flatMap_append, List.flatMap_cons, ← List.append_assoc]
  exact List.infix_append _ _ _

theorem exists_records (stem : Bytes) (offset : Nat) (bs : Bytes) :
    ∃ es rest, bs = es.flatMap Entry.encode ++ rest ∧ (∀ e ∈ es, e.Fits) ∧
      ∃ damage : Option Damage,
        readFrom stem offset bs = (matching stem es).map .ok ++ damage.toList.map .error := by
  fun_induction readFrom stem offset bs with
  | case1 offset bs h => exact ⟨[], bs, rfl, List.forall_mem_nil _, none, rfl⟩
  | case2 offset bs h damage hread => exact ⟨[], bs, rfl, List.forall_mem_nil _, some damage, rfl⟩
  | case3 offset bs h e rest hread hlt ih =>
    obtain ⟨es, rest', rfl, hfits, damage, heq⟩ := ih
    obtain ⟨hfit, rfl⟩ := Entry.eq_of_read hread
    have hbehind : matching stem (e :: es) = matching stem es :=
      List.filter_cons_of_neg (by simpa using Bytes.not_prefix_of_lt hlt)
    refine ⟨e :: es, rest', ?_, List.forall_mem_cons.mpr ⟨hfit, hfits⟩, damage, ?_⟩
    · rw [List.flatMap_cons, List.append_assoc]
    · rw [heq, hbehind]
  | case4 offset bs h e rest hread hlt hmatch ih =>
    obtain ⟨es, rest', rfl, hfits, damage, heq⟩ := ih
    obtain ⟨hfit, rfl⟩ := Entry.eq_of_read hread
    have hfront : matching stem (e :: es) = e :: matching stem es := List.filter_cons_of_pos hmatch
    refine ⟨e :: es, rest', ?_, List.forall_mem_cons.mpr ⟨hfit, hfits⟩, damage, ?_⟩
    · rw [List.flatMap_cons, List.append_assoc]
    · rw [heq, hfront, List.map_cons, List.cons_append]
  | case5 offset bs h e rest hread hlt hmatch =>
    exact ⟨[], bs, rfl, List.forall_mem_nil _, none, rfl⟩

/-- What a scan may give of a file of any content: matching entries of whole records of the file, no
more than there is room for, and damage. -/
structure Extracts (path : String) (stem content : Bytes) (source : Merge.Source StoreError) :
    Prop where
  length_le : source.entries.length ≤ content.length / Entry.headerSize
  whole : ∀ e ∈ source.entries, stem <+: e.key ∧ e.Fits ∧ e.encode <:+: content
  damage : ∀ e, source.failure? = some e → ∃ damage, e = .corrupted path damage

theorem exists_extracts_of_scan (h : r.scan folder path stem = .ok source) :
    ∃ content, folder.find? r.name = some (.file content) ∧ Extracts path stem content source := by
  unfold scan at h
  split at h
  · cases h
  · cases h
  next content hfile =>
    split at h
    · cases h
    next =>
      obtain ⟨es, rest, hcontent, hfits, damage, hread⟩ :=
        exists_records stem (r.seek stem) (content.drop (r.seek stem))
      have hsource : source = (matching stem es).map .ok ++
          (damage.map (StoreError.corrupted path)).toList.map .error := by
        rw [← Except.ok.inj h, hread, List.map_append, map_mapError_ok]
        cases damage <;> rfl
      have hentries : source.entries = matching stem es := by
        rw [hsource, Merge.entries_append_error]
      refine ⟨content, hfile, ?_, fun e he => ?_, fun e he => ?_⟩
      · have hlength := congrArg List.length hcontent
        have hrecords := headerSize_mul_length_le es
        have hmatching : (matching stem es).length ≤ es.length := List.length_filter_le _ _
        rw [List.length_drop, List.length_append] at hlength
        rw [hentries, Nat.le_div_iff_mul_le (by decide)]
        unfold Entry.headerSize at hrecords ⊢
        omega
      · rw [hentries] at he
        obtain ⟨hmem, hstem⟩ := List.mem_filter.mp he
        have hrecords : es.flatMap Entry.encode <:+: content.drop (r.seek stem) := by
          rw [hcontent]
          exact (List.prefix_append _ _).isInfix
        exact ⟨List.isPrefixOf_iff_prefix.mp hstem, hfits e hmem,
          (encode_infix_flatMap hmem).trans (hrecords.trans (List.drop_suffix _ _).isInfix)⟩
      · rw [hsource, Merge.failure?_append_error, Option.map_eq_some_iff] at he
        obtain ⟨damage, -, rfl⟩ := he
        exact ⟨damage, rfl⟩

/-- A scan comes, behind whole records that do not lie behind the stem, to a record whose declared
lengths exceed the bytes that are left of the file. -/
structure Overruns (r : Run) (stem content : Bytes) (es : List Entry) (bad : Bytes) : Prop where
  content_eq : content.drop (r.seek stem) = es.flatMap Entry.encode ++ bad
  fits : ∀ e ∈ es, e.Fits
  notBehind : ∀ e ∈ es, e.key < stem ∨ stem <+: e.key
  hasHeader : Entry.headerSize ≤ bad.length
  exceeds : bad.length - Entry.headerSize < (RecordHeader.ofBytes bad).bodyLength

/-- Nothing of a record that exceeds the file is taken for an entry. -/
theorem Overruns.scan_eq {es : List Entry} {bad : Bytes} (h : r.Overruns stem content es bad)
    (hfile : folder.find? r.name = some (.file content)) (hheader : headerDamage? content = none)
    (path : String) :
    r.scan folder path stem = .ok ((matching stem es).map .ok ++
      [.error (.corrupted path (.overrun (RecordHeader.ofBytes bad).bodyLength
        (r.seek stem + (es.map Entry.size).sum)))]) := by
  have hne : bad ≠ [] := by
    rintro rfl
    exact absurd h.hasHeader (by decide)
  have hread (offset : Nat) : Entry.read offset bad =
      .error (.overrun (RecordHeader.ofBytes bad).bodyLength offset) := by
    have hhas : Bytes.hasAtLeast Entry.headerSize bad = true := by simpa using h.hasHeader
    have hbody : Bytes.hasAtLeast (RecordHeader.ofBytes bad).bodyLength
        (bad.drop Entry.headerSize) = false := by
      simpa [← Bool.not_eq_true] using h.exceeds
    simp [Entry.read, hhas, hbody]
  simp only [scan, hfile, hheader, h.content_eq, readFrom_append h.fits h.notBehind,
    readFrom_error hne (hread _), List.map_append, map_mapError_ok]
  rfl

end Run

/-! ## Merges -/

namespace Merge

variable {ε : Type} {sources : List (Source ε)} {key : Bytes}

structure Picks (sources : List (Source ε)) (rows : List (Bytes × Bytes)) : Prop where
  length_le : rows.length ≤ (sources.map fun source => source.entries.length).sum
  mem : ∀ key row, (key, row) ∈ rows → ∃ source ∈ sources, ⟨key, .present row⟩ ∈ source.entries

theorem Picks.nil : Picks sources [] := ⟨Nat.zero_le _, fun _ _ h => nomatch h⟩

theorem entries_advance_suffix (key : Bytes) (source : Source ε) :
    (source.advance key).entries <:+ source.entries := by
  unfold Source.advance
  split
  next e rest =>
    split
    · rw [Source.entries.eq_1]
      exact List.suffix_cons _ _
    · exact List.suffix_rfl
  next => exact List.suffix_rfl

theorem length_entries_advance_lt {source : Source ε} {e : Entry} (h : source.head? = some e)
    (hk : e.key = key) : (source.advance key).entries.length < source.entries.length := by
  match source with
  | .ok d :: rest =>
    obtain rfl : d = e := by simpa [Source.head?] using h
    simp [Source.advance, hk, Source.entries]

theorem sum_entries_advance_lt (h : firstKey? sources = some key) :
    ((advance key sources).map fun source => source.entries.length).sum <
      (sources.map fun source => source.entries.length).sum := by
  obtain ⟨source, hs, e, he, hk⟩ := exists_head_of_firstKey? h
  rw [advance, List.map_map]
  exact List.sum_lt_sum _ _ (fun s _ => (entries_advance_suffix key s).length_le)
    ⟨source, hs, length_entries_advance_lt he hk⟩

theorem mem_entries_of_winner? {row : Bytes} (h : winner? key sources = some (.present row)) :
    ∃ source ∈ sources, ⟨key, .present row⟩ ∈ source.entries := by
  obtain ⟨e, he, hv⟩ := Option.map_eq_some_iff.mp h
  obtain ⟨hmem, hk⟩ := List.mem_filter.mp (List.mem_of_getLast? he)
  obtain ⟨source, hs, hhead⟩ := List.mem_filterMap.mp hmem
  obtain rfl : e = ⟨key, .present row⟩ := by
    obtain ⟨k, v⟩ := e
    simp_all
  rw [head?_eq] at hhead
  exact ⟨source, hs, List.mem_of_head? hhead⟩

theorem Picks.of_advance {rows : List (Bytes × Bytes)} (hk : firstKey? sources = some key)
    (h : Picks (advance key sources) rows) :
    ∃ front, emission key sources = front.map .ok ∧ Picks sources (front ++ rows) := by
  have hlt := sum_entries_advance_lt hk
  have hle := h.length_le
  have hmem (k row : Bytes) (hrow : (k, row) ∈ rows) :
      ∃ source ∈ sources, ⟨k, .present row⟩ ∈ source.entries := by
    obtain ⟨left, hleft, he⟩ := h.mem k row hrow
    obtain ⟨source, hs, rfl⟩ := List.mem_map.mp hleft
    exact ⟨source, hs, (entries_advance_suffix key source).mem he⟩
  unfold emission
  split
  next row hwinner _ =>
    refine ⟨[(key, row)], rfl, ?_, fun k row' hrow => ?_⟩
    · rw [List.length_append, List.length_singleton]
      omega
    · rcases List.mem_cons.mp hrow with heq | hrow
      · obtain ⟨rfl, rfl⟩ := Prod.mk.inj heq
        exact mem_entries_of_winner? hwinner
      · exact hmem k row' hrow
  next => exact ⟨[], rfl, by rw [List.nil_append]; omega, hmem⟩

/-- A merge of any sources gives some of their entries, and behind them the first error that it
comes to, if a source fails. -/
theorem exists_picks (sources : List (Source ε)) :
    ∃ rows failure, Picks sources rows ∧ EndsWith sources failure ∧
      merge sources = rows.map .ok ++ failure.toList.map .error := by
  induction hn : remaining sources using Nat.strongRecOn generalizing sources with
  | ind n ih =>
    cases herror : sources.findSome? Source.error? with
    | some e =>
      obtain ⟨source, hs, -, hf⟩ := exists_error_of_findSome? herror
      exact ⟨[], some e, .nil, ⟨source, hs, hf⟩, merge_of_error herror⟩
    | none =>
      cases hk : firstKey? sources with
      | none =>
        refine ⟨[], none, .nil, fun source hs => ?_, merge_of_none herror hk⟩
        have hhead := firstKey?_eq_none_iff.mp hk source hs
        have he := List.findSome?_eq_none_iff.mp herror source hs
        match source with
        | [] => rfl
        | .ok e :: source => cases hhead
        | .error e :: source => cases he
      | some key =>
        obtain ⟨rows, failure, hpicks, hends, hmerge⟩ :=
          ih _ (hn ▸ remaining_advance_lt hk) (advance key sources) rfl
        obtain ⟨front, hemission, hpicks⟩ := hpicks.of_advance hk
        refine ⟨front ++ rows, failure, hpicks, hends.of_advance, ?_⟩
        rw [merge_of_some herror hk, hemission, hmerge, List.map_append, List.append_assoc]

end Merge

end ChangeBuffer
