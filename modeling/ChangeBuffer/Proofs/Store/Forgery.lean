import ChangeBuffer.Proofs.Run.Forgery
import ChangeBuffer.Proofs.Store.Shelf

/-! # Stores with files of any bytes

Whatever bytes are in the files of a store, a scan ends.  It gives no more rows than there is room
for in the files and the table, each with the bytes of the table or of a whole record, and damage is
the last that it gives.
-/

namespace ChangeBuffer

def Folder.fileLength (folder : Folder) (name : String) : Nat :=
  match folder.find? name with
  | some (.file content) => content.length
  | _ => 0

namespace Run

variable {r : Run} {folder : Folder} {path : String} {stem content : Bytes} {e : StoreError}
  {source : Merge.Source StoreError}

def Opens (r : Run) (folder : Folder) : Prop :=
  ∃ content, folder.find? r.name = some (.file content) ∧ headerDamage? content = none

theorem not_opens_of_scan (h : r.scan folder path stem = .error e) : ¬ r.Opens folder := by
  rintro ⟨content, hfile, hheader⟩
  simp [scan, hfile, hheader] at h

theorem headerDamage?_of_scan (h : r.scan folder path stem = .ok source)
    (hfile : folder.find? r.name = some (.file content)) : headerDamage? content = none := by
  simp only [scan, hfile] at h
  split at h
  · cases h
  next hheader => exact hheader

end Run

namespace DiskStore

/-- The bytes under the key are in the table, or in a record that is whole in the file of a run. -/
def HasBytes (s : DiskStore) (key bytes : Bytes) : Prop :=
  (key, .present bytes) ∈ s.table.entries ∨
    ∃ run ∈ s.runs, ∃ content, s.folder.find? run.name = some (.file content) ∧
      (Entry.mk key (.present bytes)).Fits ∧ (Entry.mk key (.present bytes)).encode <:+: content

/-- The items of a scan, with what a scan promises for files of any bytes. -/
structure SafeScan (s : DiskStore) (stem : Bytes)
    (items : List (Except StoreError (Bytes × Row))) : Prop where
  /-- A cursor over the runs and the table gives the items one by one, and nothing behind them. -/
  cursor : ∃ sources, s.runSources stem = .ok sources ∧ ∀ n,
    ((Merge.Cursor.start (sources ++ [s.tableSource stem])).nth n).map decodeItem = items[n]?
  length_le : items.length ≤ s.table.size +
    (s.runs.map fun run => s.folder.fileLength run.name / Entry.headerSize).sum + 1
  rows : ∀ key row, .ok (key, row) ∈ items →
    stem <+: key ∧ ∃ bytes, Row.decode bytes = .ok row ∧ s.HasBytes key bytes
  /-- Only a row that cannot be decoded is an error with something behind it. -/
  last : ∀ front e back, items = front ++ .error e :: back → (∀ fault, e ≠ .undecodable fault) →
    back = []
  /-- A record that exceeds its file is damage, and a scan that comes to one ends with damage. -/
  overrun : ∀ run ∈ s.runs, ∀ content es bad, s.folder.find? run.name = some (.file content) →
    run.Overruns stem content es bad →
      run.scan s.folder (s.filePath run.name) stem = .ok ((matching stem es).map .ok ++
        [.error (.corrupted (s.filePath run.name) (.overrun (RecordHeader.ofBytes bad).bodyLength
          (run.seek stem + (es.map Entry.size).sum)))]) ∧
      ∃ run' ∈ s.runs, ∃ (source : Merge.Source StoreError) (damage : Damage),
        run'.scan s.folder (s.filePath run'.name) stem = .ok source ∧
        source.failure? = some (.corrupted (s.filePath run'.name) damage) ∧
        items.getLast? = some (.error (.corrupted (s.filePath run'.name) damage))

variable {s : DiskStore} {stem : Bytes} {sources : List (Merge.Source StoreError)}

theorem decodeItem_cases (key bytes : Bytes) :
    (∃ row, Row.decode bytes = .ok row ∧ decodeItem (.ok (key, bytes)) = .ok (key, row)) ∨
      ∃ fault, decodeItem (.ok (key, bytes)) = .error (.undecodable fault) := by
  cases hrow : Row.decode bytes with
  | error fault => exact Or.inr ⟨fault, by simp only [decodeItem, hrow]⟩
  | ok row => exact Or.inl ⟨row, rfl, by simp only [decodeItem, hrow]⟩

theorem exists_of_ok_mem {rows : List (Bytes × Bytes)} {key : Bytes} {row : Row}
    (h : .ok (key, row) ∈ rows.map fun p => decodeItem (.ok p)) :
    ∃ bytes, (key, bytes) ∈ rows ∧ Row.decode bytes = .ok row := by
  obtain ⟨⟨k, bytes⟩, hp, hitem⟩ := List.mem_map.mp h
  rcases decodeItem_cases k bytes with ⟨row', hrow, hok⟩ | ⟨fault, herror⟩
  · obtain ⟨rfl, rfl⟩ := Prod.mk.inj (Except.ok.inj (hok.symm.trans hitem))
    exact ⟨bytes, hp, hrow⟩
  · cases herror.symm.trans hitem

theorem exists_of_error_mem {rows : List (Bytes × Bytes)} {e : StoreError}
    (h : .error e ∈ rows.map fun p => decodeItem (.ok p)) : ∃ fault, e = .undecodable fault := by
  obtain ⟨⟨k, bytes⟩, -, hitem⟩ := List.mem_map.mp h
  rcases decodeItem_cases k bytes with ⟨row, -, hok⟩ | ⟨fault, herror⟩
  · cases hok.symm.trans hitem
  · exact ⟨fault, Except.error.inj (hitem.symm.trans herror)⟩

theorem eq_nil_of_append_eq {α : Type} {as fs front back : List α} {a : α}
    (h : as ++ fs = front ++ a :: back) (ha : a ∉ as) (hone : fs.length ≤ 1) : back = [] := by
  rcases List.append_eq_append_iff.mp h with ⟨inner, -, hfs⟩ | ⟨inner, has, hback⟩
  · rw [hfs, List.length_append, List.length_cons] at hone
    exact List.length_eq_zero_iff.mp (by omega)
  · cases inner with
    | nil =>
      rw [List.nil_append] at hback
      rw [← hback, List.length_cons] at hone
      exact List.length_eq_zero_iff.mp (by omega)
    | cons b inner =>
      obtain ⟨rfl, -⟩ := List.cons.inj hback
      exact absurd (has ▸ List.mem_append_right _ List.mem_cons_self) ha

section Sources

variable (hscans : List.Forall₂
  (fun run source => run.scan s.folder (s.filePath run.name) stem = .ok source) s.runs sources)

include hscans

/-- There is room for so many entries in the files and the table. -/
theorem sum_entries_le :
    ((sources ++ [s.tableSource stem]).map fun source => source.entries.length).sum ≤
      s.table.size +
        (s.runs.map fun run => s.folder.fileLength run.name / Entry.headerSize).sum := by
  have htable : (s.tableSource stem).entries.length ≤ s.table.size := by
    rw [tableSource_eq, Merge.entries_map_ok]
    refine Nat.le_trans (List.length_filter_le _ _) ?_
    rw [layer, List.length_map, SortedMap.size]
  have hruns : (sources.map fun source => source.entries.length).sum ≤
      (s.runs.map fun run => s.folder.fileLength run.name / Entry.headerSize).sum := by
    apply List.Forall₂.sum_le_sum
    rw [List.forall₂_map_left_iff, List.forall₂_map_right_iff]
    refine hscans.flip.imp fun source run hscan => ?_
    obtain ⟨content, hfile, hextracts⟩ := Run.exists_extracts_of_scan hscan
    rw [Folder.fileLength, hfile]
    exact hextracts.length_le
  rw [List.map_append, List.sum_append, List.map_singleton, List.sum_singleton]
  omega

theorem hasBytes_of_mem_entries {source : Merge.Source StoreError}
    (hs : source ∈ sources ++ [s.tableSource stem]) {key bytes : Bytes}
    (he : ⟨key, .present bytes⟩ ∈ source.entries) : stem <+: key ∧ s.HasBytes key bytes := by
  rcases List.mem_append.mp hs with hs | hs
  · obtain ⟨run, hrun, hscan⟩ := exists_of_forall₂_of_mem hscans.flip hs
    obtain ⟨content, hfile, hextracts⟩ := Run.exists_extracts_of_scan hscan
    obtain ⟨hstem, hfits, hwhole⟩ := hextracts.whole _ he
    exact ⟨hstem, Or.inr ⟨run, hrun, content, hfile, hfits, hwhole⟩⟩
  · rw [List.mem_singleton.mp hs, tableSource_eq, Merge.entries_map_ok, matching,
      List.mem_filter, mem_layer] at he
    exact ⟨List.isPrefixOf_iff_prefix.mp he.2, Or.inl he.1⟩

theorem exists_run_of_failure? {source : Merge.Source StoreError}
    (hs : source ∈ sources ++ [s.tableSource stem]) {e : StoreError}
    (he : source.failure? = some e) :
    ∃ run ∈ s.runs, ∃ damage, run.scan s.folder (s.filePath run.name) stem = .ok source ∧
      e = .corrupted (s.filePath run.name) damage := by
  rcases List.mem_append.mp hs with hs | hs
  · obtain ⟨run, hrun, hscan⟩ := exists_of_forall₂_of_mem hscans.flip hs
    obtain ⟨content, -, hextracts⟩ := Run.exists_extracts_of_scan hscan
    obtain ⟨damage, rfl⟩ := hextracts.damage e he
    exact ⟨run, hrun, damage, hscan, rfl⟩
  · rw [List.mem_singleton.mp hs, tableSource_eq, Merge.failure?_map_ok] at he
    cases he

end Sources

theorem safeScan_of_runSources (h : s.runSources stem = .ok sources) :
    s.SafeScan stem ((Merge.merge (sources ++ [s.tableSource stem])).map decodeItem) := by
  have hscans := mapM_eq_ok_iff.mp h
  obtain ⟨rows, failure, hpicks, hends, hmerge⟩ :=
    Merge.exists_picks (sources ++ [s.tableSource stem])
  have hitems : (Merge.merge (sources ++ [s.tableSource stem])).map decodeItem =
      rows.map (fun p => decodeItem (.ok p)) ++ failure.toList.map .error := by
    rw [hmerge, List.map_append, List.map_map]
    cases failure <;> rfl
  have hone : (failure.toList.map (.error : StoreError → Except StoreError (Bytes × Row))).length ≤ 1 := by
    cases failure <;> simp
  refine ⟨⟨sources, h, fun n => ?_⟩, ?_, fun key row hmem => ?_, fun front e back heq he => ?_,
    fun run hrun content es bad hfile hover => ?_⟩
  · rw [Merge.Cursor.nth_start, List.getElem?_map]
  · have hle := hpicks.length_le.trans (sum_entries_le hscans)
    rw [hitems, List.length_append, List.length_map]
    omega
  · rw [hitems] at hmem
    rcases List.mem_append.mp hmem with hmem | hmem
    · obtain ⟨bytes, hp, hrow⟩ := exists_of_ok_mem hmem
      obtain ⟨source, hs, he⟩ := hpicks.mem key bytes hp
      obtain ⟨hstem, hbytes⟩ := hasBytes_of_mem_entries hscans hs he
      exact ⟨hstem, bytes, hrow, hbytes⟩
    · obtain ⟨e, -, hitem⟩ := List.mem_map.mp hmem
      cases hitem
  · refine eq_nil_of_append_eq (hitems.symm.trans heq) (fun hmem => ?_) hone
    obtain ⟨fault, rfl⟩ := exists_of_error_mem hmem
    exact he fault rfl
  · obtain ⟨source, hs, hscan⟩ := exists_of_forall₂_of_mem hscans hrun
    have heq := hover.scan_eq hfile (Run.headerDamage?_of_scan hscan hfile) (s.filePath run.name)
    obtain rfl := Except.ok.inj (hscan.symm.trans heq)
    refine ⟨heq, ?_⟩
    cases failure with
    | none =>
      have hnone := hends _ (List.mem_append_left _ hs)
      cases hnone.symm.trans (Merge.failure?_append_error (matching stem es) (some _))
    | some e =>
      obtain ⟨left, hleft, hfailure⟩ := hends
      obtain ⟨run', hrun', damage, hscan', rfl⟩ := exists_run_of_failure? hscans hleft hfailure
      refine ⟨run', hrun', left, damage, hscan', hfailure, ?_⟩
      rw [hitems]
      exact List.getLast?_concat

/-- Whatever bytes are in the files of a store, a scan of it is safe, unless a run does not open,
which is then the error. -/
theorem scan_of_any_files (s : DiskStore) (stem : Bytes) :
    (∃ items, s.scan stem = .ok items ∧ s.SafeScan stem items) ∨
      ∃ run ∈ s.runs, ¬ run.Opens s.folder ∧ ∃ e, s.scan stem = .error e ∧
        run.scan s.folder (s.filePath run.name) stem = .error e := by
  cases h : s.runSources stem with
  | ok sources =>
    refine Or.inl ⟨_, ?_, safeScan_of_runSources h⟩
    rw [scan, h]
    rfl
  | error e =>
    obtain ⟨front, run, back, hruns, -, hrun⟩ := mapM_eq_error_iff.mp h
    refine Or.inr ⟨run, ?_, Run.not_opens_of_scan hrun, e, ?_, hrun⟩
    · rw [hruns]
      exact List.mem_append_right _ List.mem_cons_self
    · rw [scan, h]
      rfl

theorem scan_of_any_files_of_forged_run :
    ∃ (s : DiskStore) (items : List (Except StoreError (Bytes × Row))),
      s.folder.find? "run-00000000.spill" = some (.file (Run.header ++
        Entry.encode ⟨[0], .present [9]⟩ ++ Entry.encode ⟨[2], .removed⟩ ++
          [0, 0, 0, 0, 9, 0, 0, 0, 0, 0, 0, 0, 7])) ∧
      s.scan [] = .ok items ∧
      items = [.error (.undecodable .endOfInput), .ok ([1], ⟨.insert, []⟩),
        .error (.corrupted "/tmp/store/run-00000000.spill" (.overrun 9 33))] ∧
      s.SafeScan [] items := by
  obtain ⟨s, hfile, hruns, hpath, htable⟩ : ∃ s : DiskStore,
      s.folder.find? "run-00000000.spill" = some (.file (Run.header ++
        Entry.encode ⟨[0], .present [9]⟩ ++ Entry.encode ⟨[2], .removed⟩ ++
          [0, 0, 0, 0, 9, 0, 0, 0, 0, 0, 0, 0, 7])) ∧
      s.runs = [⟨"run-00000000.spill", 3, 33, []⟩] ∧
      s.filePath "run-00000000.spill" = "/tmp/store/run-00000000.spill" ∧
      s.tableSource [] = [.ok ⟨[1], .present (Row.encode ⟨.insert, []⟩)⟩] :=
    ⟨⟨⟨"/tmp", 1, 2, 1⟩, "/tmp/store", (∅ : Folder).insert "run-00000000.spill" (.file _),
      (∅ : SortedMap Bytes Version).insert [1] (.present (Row.encode ⟨.insert, []⟩)), 0,
      [⟨"run-00000000.spill", 3, 33, []⟩], 1, .zero⟩, rfl, rfl, rfl, rfl⟩
  have hover : Run.Overruns ⟨"run-00000000.spill", 3, 33, []⟩ [] (Run.header ++
      Entry.encode ⟨[0], .present [9]⟩ ++ Entry.encode ⟨[2], .removed⟩ ++
        [0, 0, 0, 0, 9, 0, 0, 0, 0, 0, 0, 0, 7])
      [⟨[0], .present [9]⟩, ⟨[2], .removed⟩] [0, 0, 0, 0, 9, 0, 0, 0, 0, 0, 0, 0, 7] :=
    ⟨rfl, by decide, by decide, by decide, by decide⟩
  have hsources : s.runSources [] = .ok [[.ok ⟨[0], .present [9]⟩, .ok ⟨[2], .removed⟩,
      .error (.corrupted "/tmp/store/run-00000000.spill" (.overrun 9 33))]] := by
    rw [runSources, hruns, mapM_eq_ok_iff]
    refine .cons ?_ .nil
    rw [hpath]
    exact hover.scan_eq hfile rfl _
  have hscan : s.scan [] = .ok [.error (.undecodable .endOfInput), .ok ([1], ⟨.insert, []⟩),
      .error (.corrupted "/tmp/store/run-00000000.spill" (.overrun 9 33))] := by
    rw [scan, hsources, htable]
    cbv
  rcases scan_of_any_files s [] with ⟨items, hitems, hsafe⟩ | ⟨-, -, -, e, he, -⟩
  · exact ⟨s, items, hfile, hitems, Except.ok.inj (hitems.symm.trans hscan), hsafe⟩
  · cases he.symm.trans hscan

end DiskStore

end ChangeBuffer
