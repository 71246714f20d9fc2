import ChangeBuffer.Proofs.Run.Truncation
import ChangeBuffer.Proofs.Store.Damage

/-! # Truncated stores

A run that lost the end of its file is noticed by a scan of all rows exactly if what is left is not
a whole file of a run.  If the cut lies between two records the rows behind it are gone without a
word.
-/

namespace ChangeBuffer.DiskStore

/-- The scan is refused, or an error of a damaged run is among its items. -/
def Reports : Except StoreError (List (Except StoreError (Bytes × Row))) → Prop
  | .error _ => True
  | .ok items => ∃ item ∈ items, IsCorrupted item

def layersWith (shelf : List (Run × List Entry)) (name : String) (es : List Entry) :
    List (List Entry) :=
  shelf.map fun p => if p.1.name = name then es else p.2

variable {s t : DiskStore} {shelf : List (Run × List Entry)} {run : Run} {es ds : List Entry}
  {ops : List StoreOp} {content : Bytes}

theorem exists_scan_error (hrun : run ∈ s.runs) {stem : Bytes} {e : StoreError}
    (h : run.scan s.folder (s.filePath run.name) stem = .error e) : ∃ e, s.scan stem = .error e := by
  obtain ⟨e, he⟩ := exists_mapM_error (fun run : Run => run.scan s.folder (s.filePath run.name) stem)
    hrun h
  refine ⟨e, ?_⟩
  rw [scan, runSources, he]
  rfl

namespace Intact

/-- A run that gives only some first entries is merged as if it had no others. -/
theorem scan_of_layersWith (h : s.Intact shelf) (hp : (run, es) ∈ shelf)
    (hscan : run.scan (s.overwrite run content).folder (s.filePath run.name) [] =
      .ok (ds.map .ok)) :
    (s.overwrite run content).scan [] =
      .ok ((Merge.merge (Merge.ofLayers (layersWith shelf run.name ds ++ [s.layer]))).map
        decodeItem) := by
  have hsources : sourcesWith shelf run.name (ds.map .ok) [] =
      Merge.ofLayers (ε := StoreError) (layersWith shelf run.name ds) := by
    rw [sourcesWith, layersWith, Merge.ofLayers, List.map_map]
    refine List.map_congr_left fun q _ => ?_
    rw [Function.comp_apply, matching_nil_stem]
    split <;> rfl
  rw [scan, h.runSources_overwrite hp hscan, tableSource_overwrite, hsources, matching_nil_stem,
    Merge.ofLayers, Merge.ofLayers, List.map_append]
  rfl

theorem not_reports_of_layersWith (h : s.Intact shelf) (hp : (run, es) ∈ shelf) (hds : ds <+: es)
    (hscan : run.scan (s.overwrite run content).folder (s.filePath run.name) [] =
      .ok (ds.map .ok)) : ¬ Reports ((s.overwrite run content).scan []) := by
  have ha : Merge.AllAscending (layersWith shelf run.name ds ++ [s.layer]) := by
    intro layer hlayer
    rcases List.mem_append.mp hlayer with hlayer | hlayer
    · obtain ⟨q, hq, rfl⟩ := List.mem_map.mp hlayer
      have hq := (h.lies q hq).describes.ascending
      split
      · exact List.Pairwise.sublist hds.sublist (h.lies _ hp).describes.ascending
      · exact hq
    · rw [List.mem_singleton.mp hlayer]
      exact s.ascending_layer
  obtain ⟨rows, -, hmerge⟩ := Merge.exists_shows (ε := StoreError) ha
  rw [h.scan_of_layersWith hp hscan, hmerge]
  rintro ⟨item, hitem, hcorrupted⟩
  rw [List.map_map] at hitem
  obtain ⟨p, -, rfl⟩ := List.mem_map.mp hitem
  exact not_isCorrupted_decodeItem p hcorrupted

theorem reports_of_error (h : s.Intact shelf) (hp : (run, es) ∈ shelf) (hds : ds <+: es)
    {path : String} {damage : Damage}
    (hscan : run.scan (s.overwrite run content).folder (s.filePath run.name) [] =
      .ok (ds.map .ok ++ [.error (.corrupted path damage)])) :
    Reports ((s.overwrite run content).scan []) := by
  have hfront : ds <+: matching [] es := by rwa [matching_nil_stem]
  obtain ⟨shown, -, hmerge⟩ := h.merge_sourcesWith hp hfront (.corrupted path damage)
  rw [scan, h.runSources_overwrite hp hscan, tableSource_overwrite]
  simp only [Except.map, hmerge]
  exact ⟨.error (.corrupted path damage), by simp [decodeItem], trivial⟩

theorem reports_truncation_iff (h : s.Intact shelf) (hp : (run, es) ∈ shelf) {n : Nat}
    (hn : n < (Run.file es).length) :
    Reports ((s.overwrite run ((Run.file es).take n)).scan []) ↔
      ¬ Run.Whole ((Run.file es).take n) := by
  have hd := (h.lies _ hp).describes
  have hfile := s.find?_overwrite run ((Run.file es).take n)
  have hrun : run ∈ (s.overwrite run ((Run.file es).take n)).runs := by
    rw [overwrite, h.runs]
    exact List.mem_map_of_mem hp
  rcases hd.scan_truncated hn hfile (s.filePath run.name) with
    ⟨ds, hds, hwhole, hscan⟩ | ⟨hcut, ⟨e, hscan⟩ | ⟨ds, damage, hds, hscan⟩⟩
  · have hfits : ∀ e ∈ ds, e.Fits := fun e he => hd.fits e (hds.subset he)
    exact iff_of_false (h.not_reports_of_layersWith hp hds hscan) fun hn => hn ⟨ds, hfits, hwhole⟩
  · obtain ⟨e, he⟩ := exists_scan_error hrun hscan
    exact iff_of_true (by rw [he]; trivial) hcut
  · exact iff_of_true (h.reports_of_error hp hds hscan) hcut

end Intact

/-- A scan of all rows notices that a run lost the end of its file, unless the run's header and
whole records are what is left. -/
theorem scan_reports_truncation_iff {settings : SpillSettings} {host : Host} {path : String}
    (hs : create settings host path = .ok s) (ht : Store.applyAll s ops = .ok t)
    (hrun : run ∈ t.runs) :
    ∃ content, t.folder.find? run.name = some (.file content) ∧ content.length = run.size ∧
      ∀ n < run.size, Reports ((t.overwrite run (content.take n)).scan []) ↔
        ¬ Run.Whole (content.take n) := by
  obtain ⟨rows, shelf, h, -⟩ := (Holds.create hs).stores.applyAll ht
  obtain ⟨⟨r, es⟩, hp, rfl⟩ : ∃ p ∈ shelf, p.1 = run := by
    rw [h.runs] at hrun
    exact List.mem_map.mp hrun
  have hsize := (h.lies _ hp).describes.size
  refine ⟨_, (h.lies _ hp).file, hsize.symm, fun n hn => h.reports_truncation_iff hp ?_⟩
  rwa [← hsize]

theorem scan_reports_truncation_iff_of_one_run :
    ∃ s t run content,
      create ⟨"/tmp", 1, 2, 1⟩ Host.plain "/tmp/store" = .ok s ∧
      Store.applyAll s [.put [1] ⟨.insert, []⟩] = .ok t ∧ run ∈ t.runs ∧
      t.folder.find? run.name = some (.file content) ∧ content.length = run.size ∧
      ∀ n < run.size, Reports ((t.overwrite run (content.take n)).scan []) ↔
        ¬ Run.Whole (content.take n) := by
  have hs := create_plain Nat.one_ne_zero
  obtain ⟨t, run, ht, hrun⟩ : ∃ (t : DiskStore) (run : Run), Store.applyAll
      (⟨⟨"/tmp", 1, 2, 1⟩, "/tmp/store", ∅, ∅, 0, [], 0, .zero⟩ : DiskStore)
        [.put [1] ⟨.insert, []⟩] = .ok t ∧ run ∈ t.runs := ⟨_, _, rfl, List.mem_cons_self⟩
  obtain ⟨content, hcontent, hsize, hscan⟩ := scan_reports_truncation_iff hs ht hrun
  exact ⟨_, t, run, content, hs, ht, hrun, hcontent, hsize, hscan⟩

/-- Behind a cut between two records a row is gone, and the scan ends as if nothing were wrong. -/
theorem scan_misses_cut_between_records :
    ∃ s t run content,
      create ⟨"/tmp", 100, 2, 1⟩ Host.plain "/tmp/store" = .ok s ∧
      Store.applyAll s [.put [0x61] ⟨.insert, []⟩, .put [0x62] ⟨.insert, []⟩] = .ok t ∧
      run ∈ t.runs ∧ t.folder.find? run.name = some (.file content) ∧ 31 < content.length ∧
      t.scan [] = .ok [.ok ([0x61], ⟨.insert, []⟩), .ok ([0x62], ⟨.insert, []⟩)] ∧
      (t.overwrite run (content.take 31)).scan [] = .ok [.ok ([0x61], ⟨.insert, []⟩)] := by
  have hs := create_plain (by decide : 100 ≠ 0)
  -- The entries are abbreviated, since their records take long to unfold.
  obtain ⟨a, ha⟩ : ∃ a : Entry, a = ⟨[0x61], .present (Row.encode ⟨.insert, []⟩)⟩ := ⟨_, rfl⟩
  obtain ⟨b, hb⟩ : ∃ b : Entry, b = ⟨[0x62], .present (Row.encode ⟨.insert, []⟩)⟩ := ⟨_, rfl⟩
  have hfits : ∀ e ∈ [a, b], e.Fits := by
    subst ha hb
    decide
  obtain ⟨t, run, ht, hruns, hlayer, hfile⟩ : ∃ (t : DiskStore) (run : Run), Store.applyAll
      (⟨⟨"/tmp", 100, 2, 1⟩, "/tmp/store", ∅, ∅, 0, [], 0, .zero⟩ : DiskStore)
        [.put [0x61] ⟨.insert, []⟩, .put [0x62] ⟨.insert, []⟩] = .ok t ∧ t.runs = [run] ∧
          t.layer = [] ∧ t.folder.find? run.name = some (.file (Run.file [a, b])) := by
    subst ha hb
    exact ⟨_, _, rfl, rfl, rfl, by rfl⟩
  have hrun : run ∈ t.runs := by simp [hruns]
  obtain ⟨rows, shelf, h, -⟩ := (Holds.create hs).stores.applyAll ht
  obtain ⟨es, rfl⟩ : ∃ es, shelf = [(run, es)] := by
    obtain ⟨⟨r, es⟩, rfl, hr⟩ := List.map_eq_singleton_iff.mp (h.runs.symm.trans hruns)
    obtain rfl : r = run := hr
    exact ⟨es, rfl⟩
  have hd := (h.lies _ (List.mem_singleton.mpr rfl)).describes
  obtain rfl : es = [a, b] := by
    have hcontent := (h.lies _ (List.mem_singleton.mpr rfl)).file
    exact Run.file_inj hd.fits hfits (Node.file.inj (Option.some.inj (hcontent.symm.trans hfile)))
  have hcut : (Run.file [a, b]).take 31 = Run.file [a] := by
    subst ha
    rfl
  have hscan := hd.scan_file (List.prefix_append [a] [b]) (t.find?_overwrite run (Run.file [a]))
    (t.filePath run.name)
  refine ⟨_, t, run, _, hs, ht, hrun, hfile, ?_, ?_, ?_⟩
  · subst ha hb
    decide
  · rw [h.scan_eq, layers, hlayer]
    subst ha hb
    cbv
  · rw [hcut, h.scan_of_layersWith (List.mem_singleton.mpr rfl) hscan, hlayer]
    subst ha hb
    cbv

end ChangeBuffer.DiskStore
