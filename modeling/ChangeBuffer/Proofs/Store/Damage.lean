import ChangeBuffer.Proofs.Run.Burst
import ChangeBuffer.Proofs.Run.Cut
import ChangeBuffer.Proofs.Store.History

/-! # Damaged stores

A burst in one record of a run is never taken for a row.  A scan that does not miss the record
gives what it would give without the burst up to some place, and there it reports the damage and
ends.
-/

namespace ChangeBuffer.DiskStore

def overwrite (s : DiskStore) (run : Run) (content : Bytes) : DiskStore :=
  { s with folder := s.folder.insert run.name (.file content) }

/-- What the files on the shelf give for a stem if the run of the name gives `source`. -/
def sourcesWith (shelf : List (Run × List Entry)) (name : String)
    (source : Merge.Source StoreError) (stem : Bytes) : List (Merge.Source StoreError) :=
  shelf.map fun p => if p.1.name = name then source else (matching stem p.2).map .ok

def IsCorrupted : Except StoreError (Bytes × Row) → Prop
  | .error (.corrupted _ _) => True
  | _ => False

variable {s t : DiskStore} {shelf : List (Run × List Entry)} {run : Run} {es : List Entry}
  {ops : List StoreOp} {op : StoreOp}

theorem find?_overwrite (s : DiskStore) (run : Run) (content : Bytes) :
    (s.overwrite run content).folder.find? run.name = some (.file content) := by
  rw [overwrite, SortedMap.find?_insert, if_pos rfl]

theorem Stores.apply {rows : Bytes → Option Bytes} (h : s.Stores rows)
    (ht : op.apply s = (t, .ok ())) : ∃ rows, t.Stores rows := by
  cases op with
  | put key row => exact ⟨_, h.of_insert ht⟩
  | remove key => exact ⟨_, h.of_remove ht⟩
  | clear => exact ⟨_, h.of_clear ht⟩

theorem Stores.applyAll {rows : Bytes → Option Bytes} (h : s.Stores rows)
    (ht : Store.applyAll s ops = .ok t) : ∃ rows, t.Stores rows := by
  induction ops generalizing s rows with
  | nil =>
    obtain rfl := Except.ok.inj ht
    exact ⟨rows, h⟩
  | cons op ops ih =>
    rw [Store.applyAll] at ht
    split at ht
    · cases ht
    next u hu =>
      obtain ⟨rows, hrows⟩ := h.apply hu
      exact ih hrows ht

theorem not_isCorrupted_decodeItem (p : Bytes × Bytes) : ¬ IsCorrupted (decodeItem (.ok p)) := by
  unfold decodeItem
  split
  · rename_i h
    cases h
  · split <;> exact id

namespace Intact

theorem eq_of_name_eq (h : s.Intact shelf) {p q : Run × List Entry} (hp : p ∈ shelf)
    (hq : q ∈ shelf) (hname : p.1.name = q.1.name) : p = q := by
  have hnames := h.names
  rw [h.runs, List.map_map] at hnames
  exact List.inj_on_of_nodup_map hnames hp hq hname

theorem scan_overwrite_of_ne {p : Run × List Entry} (h : s.Intact shelf) (hp : p ∈ shelf)
    (hne : p.1.name ≠ run.name) (content : Bytes) (path : String) (stem : Bytes) :
    p.1.scan (s.overwrite run content).folder path stem = .ok ((matching stem p.2).map .ok) := by
  have hlies : p.1.LiesIn (s.overwrite run content).folder p.2 := by
    refine (h.lies p hp).of_find?_eq ?_
    rw [overwrite, SortedMap.find?_insert, if_neg hne]
  exact hlies.describes.scan_eq hlies.file path stem

theorem runSources_overwrite (h : s.Intact shelf) (hp : (run, es) ∈ shelf) {content stem : Bytes}
    {source : Merge.Source StoreError}
    (hscan : run.scan (s.overwrite run content).folder (s.filePath run.name) stem = .ok source) :
    (s.overwrite run content).runSources stem = .ok (sourcesWith shelf run.name source stem) := by
  have hruns : (s.overwrite run content).runs = shelf.map Prod.fst := h.runs
  refine runSources_eq_map hruns fun q hq => ?_
  split
  next hname =>
    obtain rfl := h.eq_of_name_eq hq hp hname
    exact hscan
  next hne => exact h.scan_overwrite_of_ne hq hne _ _ _

theorem sourcesWith_matching (h : s.Intact shelf) (hp : (run, es) ∈ shelf) (stem : Bytes) :
    sourcesWith shelf run.name ((matching stem es).map .ok) stem =
      Merge.ofLayers ((shelf.map Prod.snd).map (matching stem)) := by
  rw [sourcesWith, Merge.ofLayers, List.map_map, List.map_map]
  refine List.map_congr_left fun q hq => ?_
  split
  next hname =>
    obtain rfl := h.eq_of_name_eq hq hp hname
    rfl
  next => rfl

theorem merge_sourcesWith (h : s.Intact shelf) (hp : (run, es) ∈ shelf) {stem : Bytes}
    {front : List Entry} (hfront : front <+: matching stem es) (error : StoreError) :
    ∃ shown, shown <+: Merge.merge (Merge.ofLayers ((s.layers shelf).map (matching stem))) ∧
      Merge.merge (sourcesWith shelf run.name (front.map .ok ++ [.error error]) stem ++
        [(matching stem s.layer).map .ok]) = shown ++ [.error error] := by
  have hlayers : Merge.ofLayers ((s.layers shelf).map (matching stem)) =
      (shelf.map fun q => (matching stem q.2).map (Except.ok (ε := StoreError))) ++
        [(matching stem s.layer).map .ok] := by
    simp [layers, Merge.ofLayers, Function.comp_def]
  rw [hlayers]
  refine Merge.merge_of_cuts (List.rel_append ?_ (.cons (.refl _) .nil)) ?_
  · rw [sourcesWith, List.forall₂_map_left_iff, List.forall₂_map_right_iff, List.forall₂_same]
    intro q hq
    split
    next hname =>
      obtain rfl := h.eq_of_name_eq hq hp hname
      exact .append_error hfront
    next => exact .refl _
  · refine ⟨_, List.mem_append_left _ (List.mem_map.mpr ⟨_, hp, if_pos rfl⟩), by simp⟩

theorem tableSource_overwrite (content stem : Bytes) :
    (s.overwrite run content).tableSource stem = (matching stem s.layer).map .ok :=
  s.tableSource_eq stem

/-- A burst in a run is missed by a scan, or ends it. -/
theorem scan_overwrite (h : s.Intact shelf) (hp : (run, es) ∈ shelf) {damaged : Bytes}
    (hb : Run.Burst (Run.file es) damaged) (stem : Bytes) :
    stem ≠ [] ∧ (s.overwrite run damaged).scan stem = s.scan stem ∨
      ∃ shown offset,
        shown <+: Merge.merge (Merge.ofLayers ((s.layers shelf).map (matching stem))) ∧
          (s.overwrite run damaged).scan stem = .ok (shown.map decodeItem ++
            [.error (.corrupted (s.filePath run.name) (.mismatch offset))]) := by
  have hfile := s.find?_overwrite run damaged
  rcases (h.lies _ hp).describes.scan_of_burst hb hfile (s.filePath run.name) stem with
    ⟨hne, hscan⟩ | ⟨front, offset, hfront, hscan⟩
  · refine Or.inl ⟨hne, ?_⟩
    rw [scan, h.runSources_overwrite hp hscan, h.sourcesWith_matching hp, tableSource_overwrite,
      scan, h.runSources_eq, tableSource_eq]
  · obtain ⟨shown, hshown, hmerge⟩ :=
      h.merge_sourcesWith hp hfront (.corrupted (s.filePath run.name) (.mismatch offset))
    refine Or.inr ⟨shown, offset, hshown, ?_⟩
    rw [scan, h.runSources_overwrite hp hscan, tableSource_overwrite]
    simp only [Except.map, hmerge, List.map_append]
    rfl

end Intact

/-- What a scan of a store gives after a burst in one record of a run. -/
theorem scan_reports_burst {settings : SpillSettings} {host : Host} {path : String}
    (hs : create settings host path = .ok s) (ht : Store.applyAll s ops = .ok t)
    (hrun : run ∈ t.runs) :
    ∃ content, t.folder.find? run.name = some (.file content) ∧
      ∀ damaged, Run.Burst content damaged → ∀ stem,
        ∃ items, t.scan stem = .ok items ∧ (∀ item ∈ items, ¬ IsCorrupted item) ∧
          (stem ≠ [] ∧ (t.overwrite run damaged).scan stem = .ok items ∨
            ∃ front offset, front <+: items ∧ (t.overwrite run damaged).scan stem =
              .ok (front ++ [.error (.corrupted (t.filePath run.name) (.mismatch offset))])) := by
  obtain ⟨rows, shelf, h, hrows⟩ := (Holds.create hs).stores.applyAll ht
  obtain ⟨⟨r, es⟩, hp, rfl⟩ : ∃ p ∈ shelf, p.1 = run := by
    rw [h.runs] at hrun
    exact List.mem_map.mp hrun
  refine ⟨_, (h.lies _ hp).file, fun damaged hb stem => ⟨_, h.scan_eq stem, ?_, ?_⟩⟩
  · obtain ⟨pairs, hscan, -⟩ := exists_scan ⟨shelf, h, hrows⟩ stem
    rw [← Except.ok.inj (hscan.symm.trans (h.scan_eq stem))]
    intro item hitem
    obtain ⟨p, -, rfl⟩ := List.mem_map.mp hitem
    exact not_isCorrupted_decodeItem p
  · rcases h.scan_overwrite hp hb stem with ⟨hne, hscan⟩ | ⟨shown, offset, hshown, hscan⟩
    · exact Or.inl ⟨hne, hscan.trans (h.scan_eq stem)⟩
    · exact Or.inr ⟨_, offset, hshown.map decodeItem, hscan⟩

theorem scan_reports_burst_in_key :
    ∃ s t run damaged,
      create ⟨"/tmp", 1, 2, 1⟩ Host.plain "/tmp/store" = .ok s ∧
      Store.applyAll s [.put [1] ⟨.insert, []⟩] = .ok t ∧ run ∈ t.runs ∧
      t.folder.find? run.name = some (.file (Run.file [⟨[1], .present (Row.encode ⟨.insert, []⟩)⟩])) ∧
      Run.Burst (Run.file [⟨[1], .present (Row.encode ⟨.insert, []⟩)⟩]) damaged ∧
      ∀ stem, ∃ items, t.scan stem = .ok items ∧ (∀ item ∈ items, ¬ IsCorrupted item) ∧
        (stem ≠ [] ∧ (t.overwrite run damaged).scan stem = .ok items ∨
          ∃ front offset, front <+: items ∧ (t.overwrite run damaged).scan stem =
            .ok (front ++ [.error (.corrupted (t.filePath run.name) (.mismatch offset))])) := by
  have hs : create ⟨"/tmp", 1, 2, 1⟩ Host.plain "/tmp/store" =
      .ok ⟨⟨"/tmp", 1, 2, 1⟩, "/tmp/store", ∅, ∅, 0, [], 0, .zero⟩ := by cbv
  obtain ⟨t, run, ht, hrun, hfile⟩ : ∃ (t : DiskStore) (run : Run), Store.applyAll
      (⟨⟨"/tmp", 1, 2, 1⟩, "/tmp/store", ∅, ∅, 0, [], 0, .zero⟩ : DiskStore)
        [.put [1] ⟨.insert, []⟩] = .ok t ∧ run ∈ t.runs ∧ t.folder.find? run.name =
          some (.file (Run.file [⟨[1], .present (Row.encode ⟨.insert, []⟩)⟩])) :=
    ⟨_, _, rfl, List.mem_cons_self, by rfl⟩
  obtain ⟨damaged, hburst⟩ : ∃ damaged, Run.Burst
      (Run.file [⟨[1], .present (Row.encode ⟨.insert, []⟩)⟩]) damaged :=
    ⟨_, [], ⟨[1], .present (Row.encode ⟨.insert, []⟩)⟩, [], _, by decide, rfl,
      ⟨(Entry.encode ⟨[1], .present (Row.encode ⟨.insert, []⟩)⟩).take 12, [1], [2],
        Row.encode ⟨.insert, []⟩, rfl, rfl, by decide, by decide, by decide, by decide⟩, rfl⟩
  obtain ⟨content, hcontent, hscan⟩ := scan_reports_burst hs ht hrun
  obtain rfl : content = _ := Node.file.inj (Option.some.inj (hcontent.symm.trans hfile))
  exact ⟨_, t, run, damaged, hs, ht, hrun, hfile, hburst, hscan _ hburst⟩

end ChangeBuffer.DiskStore
