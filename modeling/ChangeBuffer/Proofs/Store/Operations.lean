import ChangeBuffer.Proofs.Store.Shelf

/-! # Operations on rows

What the operations of a store on disk do to the rows that its layers hold, and what a scan of the
layers gives.
-/

namespace ChangeBuffer.DiskStore

variable {s t : DiskStore} {shelf : List (Run × List Entry)} {rows : Bytes → Option Bytes}

/-- A version that is put into the table counts, whatever lies below it. -/
theorem stored?_of_table_eq {key k : Bytes} {version : Version}
    (h : t.table = s.table.insert key version) :
    stored? k (t.layers shelf) = if k = key then version.row? else stored? k (s.layers shelf) := by
  rw [stored?_layers, stored?_layers, h, SortedMap.find?_insert]
  split <;> rfl

theorem Keeps.insert (h : s.Keeps rows) (key : Bytes) (version : Version) (bytes : Nat) :
    { s with table := s.table.insert key version, tableBytes := bytes }.Keeps
      (fun k => if k = key then version.row? else rows k) := by
  obtain ⟨shelf, h, hstock, hrows⟩ := h
  refine ⟨shelf, h.of_runs_eq rfl (Nat.le_refl _), hstock, fun k => ?_⟩
  rw [stored?_of_table_eq (s := s) rfl, hrows]

theorem fits_insert (h : ∀ e ∈ s.layer, e.Fits) {key : Bytes} {version : Version}
    (he : (Entry.mk key version).Fits) (bytes : Nat) :
    ∀ e ∈ layer { s with table := s.table.insert key version, tableBytes := bytes }, e.Fits := by
  intro e hmem
  rcases SortedMap.mem_entries_insert.mp (mem_layer.mp hmem) with heq | ⟨hmem, -⟩
  · obtain ⟨hk, hv⟩ := Prod.mk.inj heq
    rwa [← hk, ← hv] at he
  · exact h e (mem_layer.mpr hmem)

theorem fits_erase (h : ∀ e ∈ s.layer, e.Fits) {key : Bytes} (bytes : Nat) :
    ∀ e ∈ layer { s with table := s.table.erase key, tableBytes := bytes }, e.Fits := by
  intro e hmem
  exact h e (mem_layer.mpr (SortedMap.mem_entries_erase.mp (mem_layer.mp hmem)).1)

theorem Ready.insert {k : Nat} (h : s.Ready k) {key : Bytes} {version : Version}
    (he : (Entry.mk key version).Fits) (bytes : Nat) :
    { s with table := s.table.insert key version, tableBytes := bytes }.Ready k :=
  ⟨h.room.congr rfl rfl, fits_insert h.fits he bytes⟩

theorem attempt_insert (h : s.Keeps rows) (key : Bytes) (version : Version) :
    Attempt ((s.Ready 2 ∧ (Entry.mk key version).Fits) ∧ s.Unobstructed)
      (fun t _ => t.Keeps (fun k => if k = key then version.row? else rows k) ∧
        ∀ k, s.Ready (2 + k) ∧ (Entry.mk key version).Fits → t.Ready k)
      (s.insert key version) := by
  simp only [DiskStore.insert]
  split
  · have hspill := attempt_spill (h.insert key version (s.tableBytes - s.charged key +
      charge key version))
    generalize spill _ = result at hspill ⊢
    obtain ⟨t, error | ⟨⟩⟩ := result
    · exact fun hs => hspill ⟨hs.1.1.insert hs.1.2 _, hs.2⟩
    · exact ⟨hspill.1, fun k hs => hspill.2 k (hs.1.insert hs.2 _)⟩
  · exact ⟨h.insert key version _, fun k hs =>
      (hs.1.insert hs.2 _).mono (Nat.le_add_left k 2)⟩

theorem attempt_remove (h : s.Keeps rows) (key : Bytes) :
    Attempt ((s.Ready 2 ∧ (Entry.mk key .removed).Fits) ∧ s.Unobstructed)
      (fun t _ => t.Keeps (fun k => if k = key then none else rows k) ∧
        ∀ k, s.Ready (2 + k) ∧ (Entry.mk key .removed).Fits → t.Ready k)
      (s.remove key) := by
  unfold remove
  split
  next hempty =>
    obtain ⟨shelf, h, hstock, hrows⟩ := h
    obtain rfl : shelf = [] := by simpa [h.runs] using hempty
    refine ⟨⟨[], h.of_runs_eq rfl (Nat.le_refl _), hstock, fun k => ?_⟩, fun k hs => ?_⟩
    · have hk := hrows k
      rw [stored?_layers] at hk ⊢
      rw [SortedMap.find?_erase]
      by_cases he : k = key
      · rw [if_pos he]
        exact (if_pos he).symm
      · rw [if_neg he, hk]
        exact (if_neg he).symm
    · have hready := hs.1.mono (Nat.le_add_left k 2)
      exact ⟨hready.room.congr rfl rfl, fits_erase hready.fits _⟩
  next => exact attempt_insert h key .removed

theorem exists_clear (h : s.Keeps rows) :
    ∃ t, s.clear = (t, .ok ()) ∧ t.Keeps (fun _ => none) ∧ ∀ k, s.Ready k → t.Ready k := by
  obtain ⟨shelf, h, hstock, -⟩ := h
  obtain ⟨folder, hfolder, -⟩ := exists_discardRuns fun run hrun => h.ne_directory hstock hrun
  have hclear : s.clear = ({ s with folder, table := ∅, tableBytes := 0, runs := [] }, .ok ()) := by
    rw [clear, hfolder]
  refine ⟨_, hclear, ⟨[], ⟨rfl, ?_, ?_, ?_⟩, ?_, fun key => rfl⟩, fun k hs =>
    ⟨hs.room.congr rfl rfl, by simp [layer_eq_nil]⟩⟩
  all_goals simp [Stocks]

theorem Shelves.scan_eq (h : s.Shelves shelf) (hstock : Stocks s.folder shelf) (stem : Bytes) :
    s.scan stem =
      .ok ((Merge.merge (Merge.ofLayers ((s.layers shelf).map (matching stem)))).map
        decodeItem) := by
  rw [scan, h.runSources_eq hstock, tableSource_eq, layers, List.map_append, Merge.ofLayers,
    Merge.ofLayers, List.map_append]
  rfl

theorem Keeps.exists_scan (h : s.Keeps rows) (stem : Bytes) :
    ∃ pairs : List (Bytes × Bytes), s.scan stem = .ok (pairs.map fun p => decodeItem (.ok p)) ∧
      pairs.Pairwise (·.1 < ·.1) ∧
      ∀ key row, (key, row) ∈ pairs ↔ stem <+: key ∧ rows key = some row := by
  obtain ⟨shelf, h, hstock, hrows⟩ := h
  have ha : Merge.AllAscending ((s.layers shelf).map (matching stem)) := by
    intro es hes
    obtain ⟨ds, hds, rfl⟩ := List.mem_map.mp hes
    exact (h.allAscending_layers ds hds).filter _
  obtain ⟨pairs, hshows, hmerge⟩ := Merge.exists_shows (ε := StoreError) ha
  refine ⟨pairs, ?_, hshows.ascending, fun key row => ?_⟩
  · rw [h.scan_eq hstock, hmerge, List.map_map]
    rfl
  · rw [hshows.mem_iff, newest?_map_matching, ← hrows, stored?_eq_some_iff]
    split <;> simp [*]

end ChangeBuffer.DiskStore
