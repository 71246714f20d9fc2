import ChangeBuffer.Proofs.Run.Merge
import ChangeBuffer.Proofs.Store.Files
import ChangeBuffer.Proofs.Traversal

/-! # Shelves

What the runs of a store hold stays the same whatever becomes of their files.  As long as the files
are there, the runs and the table on top of them are layers that decide what is stored, and the runs
can be merged.  The table can be written to a run whether the other files are there or not.
-/

namespace ChangeBuffer.DiskStore

def layer (s : DiskStore) : List Entry := s.table.entries.map fun e => ⟨e.1, e.2⟩

/-- The runs of the store, oldest first, describe the entries beside them on the shelf. -/
structure Shelves (s : DiskStore) (shelf : List (Run × List Entry)) : Prop where
  runs : s.runs = shelf.map Prod.fst
  describes : ∀ p ∈ shelf, p.1.Describes p.2
  names : (s.runs.map Run.name).Nodup
  numbered : ∀ run ∈ s.runs, ∃ n < s.nextRun, run.name = runName n

def Stocks (folder : Folder) (shelf : List (Run × List Entry)) : Prop :=
  ∀ p ∈ shelf, folder.find? p.1.name = some (.file (Run.file p.2))

def layers (s : DiskStore) (shelf : List (Run × List Entry)) : List (List Entry) :=
  shelf.map Prod.snd ++ [s.layer]

/-- The files of the runs are there, and with the table they hold the rows. -/
def Keeps (s : DiskStore) (rows : Bytes → Option Bytes) : Prop :=
  ∃ shelf, s.Shelves shelf ∧ Stocks s.folder shelf ∧
    ∀ key, stored? key (s.layers shelf) = rows key

def RoomForRuns (s : DiskStore) (k : Nat) : Prop := ∀ i < k, s.hasRoomFor (s.nextRun + i)

/-- The table can be written to a run, and there is room for `k` runs. -/
structure Ready (s : DiskStore) (k : Nat) : Prop where
  room : s.RoomForRuns k
  fits : ∀ e ∈ s.layer, e.Fits

/-- No directory stands where a run is to be written. -/
def Unobstructed (s : DiskStore) : Prop :=
  ∀ n, s.nextRun ≤ n → s.folder.find? (runName n) ≠ some .directory

variable {s t : DiskStore} {shelf : List (Run × List Entry)} {rows : Bytes → Option Bytes}
  {key : Bytes} {j k : Nat}

theorem RoomForRuns.hasRoom (h : s.RoomForRuns k) (hk : 0 < k) : s.hasRoom := h 0 hk

theorem roomForRuns_one : s.RoomForRuns 1 ↔ s.hasRoom := by
  simp [RoomForRuns, DiskStore.hasRoom]

theorem RoomForRuns.hasRoom_of_succ (h : s.RoomForRuns k) (hk : 1 < k)
    (hset : t.settings = s.settings) (hnext : t.nextRun = s.nextRun + 1) : t.hasRoom := by
  rw [DiskStore.hasRoom, hasRoomFor_congr hset, hnext]
  exact h 1 hk

theorem RoomForRuns.congr (h : s.RoomForRuns k) (hset : t.settings = s.settings)
    (hnext : t.nextRun = s.nextRun) : t.RoomForRuns k := by
  intro i hi
  rw [hasRoomFor_congr hset, hnext]
  exact h i hi

theorem RoomForRuns.later (h : s.RoomForRuns (j + k)) (hset : t.settings = s.settings)
    (hfrom : s.nextRun ≤ t.nextRun) (hto : t.nextRun ≤ s.nextRun + j) : t.RoomForRuns k := by
  intro i hi
  obtain ⟨d, hd⟩ := Nat.exists_eq_add_of_le hfrom
  rw [hasRoomFor_congr hset, hd, Nat.add_assoc]
  exact h (d + i) (by omega)

theorem Ready.mono (h : s.Ready k) (hjk : j ≤ k) : s.Ready j :=
  ⟨fun i hi => h.room i (Nat.lt_of_lt_of_le hi hjk), h.fits⟩

theorem mem_layer {e : Entry} : e ∈ s.layer ↔ (e.key, e.version) ∈ s.table.entries := by
  simp only [layer, List.mem_map]
  constructor
  · rintro ⟨d, hd, rfl⟩
    exact hd
  · exact fun h => ⟨_, h, rfl⟩

theorem ascending_layer (s : DiskStore) : Ascending s.layer :=
  List.Pairwise.map _ (fun _ _ h => h) s.table.ascending

theorem version?_layer (key : Bytes) : version? key s.layer = s.table.find? key := by
  apply Option.ext
  intro v
  rw [version?_eq_some_iff s.ascending_layer, SortedMap.find?_eq_some_iff, mem_layer]

theorem tableSource_eq (stem : Bytes) : s.tableSource stem = (matching stem s.layer).map .ok := by
  simp [tableSource, matching, layer, List.filter_map, Function.comp_def]

theorem layer_eq_nil (h : s.table = ∅) : s.layer = [] := by rw [layer, h]; rfl

theorem stored?_layers (key : Bytes) (shelf : List (Run × List Entry)) :
    stored? key (s.layers shelf) =
      (s.table.find? key).elim (stored? key (shelf.map Prod.snd)) Version.row? := by
  rw [layers, stored?_append_singleton, version?_layer]

theorem runSources_eq_map (hruns : s.runs = shelf.map Prod.fst) {stem : Bytes}
    {source : Run × List Entry → Merge.Source StoreError}
    (h : ∀ p ∈ shelf, p.1.scan s.folder (s.filePath p.1.name) stem = .ok (source p)) :
    s.runSources stem = .ok (shelf.map source) := by
  rw [runSources, hruns, mapM_eq_ok_iff, List.forall₂_map_left_iff, List.forall₂_map_right_iff,
    List.forall₂_same]
  exact h

theorem find?_ne_directory_of_runSources {stem : Bytes}
    {sources : List (Merge.Source StoreError)} (h : s.runSources stem = .ok sources) {run : Run}
    (hrun : run ∈ s.runs) : s.folder.find? run.name ≠ some .directory := by
  intro hdir
  have hscan : run.scan s.folder (s.filePath run.name) stem =
      .error (.corrupted (s.filePath run.name) (.unreadableHeader .isDirectory)) := by
    simp only [Run.scan, hdir]
  obtain ⟨e, he⟩ := exists_mapM_error (fun run : Run => run.scan s.folder (s.filePath run.name) stem)
    hrun hscan
  cases he.symm.trans h

theorem runName_not_mem_names (hnumbered : ∀ r ∈ s.runs, ∃ n < s.nextRun, r.name = runName n)
    {n : Nat} (hn : s.nextRun ≤ n) : runName n ∉ s.runs.map Run.name := by
  intro hmem
  obtain ⟨r, hr, heq⟩ := List.mem_map.mp hmem
  obtain ⟨m, hm, hname⟩ := hnumbered r hr
  exact Nat.ne_of_lt (Nat.lt_of_lt_of_le hm hn) (runName_inj (hname.symm.trans heq))

namespace Shelves

theorem of_runs_eq (h : s.Shelves shelf) (hruns : t.runs = s.runs) (hnext : s.nextRun ≤ t.nextRun) :
    t.Shelves shelf where
  runs := hruns.trans h.runs
  describes := h.describes
  names := hruns ▸ h.names
  numbered run hrun := by
    obtain ⟨n, hn, hname⟩ := h.numbered run (hruns ▸ hrun)
    exact ⟨n, Nat.lt_of_lt_of_le hn hnext, hname⟩

theorem runSources_eq (h : s.Shelves shelf) (hstock : Stocks s.folder shelf) (stem : Bytes) :
    s.runSources stem = .ok (Merge.ofLayers ((shelf.map Prod.snd).map (matching stem))) := by
  have hscan : ∀ p ∈ shelf, p.1.scan s.folder (s.filePath p.1.name) stem =
      .ok ((matching stem p.2).map .ok) :=
    fun p hp => (h.describes p hp).scan_eq (hstock p hp) _ _
  rw [runSources_eq_map h.runs hscan, Merge.ofLayers, List.map_map, List.map_map]
  rfl

theorem allAscending (h : s.Shelves shelf) : Merge.AllAscending (shelf.map Prod.snd) := by
  intro es hes
  obtain ⟨p, hp, rfl⟩ := List.mem_map.mp hes
  exact (h.describes p hp).ascending

theorem allAscending_layers (h : s.Shelves shelf) : Merge.AllAscending (s.layers shelf) := by
  intro es hes
  rcases List.mem_append.mp hes with hes | hes
  · exact h.allAscending es hes
  · rw [List.mem_singleton.mp hes]
    exact s.ascending_layer

theorem fits (h : s.Shelves shelf) {es : List Entry} (hes : es ∈ shelf.map Prod.snd) {e : Entry}
    (he : e ∈ es) : e.Fits := by
  obtain ⟨p, hp, rfl⟩ := List.mem_map.mp hes
  exact (h.describes p hp).fits e he

theorem mem_names (h : s.Shelves shelf) {p : Run × List Entry} (hp : p ∈ shelf) :
    p.1.name ∈ s.runs.map Run.name := by
  rw [h.runs]
  exact List.mem_map_of_mem (List.mem_map_of_mem hp)

theorem runName_not_mem (h : s.Shelves shelf) : runName s.nextRun ∉ s.runs.map Run.name :=
  runName_not_mem_names h.numbered (Nat.le_refl _)

theorem name_ne (h : s.Shelves shelf) {p : Run × List Entry} (hp : p ∈ shelf) :
    p.1.name ≠ runName s.nextRun := fun he => h.runName_not_mem (he ▸ h.mem_names hp)

theorem ne_directory (h : s.Shelves shelf) (hstock : Stocks s.folder shelf) {run : Run}
    (hrun : run ∈ s.runs) : s.folder.find? run.name ≠ some .directory := by
  rw [h.runs] at hrun
  obtain ⟨p, hp, rfl⟩ := List.mem_map.mp hrun
  rw [hstock p hp]
  simp

theorem exists_merged (h : s.Shelves shelf) :
    ∃ es, Ascending es ∧ (∀ e ∈ es, e.Fits) ∧
      (∀ key, stored? key [es] = stored? key (shelf.map Prod.snd)) ∧
      (Merge.merge (Merge.ofLayers (ε := StoreError) (shelf.map Prod.snd))).map
        (fun item => item.map fun (key, row) => Entry.mk key (.present row)) = es.map .ok := by
  obtain ⟨pairs, hshows, hmerge⟩ := Merge.exists_shows (ε := StoreError) h.allAscending
  have hasc : Ascending (pairs.map fun p => Entry.mk p.1 (.present p.2)) :=
    List.Pairwise.map _ (fun _ _ h => h) hshows.ascending
  have hmem (key : Bytes) (v : Version) :
      ⟨key, v⟩ ∈ (pairs.map fun p => Entry.mk p.1 (.present p.2)) ↔
        ∃ row, v = .present row ∧ (key, row) ∈ pairs := by
    simp only [List.mem_map, Entry.mk.injEq]
    constructor
    · rintro ⟨p, hp, rfl, rfl⟩
      exact ⟨p.2, rfl, hp⟩
    · rintro ⟨row, rfl, hp⟩
      exact ⟨_, hp, rfl, rfl⟩
  refine ⟨_, hasc, fun e he => ?_, fun key => Option.ext fun row => ?_, ?_⟩
  · obtain ⟨row, hv, hp⟩ := (hmem e.key e.version).mp he
    obtain ⟨es, hes, hmem⟩ := exists_mem_of_newest? ((hshows.mem_iff e.key row).mp hp)
    have hmem : e ∈ es := by rwa [← hv] at hmem
    exact h.fits hes hmem
  · rw [stored?_eq_some_iff, newest?_singleton, version?_eq_some_iff hasc, hmem,
      stored?_eq_some_iff, ← hshows.mem_iff]
    simp
  · rw [hmerge, List.map_map, List.map_map]
    rfl

end Shelves

/-- The folder is that of the store without the files of its runs, but for a file under the name of
the next run. -/
def Merged (s : DiskStore) (folder : Folder) : Prop :=
  ∃ written, s.Wrote written ∧
    ∀ name, folder.find? name = if name ∈ s.runs.map Run.name then none else written.find? name

theorem Merged.find?_ne_directory {folder : Folder} (h : s.Merged folder) {name : String}
    (hdir : s.folder.find? name ≠ some .directory) : folder.find? name ≠ some .directory := by
  obtain ⟨written, hwrote, hfind⟩ := h
  rw [hfind]
  split
  · simp
  · exact hwrote.find?_ne_directory hdir

theorem mergeRuns_cases (s : DiskStore) :
    (∃ folder e, s.mergeRuns = ({ s with nextRun := s.nextRun + 1, folder }, .error e) ∧
        s.Wrote folder) ∨
      ∃ run folder tally, s.mergeRuns =
          ({ s with nextRun := s.nextRun + 1, folder, runs := [run], tally }, .ok ()) ∧
        run.name = runName s.nextRun ∧ s.Merged folder := by
  unfold mergeRuns
  cases hsources : s.runSources [] with
  | error e =>
    obtain ⟨folder, error, hwrite, hfolder⟩ := exists_writeRun_error s e
    exact .inl ⟨folder, error, by simp only [hwrite], hfolder⟩
  | ok sources =>
    obtain ⟨folder, result, hwrite, hfolder, hname⟩ := exists_writeRun s
      ((Merge.merge sources).map fun item => item.map fun (key, row) => ⟨key, .present row⟩)
    simp only [hwrite]
    cases result with
    | error e => exact .inl ⟨folder, e, rfl, hfolder⟩
    | ok run =>
      have hdir : ∀ r ∈ s.runs, folder.find? r.name ≠ some .directory := fun r hr =>
        hfolder.find?_ne_directory (find?_ne_directory_of_runSources hsources hr)
      obtain ⟨g, hg, hfind⟩ := exists_discardRuns hdir
      simp only [hg]
      exact .inr ⟨run, g, _, rfl, hname run rfl, folder, hfolder, hfind⟩

theorem attempt_mergeRuns (h : s.Keeps rows) :
    Attempt (s.hasRoom ∧ s.Unobstructed)
      (fun t _ => t.Keeps rows ∧ t.settings = s.settings ∧ t.table = s.table ∧
        t.nextRun = s.nextRun + 1) s.mergeRuns := by
  obtain ⟨shelf, h, hstock, hrows⟩ := h
  obtain ⟨es, hasc, hfits, hstored, hitems⟩ := h.exists_merged
  have hwrite := attempt_writeRun (s := s) hasc
  have hall : (shelf.map Prod.snd).map (matching []) = shelf.map Prod.snd := by simp
  unfold mergeRuns
  rw [h.runSources_eq hstock, hall]
  simp only [hitems]
  generalize s.writeRun (es.map .ok) = result at hwrite ⊢
  obtain ⟨t, error | run⟩ := result
  · exact fun hs => hwrite ⟨hs.1, hs.2 _ (Nat.le_refl _), hfits⟩
  obtain ⟨-, hdescribes, hname, rfl⟩ := hwrite
  have hdir : ∀ r ∈ s.runs, (s.folder.insert (runName s.nextRun) (.file (Run.file es))).find? r.name ≠
      some .directory := fun r hr =>
    Wrote.find?_ne_directory (.inr ⟨_, rfl⟩) (h.ne_directory hstock hr)
  obtain ⟨g, hg, hfind⟩ := exists_discardRuns hdir
  simp only [hg]
  refine ⟨⟨[(run, es)], ⟨rfl, ?_, by simp, ?_⟩, ?_, fun key => ?_⟩, rfl, rfl, rfl⟩
  · intro p hp
    obtain rfl := List.mem_singleton.mp hp
    exact hdescribes
  · intro r hr
    obtain rfl := List.mem_singleton.mp hr
    exact ⟨s.nextRun, Nat.lt_succ_self _, hname⟩
  · intro p hp
    obtain rfl := List.mem_singleton.mp hp
    rw [hfind, if_neg (hname ▸ h.runName_not_mem), SortedMap.find?_insert, if_pos hname]
  · rw [← hrows, stored?_layers, stored?_layers]
    exact congrArg (Option.elim _ · _) (hstored key)

def spilled (s : DiskStore) (run : Run) : DiskStore where
  settings := s.settings
  path := s.path
  folder := s.folder.insert (runName s.nextRun) (.file (Run.file s.layer))
  table := ∅
  tableBytes := 0
  runs := s.runs ++ [run]
  nextRun := s.nextRun + 1
  tally := { s.tally with runs := s.tally.runs + 1, bytes := s.tally.bytes + run.size }

/-- An empty table is not spilled.  Another one stays as it is if its run cannot be written, and
otherwise the runs may have to be merged. -/
theorem spill_cases (s : DiskStore) :
    s.table.isEmpty ∧ s.spill = (s, .ok ()) ∨
      (∃ folder e, s.spill = ({ s with nextRun := s.nextRun + 1, folder }, .error e) ∧
        s.Wrote folder ∧ ¬ (s.Ready 1 ∧ s.Unobstructed)) ∨
      ∃ run, s.hasRoom ∧ run.Describes s.layer ∧ run.name = runName s.nextRun ∧
        s.spill = if s.settings.maxRuns ≤ (s.spilled run).runs.length then (s.spilled run).mergeRuns
          else (s.spilled run, .ok ()) := by
  unfold spill
  split
  next hempty => exact .inl ⟨hempty, rfl⟩
  right
  have hwrite := attempt_writeRun (s := s) s.ascending_layer
  obtain ⟨folder, result, heq, hfolder, -⟩ := exists_writeRun s (s.layer.map .ok)
  rw [tableSource_eq, matching_nil_stem]
  rw [heq] at hwrite ⊢
  cases result with
  | error e =>
    refine .inl ⟨folder, e, rfl, hfolder, fun hs => hwrite ?_⟩
    exact ⟨hs.1.room.hasRoom Nat.one_pos, hs.2 _ (Nat.le_refl _), hs.1.fits⟩
  | ok run =>
    obtain ⟨hroom, hdescribes, hname, hstore⟩ := hwrite
    obtain rfl : folder = _ := congrArg DiskStore.folder hstore
    exact .inr ⟨run, hroom, hdescribes, hname, rfl⟩

section Numbers

variable {run : Run} (hnumbered : ∀ r ∈ s.runs, ∃ n < s.nextRun, r.name = runName n)
include hnumbered

theorem nodup_names_spilled (hnames : (s.runs.map Run.name).Nodup)
    (hname : run.name = runName s.nextRun) : ((s.spilled run).runs.map Run.name).Nodup := by
  rw [DiskStore.spilled, List.map_append, List.nodup_append]
  refine ⟨hnames, by simp, fun name hmem other ho => ?_⟩
  rw [List.mem_singleton.mp ho, hname]
  exact fun he => runName_not_mem_names hnumbered (Nat.le_refl _) (he ▸ hmem)

theorem numbered_spilled (hname : run.name = runName s.nextRun) :
    ∀ r ∈ (s.spilled run).runs, ∃ n < (s.spilled run).nextRun, r.name = runName n := by
  intro r hr
  rcases List.mem_append.mp hr with hr | hr
  · obtain ⟨n, hn, hname⟩ := hnumbered r hr
    exact ⟨n, Nat.lt_succ_of_lt hn, hname⟩
  · obtain rfl := List.mem_singleton.mp hr
    exact ⟨s.nextRun, Nat.lt_succ_self _, hname⟩

end Numbers

theorem Shelves.spilled (h : s.Shelves shelf) {run : Run} (hd : run.Describes s.layer)
    (hname : run.name = runName s.nextRun) :
    (s.spilled run).Shelves (shelf ++ [(run, s.layer)]) where
  runs := by
    rw [List.map_append, ← h.runs]
    rfl
  describes p hp := by
    rcases List.mem_append.mp hp with hp | hp
    · exact h.describes p hp
    · obtain rfl := List.mem_singleton.mp hp
      exact hd
  names := nodup_names_spilled h.numbered h.names hname
  numbered := numbered_spilled h.numbered hname

theorem Shelves.stocks_spilled (h : s.Shelves shelf) (hstock : Stocks s.folder shelf) {run : Run}
    (hname : run.name = runName s.nextRun) :
    Stocks (s.spilled run).folder (shelf ++ [(run, s.layer)]) := by
  intro p hp
  rw [DiskStore.spilled, SortedMap.find?_insert]
  rcases List.mem_append.mp hp with hp | hp
  · rw [if_neg (h.name_ne hp), hstock p hp]
  · obtain rfl := List.mem_singleton.mp hp
    rw [if_pos hname]

theorem stored?_spilled (key : Bytes) (shelf : List (Run × List Entry)) (run : Run) :
    stored? key ((s.spilled run).layers (shelf ++ [(run, s.layer)])) =
      stored? key (s.layers shelf) := by
  rw [stored?_layers, List.map_append]
  rfl

theorem Unobstructed.spilled (h : s.Unobstructed) (run : Run) : (s.spilled run).Unobstructed := by
  intro n hn
  rw [DiskStore.spilled, SortedMap.find?_insert]
  split
  · simp
  · exact h n (Nat.le_of_succ_le hn)

theorem Ready.of_table_eq_empty (hs : s.Ready (j + k)) (hset : t.settings = s.settings)
    (hfrom : s.nextRun ≤ t.nextRun) (hto : t.nextRun ≤ s.nextRun + j) (htable : t.table = ∅) :
    t.Ready k :=
  ⟨hs.room.later hset hfrom hto, by simp [layer_eq_nil htable]⟩

/-- Writing the table to a run keeps the rows.  It takes two runs at most. -/
theorem attempt_spill (h : s.Keeps rows) :
    Attempt (s.Ready 2 ∧ s.Unobstructed)
      (fun t _ => t.Keeps rows ∧ ∀ k, s.Ready (2 + k) → t.Ready k) s.spill := by
  rcases s.spill_cases with ⟨-, heq⟩ | ⟨folder, e, heq, -, hfails⟩ | ⟨run, -, hdescribes, hname, heq⟩
  · rw [heq]
    exact ⟨h, fun k hready => hready.mono (Nat.le_add_left k 2)⟩
  · rw [heq]
    exact fun hs => hfails ⟨hs.1.mono (by decide), hs.2⟩
  · obtain ⟨shelf, h, hstock, hrows⟩ := h
    have hkeeps : (s.spilled run).Keeps rows :=
      ⟨_, h.spilled hdescribes hname, h.stocks_spilled hstock hname, fun key => by
        rw [stored?_spilled, hrows]⟩
    rw [heq]
    split
    · have hmerge := attempt_mergeRuns hkeeps
      generalize (s.spilled run).mergeRuns = result at hmerge ⊢
      obtain ⟨t, error | ⟨⟩⟩ := result
      · intro hs
        have hroom : (s.spilled run).hasRoom := hs.1.room.hasRoom_of_succ Nat.one_lt_two rfl rfl
        exact hmerge ⟨hroom, hs.2.spilled run⟩
      · obtain ⟨hkeeps, hset, htable, hnext⟩ := hmerge
        have hnext : t.nextRun = s.nextRun + 2 := hnext
        refine ⟨hkeeps, fun k hready => hready.of_table_eq_empty hset ?_ hnext.le htable⟩
        exact hnext ▸ Nat.le_add_right _ _
    · refine ⟨hkeeps, fun k hready => hready.of_table_eq_empty rfl (Nat.le_succ _) ?_ rfl⟩
      exact Nat.le_succ _

end ChangeBuffer.DiskStore
