import ChangeBuffer.Proofs.Store.Failure

/-! # Recovery of stores

Anything may happen to the files of a store between its operations: they may be damaged or removed,
and directories may stand in the way of others.  As long as no operation goes well on damaged files,
no row is ever lost: once the files of the runs are again as they were written, the store shows what
all operations together leave behind, the failed ones included.
-/

namespace ChangeBuffer.DiskStore

def inFolder (s : DiskStore) (folder : Folder) : DiskStore := { s with folder }

abbrev Copies := String → Option Node

def Restored (s : DiskStore) (copies : Copies) (folder : Folder) : Prop :=
  ∀ run ∈ s.runs, folder.find? run.name = copies run.name

/-- What was written after an operation that left `t` behind: the files of the runs of `s` before
it, and the files of new runs by it. -/
def copiesAfter (copies : Copies) (s t : DiskStore) : Copies := fun name =>
  if name ∈ s.runs.map Run.name then copies name else t.folder.find? name

/-- Operations on `s₀`, in folders of any kind, lead to a store, with what was written for its runs.
An operation that goes well finds the files of the runs as they were written. -/
inductive Reached (s₀ : DiskStore) : List StoreOp → DiskStore → Copies → Prop
  | start : Reached s₀ [] s₀ fun _ => none
  | step {ops : List StoreOp} {s t : DiskStore} {copies : Copies} {folder : Folder} {op : StoreOp}
      {result : Except StoreError Unit} :
      Reached s₀ ops s copies → op.Sized → op.apply (s.inFolder folder) = (t, result) →
      (result = .ok () → s.Restored copies folder) →
      Reached s₀ (ops ++ [op]) t (copiesAfter copies s t)

def Shows (s : DiskStore) (m : SortedMap Bytes Row) : Prop :=
  ∀ stem, s.scan stem = .ok ((m.entries.filter (stem.isPrefixOf ·.1)).map .ok)

/-- No row is lost where an operation on `s` in a folder fails and leaves `t` behind, if `s` came of
`ops`. -/
structure LosesNothing (s t : DiskStore) (folder : Folder) (copies : Copies) (ops : List StoreOp)
    (op : StoreOp) : Prop where
  /-- The runs are still there, and at most the one that the table was written to is new. -/
  runs : t.runs = s.runs ∨ ∃ run, t.runs = s.runs ++ [run] ∧ run.name = runName s.nextRun
  files : ∀ run ∈ s.runs, t.folder.find? run.name = folder.find? run.name
  tableBytes : t.tableBytes = (t.table.entries.map fun e => charge e.1 e.2).sum
  /-- Before the operation the rows were those of the operations before it. -/
  before : ∀ f, s.Restored copies f → (s.inFolder f).Shows (contents ops)
  /-- Once the files are as they were written, the rows are as if the operation had gone well. -/
  after : ∀ f, t.Restored (copiesAfter copies s t) f → (t.inFolder f).Shows (contents (ops ++ [op]))
  numbered : ∀ run ∈ t.runs, ∃ n < t.nextRun, run.name = runName n
  /-- If nothing stands in the way any more, further operations go well, and their runs have new
  numbers. -/
  goesOn : ∀ f, t.Restored (copiesAfter copies s t) f → (t.inFolder f).Unobstructed →
    ∀ later : List StoreOp, t.Ready (2 * later.length) → (∀ d ∈ later, d.Fits) →
      ∃ u, Store.applyAll (t.inFolder f) later = .ok u ∧
        u.Shows (contents (ops ++ [op] ++ later)) ∧ (t.inFolder f).Onward u

/-- With the files that were written for its runs the store holds the rows of the map. -/
structure Recoverable (s : DiskStore) (copies : Copies) (m : SortedMap Bytes Row) : Prop where
  shelf : ∃ shelf, s.Shelves shelf ∧
    (∀ p ∈ shelf, copies p.1.name = some (.file (Run.file p.2))) ∧
    ∀ key, stored? key (s.layers shelf) = encoded m key
  sized : AllSized m
  charged : s.Charged

variable {s₀ s t : DiskStore} {copies : Copies} {folder : Folder} {m : SortedMap Bytes Row}
  {op : StoreOp} {ops : List StoreOp}

theorem copiesAfter_of_mem {name : String} (h : name ∈ s.runs.map Run.name) :
    copiesAfter copies s t name = copies name := if_pos h

theorem copiesAfter_of_not_mem {name : String} (h : name ∉ s.runs.map Run.name) :
    copiesAfter copies s t name = t.folder.find? name := if_neg h

theorem Shelves.find?_of_apply {shelf : List (Run × List Entry)} (h : s.Shelves shelf)
    {result : Except StoreError Unit} (ht : op.apply (s.inFolder folder) = (t, result)) {run : Run}
    (hrun : run ∈ t.runs) (hname : run.name ∈ s.runs.map Run.name) :
    t.folder.find? run.name = folder.find? run.name := by
  have hon := onward_apply (s.inFolder folder) op
  rw [ht] at hon
  obtain ⟨r, hr, heq⟩ := List.mem_map.mp hname
  obtain ⟨n, hn, hnumber⟩ := h.numbered r hr
  exact hon.files run hrun n hn (heq.symm.trans hnumber)

namespace Recoverable

theorem of_create {settings : SpillSettings} {host : Host} {path : String}
    (h : create settings host path = .ok s) : s.Recoverable copies ∅ := by
  obtain rfl := eq_of_create h
  refine ⟨⟨[], ⟨rfl, ?_, ?_, ?_⟩, ?_, fun key => rfl⟩, .empty, rfl⟩
  all_goals simp

/-- Whatever else is in a folder, with the files of the runs the store keeps its rows. -/
theorem keeps (h : s.Recoverable copies m) (hf : s.Restored copies folder) :
    (s.inFolder folder).Keeps (encoded m) := by
  obtain ⟨shelf, h, hcopies, hrows⟩ := h.shelf
  refine ⟨shelf, h.of_runs_eq rfl (Nat.le_refl _), fun p hp => ?_, hrows⟩
  have hrun : p.1 ∈ s.runs := by
    rw [h.runs]
    exact List.mem_map_of_mem hp
  exact (hf p.1 hrun).trans (hcopies p hp)

theorem shows (h : s.Recoverable copies m) (hf : s.Restored copies folder) :
    (s.inFolder folder).Shows m := (h.keeps hf).scan_eq h.sized

theorem apply_ok (h : s.Recoverable copies m) (hop : op.Sized) (hf : s.Restored copies folder)
    (ht : op.apply (s.inFolder folder) = (t, .ok ())) :
    t.Recoverable (copiesAfter copies s t) (op.onMap m) := by
  obtain ⟨shelf', ht', hstock, hrows⟩ := (h.keeps hf).apply ht
  have hcharged := Charged.of_apply (s := s.inFolder folder) h.charged op
  rw [ht] at hcharged
  refine ⟨⟨shelf', ht', fun p hp => ?_, hrows⟩, sized_onMap h.sized hop, hcharged⟩
  rw [← hstock p hp]
  by_cases hname : p.1.name ∈ s.runs.map Run.name
  · obtain ⟨shelf, h, -, -⟩ := h.shelf
    have hrun : p.1 ∈ t.runs := by
      rw [ht'.runs]
      exact List.mem_map_of_mem hp
    obtain ⟨r, hr, heq⟩ := List.mem_map.mp hname
    rw [copiesAfter_of_mem hname, h.find?_of_apply ht hrun hname, ← heq, hf r hr]
  · exact copiesAfter_of_not_mem hname

theorem apply_error (h : s.Recoverable copies m) (hop : op.Sized) {e : StoreError}
    (ht : op.apply (s.inFolder folder) = (t, .error e)) :
    t.Recoverable (copiesAfter copies s t) (op.onMap m) := by
  obtain ⟨shelf, hs, hcopies, hrows⟩ := h.shelf
  have hcharged := Charged.of_apply (s := s.inFolder folder) h.charged op
  rw [ht] at hcharged
  refine ⟨?_, sized_onMap h.sized hop, hcharged⟩
  by_cases hclear : op = .clear
  · -- A failed clearing leaves files behind, but no run and no entry.
    subst hclear
    obtain rfl := (Prod.mk.inj ht).1
    refine ⟨[], ⟨rfl, ?_, ?_, ?_⟩, ?_, fun key => rfl⟩
    all_goals simp [inFolder]
  · have hover : (s.inFolder folder).Shelves shelf := hs.of_runs_eq rfl (Nat.le_refl _)
    obtain ⟨added, ht, -, hstock, hname, hrows⟩ := hover.of_apply_error hrows hclear ht
    refine ⟨shelf ++ added, ht, fun p hp => ?_, hrows⟩
    rcases List.mem_append.mp hp with hp | hp
    · rw [copiesAfter_of_mem (hs.mem_names hp), hcopies p hp]
    · have hnew : p.1.name ∉ s.runs.map Run.name := by
        rw [hname p hp]
        exact hs.runName_not_mem
      rw [copiesAfter_of_not_mem hnew, hstock p hp]

end Recoverable

/-- No step loses a row, whatever the folder is that it finds. -/
theorem Reached.recoverable {settings : SpillSettings} {host : Host} {path : String}
    (hs₀ : create settings host path = .ok s₀) (h : Reached s₀ ops s copies) :
    s.Recoverable copies (contents ops) := by
  induction h with
  | start => exact .of_create hs₀
  | @step ops s t copies folder op result _ hop ht hfolder ih =>
    rw [contents_append_singleton]
    cases result with
    | error e => exact ih.apply_error hop ht
    | ok _ => exact ih.apply_ok hop (hfolder rfl) ht

/-- A put or a removal that fails loses no row. -/
theorem failed_operation_loses_nothing {settings : SpillSettings} {host : Host} {path : String}
    (hs₀ : create settings host path = .ok s₀) (hs : Reached s₀ ops s copies) (hop : op.Sized)
    (hclear : op ≠ .clear) {e : StoreError} (ht : op.apply (s.inFolder folder) = (t, .error e)) :
    LosesNothing s t folder copies ops op := by
  have hbefore := hs.recoverable hs₀
  have hafter : t.Recoverable (copiesAfter copies s t) (contents (ops ++ [op])) := by
    rw [contents_append_singleton]
    exact hbefore.apply_error hop ht
  obtain ⟨shelf, hshelf, -, hrows⟩ := hbefore.shelf
  have hin : (s.inFolder folder).Shelves shelf := hshelf.of_runs_eq rfl (Nat.le_refl _)
  obtain ⟨added, htshelf, hlen, -, hname, -⟩ := hin.of_apply_error hrows hclear ht
  have hruns : t.runs = s.runs ++ added.map Prod.fst := by
    rw [htshelf.runs, List.map_append, hshelf.runs]
  constructor
  case runs =>
    match added, hlen with
    | [], _ => exact .inl (by simpa using hruns)
    | [p], _ => exact .inr ⟨p.1, hruns, hname p List.mem_cons_self⟩
  case files =>
    intro run hrun
    have hkept : run ∈ t.runs := by
      rw [hruns]
      exact List.mem_append_left _ hrun
    exact hshelf.find?_of_apply ht hkept (List.mem_map_of_mem hrun)
  case tableBytes => exact hafter.charged
  case before => exact fun f hf => hbefore.shows hf
  case after => exact fun f hf => hafter.shows hf
  case numbered => exact htshelf.numbered
  case goesOn =>
    intro f hf hu later hready hlater
    have hready : (t.inFolder f).Ready (2 * later.length) :=
      ⟨hready.room.congr rfl rfl, hready.fits⟩
    obtain ⟨u, hu, hkeeps, hon⟩ := (hafter.keeps hf).exists_applyAll hready hu hlater
    refine ⟨u, hu, ?_, hon⟩
    rw [contents_append]
    exact hkeeps.scan_eq (sized_foldl_onMap hafter.sized fun d hd => (hlater d hd).sized)

theorem failed_operation_loses_nothing_of_missing_file :
    ∃ s₀ s t copies f, create ⟨"/tmp", 1, 2, 1⟩ Host.plain "/tmp/store" = .ok s₀ ∧
      Reached s₀ [.put [1] ⟨.insert, []⟩] s copies ∧ (StoreOp.put [2] ⟨.insert, []⟩).Sized ∧
      StoreOp.put [2] ⟨.insert, []⟩ ≠ .clear ∧
      (StoreOp.put [2] ⟨.insert, []⟩).apply (s.inFolder ∅) = (t, .error (.file .missing)) ∧
      LosesNothing s t ∅ copies [.put [1] ⟨.insert, []⟩] (.put [2] ⟨.insert, []⟩) ∧
      t.Restored (copiesAfter copies s t) f ∧ t.Ready 2 ∧ (t.inFolder f).Unobstructed := by
  have hs₀ := create_plain Nat.one_ne_zero
  have hsized (key : Bytes) : (StoreOp.put key ⟨.insert, []⟩).Sized :=
    (by decide : Row.Sized ⟨.insert, []⟩)
  have hclear : StoreOp.put [2] ⟨.insert, []⟩ ≠ .clear := by simp
  obtain ⟨s, hs, hsruns⟩ : ∃ s, (StoreOp.put [1] ⟨.insert, []⟩).apply
      (inFolder ⟨⟨"/tmp", 1, 2, 1⟩, "/tmp/store", ∅, ∅, 0, [], 0, .zero⟩ ∅) = (s, .ok ()) ∧
        s.runs.map Run.name = [runName 0] := ⟨_, rfl, rfl⟩
  have hreached := Reached.step .start (hsized [1]) hs fun _ _ hrun => absurd hrun List.not_mem_nil
  obtain ⟨t, ht, hplain, hnext, htable⟩ : ∃ t, (StoreOp.put [2] ⟨.insert, []⟩).apply (s.inFolder ∅) =
      (t, .error (.file .missing)) ∧ t.settings.scratchDirectory = "/tmp" ∧ t.nextRun = 3 ∧
        t.table = ∅ := by
    obtain rfl := (Prod.mk.inj hs).1
    exact ⟨_, rfl, rfl, rfl, rfl⟩
  have hready : t.Ready 2 :=
    ⟨fun i hi => hasRoomFor_plain hplain (by omega), by simp [layer_eq_nil htable]⟩
  obtain ⟨content, hcontent⟩ : ∃ content, s.folder.find? (runName 0) = some (.file content) := by
    obtain rfl := (Prod.mk.inj hs).1
    exact ⟨_, rfl⟩
  refine ⟨_, s, t, _, t.folder.insert (runName 0) (.file content), hs₀, hreached, hsized _, hclear, ht,
    failed_operation_loses_nothing hs₀ hreached (hsized _) hclear ht, fun run _ => ?_, hready,
    fun n _ => ?_⟩
  · rw [SortedMap.find?_insert]
    split
    next h => rw [h, copiesAfter_of_mem (by simp [hsruns]), copiesAfter_of_not_mem (by simp), hcontent]
    next h => rw [copiesAfter_of_not_mem (by simpa [hsruns] using h)]
  · have hon := onward_apply (s.inFolder ∅) (.put [2] ⟨.insert, []⟩)
    rw [ht] at hon
    change (t.folder.insert (runName 0) (.file content)).find? (runName n) ≠ _
    rw [SortedMap.find?_insert]
    split
    · simp
    · refine hon.noDirectory _ ?_
      rw [inFolder, SortedMap.find?_empty]
      simp

end ChangeBuffer.DiskStore
