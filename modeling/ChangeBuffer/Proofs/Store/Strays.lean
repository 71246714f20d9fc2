import ChangeBuffer.Proofs.Store.Recovery

/-! # Stray files

A store removes the files of its runs only.  A run that was begun and not finished is not among
them, nor is one behind a file that could not be removed, so their files stay in the directory of
the store for good.
-/

namespace ChangeBuffer

def Folder.HasFile (f : Folder) (name : String) : Prop :=
  ∃ content, f.find? name = some (.file content)

namespace DiskStore

def Stray (s : DiskStore) (name : String) : Prop :=
  s.folder.HasFile name ∧ name ∉ s.runs.map Run.name

structure Turn where
  before : DiskStore
  op : StoreOp
  after : DiskStore
  result : Except StoreError Unit

/-- The files that a turn leaves behind. -/
inductive Turn.Leaves (u : Turn) : String → Prop
  /-- A run that was begun is not finished. -/
  | unfinished {e : StoreError} {n : Nat} :
      u.op ≠ .clear → u.result = .error e → u.after.nextRun = n + 1 → u.before.hasRoomFor n →
      u.before.folder.find? (runName n) ≠ some .directory → Leaves u (runName n)
  /-- A file stands behind one that cannot be removed. -/
  | unreached {e : StoreError} {front back : List Run} {run : Run} {name : String} :
      u.op = .clear → u.result = .error e → u.before.runs = front ++ run :: back →
      u.before.folder.find? run.name = some .directory →
      name ∈ back.map Run.name → u.before.folder.HasFile name → Leaves u name

/-- Turns of operations lead from `s₀` to a store, whether they go well or fail.  In between files
may be damaged, removed and blocked, and those of runs may be put back, but no others appear. -/
inductive Past (s₀ : DiskStore) : List Turn → DiskStore → Prop
  | start : Past s₀ [] s₀
  | disturbed {turns : List Turn} {s : DiskStore} {folder : Folder} :
      Past s₀ turns s →
      (∀ name, folder.HasFile name → s.folder.HasFile name ∨ name ∈ s.runs.map Run.name) →
      Past s₀ turns (s.inFolder folder)
  | taken {turns : List Turn} {s t : DiskStore} {op : StoreOp} {result : Except StoreError Unit} :
      Past s₀ turns s → op.apply s = (t, result) → Past s₀ (turns ++ [⟨s, op, t, result⟩]) t

structure Accounted (s : DiskStore) : Prop where
  names : (s.runs.map Run.name).Nodup
  numbered : ∀ run ∈ s.runs, ∃ n < s.nextRun, run.name = runName n
  fresh : ∀ n, s.nextRun ≤ n → ¬ s.folder.HasFile (runName n)

structure Leftover (s t : DiskStore) (result : Except StoreError Unit) : Prop where
  accounted : t.Accounted
  ok : result = .ok () → ∀ name, t.Stray name ↔ s.Stray name
  error : ∀ e, result = .error e → ∃ n, s.nextRun ≤ n ∧ t.nextRun = n + 1 ∧
    ∀ name, t.Stray name ↔ s.Stray name ∨
      name = runName n ∧ s.hasRoomFor n ∧ s.folder.find? (runName n) ≠ some .directory

variable {s t : DiskStore} {run : Run} {folder : Folder} {name : String}
  {result : Except StoreError Unit}

theorem hasFile_insert {content : Bytes} {other : String} :
    Folder.HasFile (folder.insert name (.file content)) other ↔
      other = name ∨ folder.HasFile other := by
  unfold Folder.HasFile
  rw [SortedMap.find?_insert]
  by_cases he : other = name
  · simp [he]
  · simp [he]

theorem not_hasFile_of_directory (h : folder.find? name = some .directory) :
    ¬ folder.HasFile name := by
  rintro ⟨content, hcontent⟩
  cases h.symm.trans hcontent

theorem not_hasFile_empty : ¬ Folder.HasFile ∅ name := by
  simp [Folder.HasFile, SortedMap.find?_empty]

theorem hasFile_congr {f g : Folder} (h : f.find? name = g.find? name) :
    f.HasFile name ↔ g.HasFile name := by
  unfold Folder.HasFile
  rw [h]

namespace Accounted

theorem wrote (h : s.Accounted) {folder : Folder} (hf : s.Wrote folder) :
    Accounted { s with nextRun := s.nextRun + 1, folder } where
  names := h.names
  numbered run hrun := by
    obtain ⟨n, hn, hname⟩ := h.numbered run hrun
    exact ⟨n, Nat.lt_succ_of_lt hn, hname⟩
  fresh n hn := by
    have hne : runName n ≠ runName s.nextRun := fun he => Nat.ne_of_gt hn (runName_inj he)
    rw [hasFile_congr (hf.find?_eq hne)]
    exact h.fresh n (Nat.le_of_succ_le hn)

theorem spilled (h : s.Accounted) (hname : run.name = runName s.nextRun) :
    (s.spilled run).Accounted where
  names := nodup_names_spilled h.numbered h.names hname
  numbered := numbered_spilled h.numbered hname
  fresh := (h.wrote (.inr ⟨_, rfl⟩)).fresh

end Accounted

theorem stray_spilled (ha : s.Accounted) (hname : run.name = runName s.nextRun) :
    (s.spilled run).Stray name ↔ s.Stray name := by
  simp only [Stray, DiskStore.spilled, hasFile_insert, List.map_append, List.map_cons,
    List.map_nil, List.mem_append, List.mem_singleton, hname, not_or]
  constructor
  · rintro ⟨rfl | hfile, hold, hnew⟩
    · exact absurd rfl hnew
    · exact ⟨hfile, hold⟩
  · rintro ⟨hfile, hold⟩
    refine ⟨.inr hfile, hold, ?_⟩
    rintro rfl
    exact ha.fresh _ (Nat.le_refl _) hfile

theorem wrote_of_writeRun {items : List (Except StoreError Entry)} {written : Except StoreError Run}
    (h : s.writeRun items = (t, written)) : s.Wrote t.folder ∧ t.runs = s.runs := by
  obtain ⟨folder, written', heq, hwrote, -⟩ := exists_writeRun s items
  obtain rfl := (Prod.mk.inj (h.symm.trans heq)).1
  exact ⟨hwrote, rfl⟩

theorem exists_writeRun_of_mergeRuns {e : StoreError} (h : s.mergeRuns = (t, .error e)) :
    ∃ items, s.writeRun items = (t, .error e) := by
  unfold mergeRuns at h
  cases hsources : s.runSources [] with
  | error fault =>
    obtain ⟨folder, error, hwrite, -⟩ := exists_writeRun_error s fault
    simp only [hsources, hwrite] at h
    cases h
    exact ⟨_, hwrite⟩
  | ok sources =>
    simp only [hsources] at h
    split at h
    next hwrite =>
      cases h
      exact ⟨_, hwrite⟩
    next u run hwrite =>
      obtain ⟨hwrote, hruns⟩ := wrote_of_writeRun hwrite
      have hdir : ∀ r ∈ u.runs, u.folder.find? r.name ≠ some .directory := fun r hr =>
        hwrote.find?_ne_directory (find?_ne_directory_of_runSources hsources (hruns ▸ hr))
      obtain ⟨g, hg, -⟩ := exists_discardRuns hdir
      simp only [hg] at h
      cases h

namespace Leftover

theorem of_writeRun {items : List (Except StoreError Entry)} {e : StoreError}
    (ha : s.Accounted) (h : s.writeRun items = (t, .error e)) : s.Leftover t (.error e) := by
  obtain ⟨folder, result, heq, hwrote, -⟩ := exists_writeRun s items
  have hfolder := s.folder_writeRun items
  rw [heq] at hfolder
  obtain ⟨rfl, rfl⟩ := Prod.mk.inj (h.symm.trans heq)
  refine ⟨ha.wrote hwrote, by simp, fun e' _ => ⟨s.nextRun, Nat.le_refl _, rfl, fun name => ?_⟩⟩
  obtain ⟨content, hroom, hdir, rfl⟩ | ⟨hnone, rfl⟩ := hfolder
  · have hnew : name = runName s.nextRun → name ∉ s.runs.map Run.name := by
      rintro rfl
      exact runName_not_mem_names ha.numbered (Nat.le_refl _)
    simp only [Stray, hasFile_insert, or_and_right, or_comm (a := name = _ ∧ _)]
    exact or_congr_right ⟨fun h => ⟨h.1, hroom, hdir⟩, fun h => ⟨h.1, hnew h.1⟩⟩
  · exact (or_iff_left fun h => hnone h.2).symm

/-- Merging runs fails only where the merged run is not finished, and otherwise each run that is
given up takes its file with it. -/
theorem of_mergeRuns (ha : s.Accounted) (h : s.mergeRuns = (t, result)) :
    s.Leftover t result := by
  obtain ⟨folder, e, heq, -⟩ | ⟨run, folder, tally, heq, hname, written, hwrote, hfind⟩ :=
    s.mergeRuns_cases
  · obtain ⟨rfl, rfl⟩ := Prod.mk.inj (h.symm.trans heq)
    obtain ⟨items, hitems⟩ := exists_writeRun_of_mergeRuns heq
    exact .of_writeRun ha hitems
  · obtain ⟨rfl, rfl⟩ := Prod.mk.inj (h.symm.trans heq)
    have hfile (name : String) : folder.HasFile name ↔
        name ∉ s.runs.map Run.name ∧ written.HasFile name := by
      unfold Folder.HasFile
      rw [hfind]
      split <;> simp [*]
    have hold {name : String} (hne : name ≠ runName s.nextRun) :
        written.HasFile name ↔ s.folder.HasFile name := hasFile_congr (hwrote.find?_eq hne)
    refine ⟨⟨by simp, ?_, fun n hn hn' => ?_⟩, fun _ name => ?_, by simp⟩
    · intro r hr
      obtain rfl := List.mem_singleton.mp hr
      exact ⟨s.nextRun, Nat.lt_succ_self _, hname⟩
    · exact (ha.wrote hwrote).fresh n hn ((hfile _).mp hn').2
    · simp only [Stray, hfile, List.map_cons, List.map_nil, List.mem_singleton, hname]
      constructor
      · rintro ⟨⟨hnone, hwritten⟩, hne⟩
        exact ⟨(hold hne).mp hwritten, hnone⟩
      · rintro ⟨hthere, hnone⟩
        have hne : name ≠ runName s.nextRun := by
          rintro rfl
          exact ha.fresh _ (Nat.le_refl _) hthere
        exact ⟨⟨hnone, (hold hne).mpr hthere⟩, hne⟩

theorem refl (ha : s.Accounted) : s.Leftover s (.ok ()) :=
  ⟨ha, fun _ _ => Iff.rfl, by simp⟩

theorem of_spilled (ha : s.Accounted) (hname : run.name = runName s.nextRun)
    (h : (s.spilled run).Leftover t result) : s.Leftover t result where
  accounted := h.accounted
  ok hresult name := (h.ok hresult name).trans (stray_spilled ha hname)
  error e hresult := by
    obtain ⟨n, hn, hnext, hstray⟩ := h.error e hresult
    refine ⟨n, Nat.le_of_succ_le hn, hnext, fun other => ?_⟩
    have hne : runName n ≠ runName s.nextRun := fun he => Nat.ne_of_gt hn (runName_inj he)
    have hfind : (s.spilled run).folder.find? (runName n) = s.folder.find? (runName n) :=
      Wrote.find?_eq (.inr ⟨_, rfl⟩) hne
    rw [hstray, stray_spilled ha hname, hfind]
    rfl

theorem of_spill (ha : s.Accounted) (h : s.spill = (t, result)) : s.Leftover t result := by
  unfold spill at h
  split at h
  · cases h
    exact .refl ha
  rw [tableSource_eq, matching_nil_stem] at h
  have hwrite := attempt_writeRun (s := s) s.ascending_layer
  rcases hu : s.writeRun (s.layer.map .ok) with ⟨u, e | run⟩
  · rw [hu] at h
    cases h
    exact .of_writeRun ha hu
  · rw [hu] at h hwrite
    obtain ⟨-, -, hname, rfl⟩ := hwrite
    refine of_spilled ha hname ?_
    change (if s.settings.maxRuns ≤ (s.spilled run).runs.length then (s.spilled run).mergeRuns
      else (s.spilled run, .ok ())) = (t, result) at h
    split at h
    · exact .of_mergeRuns (ha.spilled hname) h
    · cases h
      exact .refl (ha.spilled hname)

theorem of_insert {key : Bytes} {version : Version} (ha : s.Accounted)
    (h : s.insert key version = (t, result)) : s.Leftover t result := by
  have htable : Accounted { s with
      table := s.table.insert key version
      tableBytes := s.tableBytes - s.charged key + charge key version } :=
    ⟨ha.names, ha.numbered, ha.fresh⟩
  have hleft : Leftover { s with
      table := s.table.insert key version
      tableBytes := s.tableBytes - s.charged key + charge key version } t result := by
    simp only [DiskStore.insert] at h
    split at h
    · exact .of_spill htable h
    · cases h
      exact .refl htable
  exact ⟨hleft.accounted, hleft.ok, hleft.error⟩

theorem of_remove {key : Bytes} (ha : s.Accounted) (h : s.remove key = (t, result)) :
    s.Leftover t result := by
  unfold remove at h
  split at h
  · cases h
    exact ⟨⟨ha.names, ha.numbered, ha.fresh⟩, fun _ _ => Iff.rfl, by simp⟩
  · exact .of_insert ha h

theorem of_apply {op : StoreOp} (ha : s.Accounted) (hop : op ≠ .clear)
    (h : op.apply s = (t, result)) : s.Leftover t result := by
  cases op with
  | put key row => exact .of_insert ha h
  | remove key => exact .of_remove ha h
  | clear => exact absurd rfl hop

end Leftover

theorem discardRuns_cases (folder : Folder) (runs : List Run) :
    ((∀ run ∈ runs, folder.find? run.name ≠ some .directory) ∧
        (discardRuns folder runs).2 = .ok ()) ∨
      ∃ front run back g e, runs = front ++ run :: back ∧
        (∀ r ∈ front, folder.find? r.name ≠ some .directory) ∧
        folder.find? run.name = some .directory ∧ discardRuns folder runs = (g, .error e) ∧
        ∀ name, g.find? name =
          if name ∈ front.map Run.name then none else folder.find? name := by
  induction runs generalizing folder with
  | nil => exact .inl ⟨by simp, rfl⟩
  | cons run runs ih =>
    by_cases hdir : folder.find? run.name = some .directory
    · have herror : folder.discard run.name = .error .isDirectory := by
        simp only [Folder.discard, Folder.remove, hdir]
      refine .inr ⟨[], run, runs, folder, .file .isDirectory, rfl, by simp, hdir, ?_, by simp⟩
      simp only [discardRuns, herror]
    · obtain ⟨f, hf, hfind⟩ := Folder.exists_discard hdir
      simp only [discardRuns, hf]
      have hsame (name : String) : f.find? name = some .directory ↔
          folder.find? name = some .directory := by
        rw [hfind]
        split
        next he => simp [he, hdir]
        next => rfl
      obtain ⟨hall, hok⟩ | ⟨front, stuck, back, g, e, hruns, hfront, hstuck, heq, hg⟩ := ih f
      · refine .inl ⟨fun r hr => ?_, hok⟩
        rcases List.mem_cons.mp hr with rfl | hr
        · exact hdir
        · exact fun h => hall r hr ((hsame _).mpr h)
      · refine .inr ⟨run :: front, stuck, back, g, e, by rw [hruns, List.cons_append],
          fun r hr => ?_, (hsame _).mp hstuck, heq, fun name => ?_⟩
        · rcases List.mem_cons.mp hr with rfl | hr
          · exact hdir
          · exact fun h => hfront r hr ((hsame _).mpr h)
        · rw [hg, hfind, List.map_cons]
          by_cases hn : name = run.name <;> simp [hn]

theorem Accounted.of_clear (ha : s.Accounted) (h : s.clear = (t, result)) : t.Accounted := by
  obtain rfl : s.clear.1 = t := congrArg Prod.fst h
  refine ⟨List.nodup_nil, nofun, fun n hn => ?_⟩
  rintro ⟨content, hcontent⟩
  obtain hsame | hnone := find?_discardRuns s.folder s.runs (runName n)
  · exact ha.fresh n hn ⟨content, hsame.symm.trans hcontent⟩
  · cases hnone.symm.trans hcontent

theorem hasFile_of_clear (h : s.clear = (t, .ok ())) :
    t.folder.HasFile name ↔ s.Stray name := by
  obtain ⟨hdir, -⟩ | ⟨front, run, back, g, e, -, -, -, heq, -⟩ := discardRuns_cases s.folder s.runs
  · obtain ⟨g, hg, hfind⟩ := exists_discardRuns hdir
    rw [clear, hg] at h
    obtain rfl := (Prod.mk.inj h).1
    unfold Stray Folder.HasFile
    rw [hfind]
    split <;> simp [*]
  · rw [clear, heq] at h
    cases h

theorem not_mem_front {runs front back front' back' : List Run} {run' : Run}
    (hnames : (runs.map Run.name).Nodup) (hruns : runs = front ++ run :: back)
    (hfront : ∀ r ∈ front, folder.find? r.name ≠ some .directory)
    (hruns' : runs = front' ++ run' :: back') (hrun' : folder.find? run'.name = some .directory)
    (hname : name ∈ back'.map Run.name) : name ∉ front.map Run.name := by
  intro hmem
  have hsub : front ⊆ front' := by
    obtain ⟨between, rfl, -⟩ | ⟨between, rfl, hrest⟩ :=
      List.append_eq_append_iff.mp (hruns.symm.trans hruns')
    · exact List.subset_append_left _ _
    · cases between with
      | nil => simp
      | cons first between =>
        obtain rfl := (List.cons.inj hrest).1
        exact absurd hrun' (hfront run' (by simp))
  rw [hruns', List.map_append, List.map_cons] at hnames
  exact (List.nodup_append.mp hnames).2.2 name (List.map_subset _ hsub hmem) name
    (List.mem_cons_of_mem _ hname) rfl

/-- A clearing that fails leaves the files behind the first that it cannot remove. -/
theorem stray_of_clear_error {e : StoreError} (ha : s.Accounted) (h : s.clear = (t, .error e)) :
    t.Stray name ↔ s.Stray name ∨ Turn.Leaves ⟨s, .clear, t, .error e⟩ name := by
  obtain ⟨-, hok⟩ | ⟨front, run, back, g, error, hruns, hfront, hrun, heq, hfind⟩ :=
    discardRuns_cases s.folder s.runs
  · exact absurd (congrArg Prod.snd h) (by simp [clear, hok])
  have hclear := h
  rw [clear, heq] at hclear
  obtain rfl := (Prod.mk.inj hclear).1
  have hstray : Stray { s with folder := g, table := ∅, tableBytes := 0, runs := [] } name ↔
      name ∉ front.map Run.name ∧ s.folder.HasFile name := by
    unfold Stray Folder.HasFile
    rw [hfind]
    split <;> simp [*]
  rw [hstray]
  constructor
  · rintro ⟨hfront', hfile⟩
    by_cases hmem : name ∈ s.runs.map Run.name
    · refine .inr (.unreached rfl rfl hruns hrun ?_ hfile)
      rw [hruns, List.map_append, List.map_cons, List.mem_append, List.mem_cons] at hmem
      obtain hmem | rfl | hmem := hmem
      · exact absurd hmem hfront'
      · exact absurd hfile (not_hasFile_of_directory hrun)
      · exact hmem
    · exact .inl ⟨hfile, hmem⟩
  · rintro (⟨hfile, hnone⟩ | hleaves)
    · refine ⟨fun hmem => hnone ?_, hfile⟩
      rw [hruns, List.map_append]
      exact List.mem_append_left _ hmem
    · cases hleaves with
      | unfinished hop => exact absurd rfl hop
      | unreached _ _ hruns' hrun' hback hfile =>
        exact ⟨not_mem_front ha.names hruns hfront hruns' hrun' hback, hfile⟩

theorem Turn.not_leaves {u : Turn} (h : u.result = .ok ()) : ¬ u.Leaves name := by
  intro hleaves
  cases hleaves with
  | unfinished _ hresult => cases h.symm.trans hresult
  | unreached _ hresult => cases h.symm.trans hresult

/-- What was stray stays so, and what else becomes so is left by the operation. -/
theorem Turn.stray_iff {u : Turn} (ha : u.before.Accounted)
    (h : u.op.apply u.before = (u.after, u.result)) :
    u.after.Stray name ↔ u.before.Stray name ∨ u.Leaves name := by
  obtain ⟨s, op, t, result⟩ := u
  by_cases hop : op = .clear
  · subst hop
    cases result with
    | error e => exact stray_of_clear_error ha h
    | ok _ =>
      have hruns : t.runs = [] := by
        obtain rfl : s.clear.1 = t := congrArg Prod.fst h
        rfl
      rw [or_iff_left (not_leaves rfl), ← hasFile_of_clear h, Stray, hruns]
      simp
  · have hleft := Leftover.of_apply ha hop h
    cases result with
    | ok _ => exact (hleft.ok rfl name).trans (or_iff_left (not_leaves rfl)).symm
    | error e =>
      obtain ⟨n, -, hnext, hstray⟩ := hleft.error e rfl
      rw [hstray]
      refine or_congr_right ⟨?_, ?_⟩
      · rintro ⟨rfl, hroom, hdir⟩
        exact .unfinished hop rfl hnext hroom hdir
      · rintro (⟨-, -, hnext', hroom, hdir⟩ | ⟨hclear⟩)
        · obtain rfl : n = _ := Nat.succ.inj (hnext.symm.trans hnext')
          exact ⟨rfl, hroom, hdir⟩
        · exact absurd hclear hop

theorem Past.accounted {s₀ : DiskStore} {turns : List Turn} (hs₀ : s₀.Accounted)
    (h : s₀.Past turns s) :
    s.Accounted ∧ ∀ u ∈ turns, u.before.Accounted ∧ u.op.apply u.before = (u.after, u.result) := by
  induction h with
  | start => exact ⟨hs₀, by simp⟩
  | disturbed _ hfolder ih =>
    refine ⟨⟨ih.1.names, ih.1.numbered, fun n hn hfile => ?_⟩, ih.2⟩
    obtain hthere | hmem := hfolder _ hfile
    · exact ih.1.fresh n hn hthere
    · exact runName_not_mem_names ih.1.numbered hn hmem
  | @taken turns s t op result _ ht ih =>
    refine ⟨?_, fun u hu => ?_⟩
    · by_cases hop : op = .clear
      · subst hop
        exact ih.1.of_clear ht
      · exact (Leftover.of_apply ih.1 hop ht).accounted
    · rcases List.mem_append.mp hu with hu | hu
      · exact ih.2 u hu
      · obtain rfl := List.mem_singleton.mp hu
        exact ⟨ih.1, ht⟩

theorem Past.exists_leaves {s₀ : DiskStore} {turns : List Turn} (hs₀ : s₀.Accounted)
    (hnone : ∀ name, ¬ s₀.Stray name) (h : s₀.Past turns s) (hname : s.Stray name) :
    ∃ u ∈ turns, u.Leaves name := by
  induction h with
  | start => exact absurd hname (hnone name)
  | disturbed _ hfolder ih =>
    obtain hthere | hmem := hfolder name hname.1
    · exact ih ⟨hthere, hname.2⟩
    · exact absurd hmem hname.2
  | @taken turns s t op result hpast ht ih =>
    obtain hstray | hleaves := (Turn.stray_iff (u := ⟨s, op, t, result⟩)
      (hpast.accounted hs₀).1 ht).mp hname
    · obtain ⟨u, hu, hleaves⟩ := ih hstray
      exact ⟨u, List.mem_append_left _ hu, hleaves⟩
    · exact ⟨_, by simp, hleaves⟩

theorem accounted_of_create {settings : SpillSettings} {host : Host} {path : String}
    (h : create settings host path = .ok s) : s.Accounted ∧ ∀ name, ¬ s.Stray name := by
  obtain rfl := eq_of_create h
  exact ⟨⟨List.nodup_nil, nofun, fun n _ => not_hasFile_empty⟩, fun name h =>
    not_hasFile_empty h.1⟩

/-- A clearing that goes well removes every file but those that failed operations before it have
left behind, whether runs that were not finished or runs that an earlier clearing did not reach.
These no operation ever removes. -/
theorem clear_leaves_what_failures_left {settings : SpillSettings} {host : Host} {path : String}
    {s₀ : DiskStore} {turns : List Turn} (hs₀ : create settings host path = .ok s₀)
    (hs : s₀.Past turns s) (ht : s.clear = (t, .ok ())) :
    (∀ name, t.folder.HasFile name ↔ s.Stray name) ∧
      (∀ u ∈ turns, ∀ name, u.after.Stray name ↔ u.before.Stray name ∨ u.Leaves name) ∧
      (∀ name, s.Stray name → ∃ u ∈ turns, u.Leaves name) ∧
      ((∀ u ∈ turns, u.result = .ok ()) → ∀ name, ¬ t.folder.HasFile name) := by
  obtain ⟨ha, hnone⟩ := accounted_of_create hs₀
  have hleaves (name : String) (hname : s.Stray name) := hs.exists_leaves ha hnone hname
  refine ⟨fun name => hasFile_of_clear ht, fun u hu name => ?_, hleaves, fun hok name hfile => ?_⟩
  · obtain ⟨hbefore, hafter⟩ := (hs.accounted ha).2 u hu
    exact Turn.stray_iff hbefore hafter
  · obtain ⟨u, hu, hleft⟩ := hleaves name ((hasFile_of_clear ht).mp hfile)
    exact Turn.not_leaves (hok u hu) hleft

theorem clear_leaves_what_failures_left_of_directory :
    ∃ s₀ turns s t, create ⟨"/tmp", 1, 3, 1⟩ Host.plain "/tmp/store" = .ok s₀ ∧ s₀.Past turns s ∧
      turns.map Turn.result = [.ok (), .ok (), .error (.file .isDirectory)] ∧
      s.clear = (t, .ok ()) ∧ t.folder.HasFile "run-00000001.spill" ∧
      (∀ name, t.folder.HasFile name ↔ s.Stray name) ∧
      (∀ u ∈ turns, ∀ name, u.after.Stray name ↔ u.before.Stray name ∨ u.Leaves name) ∧
      ∀ name, s.Stray name → ∃ u ∈ turns, u.Leaves name := by
  have hs₀ : create ⟨"/tmp", 1, 3, 1⟩ Host.plain "/tmp/store" =
      .ok ⟨⟨"/tmp", 1, 3, 1⟩, "/tmp/store", ∅, ∅, 0, [], 0, .zero⟩ := by cbv
  obtain ⟨f, hone⟩ : ∃ f, (StoreOp.put [1] ⟨.insert, []⟩).apply
      (DiskStore.mk ⟨"/tmp", 1, 3, 1⟩ "/tmp/store" ∅ ∅ 0 [] 0 .zero) =
        (⟨⟨"/tmp", 1, 3, 1⟩, "/tmp/store", f, ∅, 0, [⟨"run-00000000.spill", 1, 31, [([1], 6)]⟩], 1,
          ⟨1, 31, 0⟩⟩, .ok ()) := ⟨_, rfl⟩
  obtain ⟨g, htwo⟩ : ∃ g, (StoreOp.put [2] ⟨.insert, []⟩).apply
      (DiskStore.mk ⟨"/tmp", 1, 3, 1⟩ "/tmp/store" ∅ ∅ 0
        [⟨"run-00000000.spill", 1, 31, [([1], 6)]⟩] 1 ⟨1, 31, 0⟩) =
        (⟨⟨"/tmp", 1, 3, 1⟩, "/tmp/store", g, ∅, 0, [⟨"run-00000000.spill", 1, 31, [([1], 6)]⟩,
          ⟨"run-00000001.spill", 1, 31, [([2], 6)]⟩], 2, ⟨2, 62, 0⟩⟩, .ok ()) := ⟨_, rfl⟩
  -- A directory stands in place of the first run, so a clearing does not reach the second.
  obtain ⟨t, hthree, hfile⟩ : ∃ t, StoreOp.clear.apply (DiskStore.mk ⟨"/tmp", 1, 3, 1⟩ "/tmp/store"
      (SortedMap.insert (SortedMap.insert ∅ "run-00000000.spill" .directory)
        "run-00000001.spill" (.file [])) ∅ 0 [⟨"run-00000000.spill", 1, 31, [([1], 6)]⟩,
          ⟨"run-00000001.spill", 1, 31, [([2], 6)]⟩] 2 ⟨2, 62, 0⟩) =
        (t, .error (.file .isDirectory)) ∧
      t.folder.HasFile "run-00000001.spill" := ⟨_, rfl, _, rfl⟩
  have hpast := Past.taken (.disturbed (.taken (.disturbed (.taken .start hone)
    fun name hname => absurd hname not_hasFile_empty) htwo) fun name hname => ?_) hthree
  · have ht : t.clear = (t, .ok ()) := by
      obtain rfl := (Prod.mk.inj hthree).1
      rfl
    obtain ⟨hleft, hturns, hstray, -⟩ := clear_leaves_what_failures_left hs₀ hpast ht
    exact ⟨_, _, t, t, hs₀, hpast, rfl, ht, hfile, hleft, hturns, hstray⟩
  · obtain rfl | ⟨content, hcontent⟩ := hasFile_insert.mp hname
    · exact .inr (List.mem_cons_of_mem _ List.mem_cons_self)
    · rw [SortedMap.find?_insert, SortedMap.find?_empty] at hcontent
      split at hcontent <;> cases hcontent

/-- A merge that finds a file missing leaves its own behind, and no clearing removes that. -/
theorem clear_leaves_unfinished_merge :
    ∃ s₀ turns s t, create ⟨"/tmp", 1, 2, 1⟩ Host.plain "/tmp/store" = .ok s₀ ∧ s₀.Past turns s ∧
      turns.map (fun u => (u.op, u.result)) =
        [(.put [97] ⟨.insert, []⟩, .ok ()), (.put [98] ⟨.insert, []⟩, .error (.file .missing))] ∧
      s.clear = (t, .ok ()) ∧ t.folder.HasFile "run-00000002.spill" := by
  obtain ⟨s, hone⟩ : ∃ s, (StoreOp.put [97] ⟨.insert, []⟩).apply
      (DiskStore.mk ⟨"/tmp", 1, 2, 1⟩ "/tmp/store" ∅ ∅ 0 [] 0 .zero) = (s, .ok ()) :=
    ⟨_, rfl⟩
  obtain ⟨t, u, htwo, hclear, hfile⟩ : ∃ t u, (StoreOp.put [98] ⟨.insert, []⟩).apply
      (s.inFolder ∅) = (t, .error (.file .missing)) ∧ t.clear = (u, .ok ()) ∧
        u.folder.HasFile "run-00000002.spill" := by
    obtain rfl := (Prod.mk.inj hone).1
    exact ⟨_, _, rfl, rfl, _, rfl⟩
  have hpast := Past.taken (.disturbed (.taken .start hone)
    fun name hname => absurd hname not_hasFile_empty) htwo
  exact ⟨_, _, t, u, create_plain Nat.one_ne_zero, hpast, rfl, hclear, hfile⟩

end DiskStore

end ChangeBuffer
