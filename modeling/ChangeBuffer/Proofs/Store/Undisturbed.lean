import ChangeBuffer.Proofs.Store.Failure

/-! # Undisturbed stores

As long as nobody else touches its files, a store stays within its bounds, whether its operations go
well or fail: it counts the bytes of its table, its runs are few, and each has a file of its own.
No other file is left behind and the table stays small, unless something is too long to be written.
-/

namespace ChangeBuffer

def Store.performAll {σ : Type} [Store σ] (s : σ) (ops : List StoreOp) : σ :=
  ops.foldl (fun s op => (op.apply s).1) s

theorem Store.performAll_append {σ : Type} [Store σ] (s : σ) (ops later : List StoreOp) :
    performAll s (ops ++ later) = performAll (performAll s ops) later :=
  List.foldl_append

namespace DiskStore

/-- What a store knows of itself is right. -/
structure Sound (s : DiskStore) : Prop where
  tableBytes : s.tableBytes = (s.table.entries.map fun e => charge e.1 e.2).sum
  charged_le : ∀ key, s.charged key ≤ s.tableBytes
  runs_lt : s.hasRoom → s.runs.length < s.settings.maxRuns
  noMark : s.runs = [] → ∀ e ∈ s.table.entries, e.2 ≠ .removed
  names : (s.runs.map Run.name).Nodup
  files : ∀ run ∈ s.runs, ∃ es, s.folder.find? run.name = some (.file (Run.file es)) ∧
    (Run.file es).length = run.size ∧ Ascending es
  sizeHint : ∃ items, s.scan [] = .ok items ∧ items.length ≤ s.sizeHint

/-- What operations keep as long as nobody else touches the files of the store. -/
structure Undisturbed (s : DiskStore) : Prop where
  shelf : ∃ shelf, s.Shelves shelf ∧ Stocks s.folder shelf
  noDirectory : ∀ name, s.folder.find? name ≠ some .directory
  charged : s.Charged
  two_le : 2 ≤ s.settings.maxRuns
  runs_lt : s.hasRoom → s.runs.length < s.settings.maxRuns
  noMark : s.runs = [] → ∀ e ∈ s.table.entries, e.2 ≠ .removed

def Owned (s : DiskStore) : Prop :=
  ∀ name, s.folder.find? name ≠ none → name ∈ s.runs.map Run.name

/-- What operations keep as well if everything is short enough to be written. -/
structure Tidy (s : DiskStore) : Prop where
  owned : s.Owned
  fits : ∀ e ∈ s.layer, e.Fits
  tableBytes_le : s.hasRoom → s.tableBytes ≤ s.settings.tableLimit

variable {s t : DiskStore} {shelf : List (Run × List Entry)} {key : Bytes} {version : Version}
  {run : Run} {folder : Folder}

namespace Owned

theorem spilled (h : s.Owned) (hname : run.name = runName s.nextRun) : (s.spilled run).Owned := by
  intro name hfile
  rw [DiskStore.spilled, List.map_append, List.mem_append, List.map_singleton, List.mem_singleton]
  by_cases hn : name = runName s.nextRun
  · exact Or.inr (hn.trans hname.symm)
  · rw [DiskStore.spilled, SortedMap.find?_insert, if_neg hn] at hfile
    exact Or.inl (h name hfile)

theorem merged (h : s.Owned) (hm : s.Merged folder) (hname : run.name = runName s.nextRun)
    (tally : SpillTally) :
    { s with nextRun := s.nextRun + 1, folder, runs := [run], tally }.Owned := by
  intro name hfile
  obtain ⟨written, hwrote, hfind⟩ := hm
  have hnew : name ∉ s.runs.map Run.name := by
    intro hold
    exact hfile (by rw [hfind, if_pos hold])
  rw [hfind, if_neg hnew] at hfile
  rcases hwrote with rfl | ⟨content, rfl⟩
  · exact absurd (h name hfile) hnew
  · by_cases hn : name = runName s.nextRun
    · exact List.mem_singleton.mpr (hn.trans hname.symm)
    · rw [SortedMap.find?_insert, if_neg hn] at hfile
      exact absurd (h name hfile) hnew

end Owned

theorem two_le_of_create {settings : SpillSettings} {host : Host} {path : String}
    (h : create settings host path = .ok s) : 2 ≤ settings.maxRuns := by
  unfold create at h
  split at h
  · cases h
  next hfault =>
    unfold SpillSettings.fault? at hfault
    split at hfault
    · cases hfault
    split at hfault
    · cases hfault
    split at hfault
    · cases hfault
    next hmany => exact Nat.le_of_not_lt hmany

theorem hasRoom_of_succ (h : hasRoomFor s (s.nextRun + 1)) : s.hasRoom :=
  hasRoomFor_of_le (Nat.le_succ _) h

namespace Undisturbed

theorem unobstructed (h : s.Undisturbed) : s.Unobstructed := fun n _ => h.noDirectory (runName n)

theorem wrote (h : s.Undisturbed) (hw : s.Wrote folder) :
    { s with nextRun := s.nextRun + 1, folder }.Undisturbed := by
  obtain ⟨shelf, hshelf, hstock⟩ := h.shelf
  refine ⟨⟨shelf, hshelf.of_runs_eq rfl (Nat.le_succ _), fun p hp => ?_⟩, fun name => ?_, h.charged,
    h.two_le, fun hroom => h.runs_lt (hasRoom_of_succ hroom), h.noMark⟩
  · exact (hw.find?_eq (hshelf.name_ne hp)).trans (hstock p hp)
  · exact hw.find?_ne_directory (h.noDirectory name)

theorem keeps_spilled (h : s.Undisturbed) (hd : run.Describes s.layer)
    (hname : run.name = runName s.nextRun) :
    ∃ rows, (s.spilled run).Keeps rows := by
  obtain ⟨shelf, hshelf, hstock⟩ := h.shelf
  exact ⟨_, _, hshelf.spilled hd hname, hshelf.stocks_spilled hstock hname, fun _ => rfl⟩

theorem noDirectory_spilled (h : s.Undisturbed) (run : Run) (name : String) :
    (s.spilled run).folder.find? name ≠ some .directory :=
  Wrote.find?_ne_directory (.inr ⟨_, rfl⟩) (h.noDirectory name)

theorem spilled (h : s.Undisturbed) (hd : run.Describes s.layer)
    (hname : run.name = runName s.nextRun)
    (hfew : (s.spilled run).hasRoom → (s.spilled run).runs.length < s.settings.maxRuns) :
    (s.spilled run).Undisturbed := by
  obtain ⟨rows, shelf, hshelf, hstock, -⟩ := h.keeps_spilled hd hname
  refine ⟨⟨shelf, hshelf, hstock⟩, h.noDirectory_spilled run, rfl, h.two_le, hfew, fun _ e he => ?_⟩
  exact absurd he SortedMap.not_mem_empty

theorem of_merged (h : s.Undisturbed) {rows : Bytes → Option Bytes} {run' : Run}
    {tally : SpillTally} (hm : (s.spilled run).Merged folder)
    (ht : Keeps { s.spilled run with nextRun := s.nextRun + 2, folder, runs := [run'], tally } rows) :
    Undisturbed { s.spilled run with nextRun := s.nextRun + 2, folder, runs := [run'], tally } := by
  obtain ⟨shelf, hshelf, hstock, -⟩ := ht
  refine ⟨⟨shelf, hshelf, hstock⟩, fun name => ?_, rfl, h.two_le, fun _ => h.two_le,
    fun hruns => ?_⟩
  · exact hm.find?_ne_directory (h.noDirectory_spilled run name)
  · cases hruns

/-- A table that has been spilled is empty, though there may be no room to merge the runs.  It may
be that it cannot be spilled, and if its entries fit that is for lack of room, and no file is left
behind. -/
theorem spill_outcome (h : s.Undisturbed) :
    s.table.isEmpty ∧ s.spill = (s, .ok ()) ∨
      (∃ folder e, s.spill = ({ s with nextRun := s.nextRun + 1, folder }, .error e) ∧
        s.Wrote folder ∧ ((∀ e ∈ s.layer, e.Fits) → s.hasRoom = false ∧ folder = s.folder)) ∨
      ∃ t result, s.spill = (t, result) ∧ t.Undisturbed ∧ t.table = ∅ ∧ t.tableBytes = 0 ∧
        (s.Owned → t.Owned) := by
  rcases s.spill_cases with hempty | ⟨folder, e, heq, hwrote, hfails⟩ |
    ⟨run, -, hdescribes, hname, heq⟩
  · exact Or.inl hempty
  · refine Or.inr (Or.inl ⟨folder, e, heq, hwrote, fun hfits => ?_⟩)
    have hroom : s.hasRoom = false := by
      by_contra hroom
      exact hfails ⟨⟨roomForRuns_one.mpr (eq_true_of_ne_false hroom), hfits⟩, h.unobstructed⟩
    have htable : s.table.isEmpty = false := by
      by_contra hempty
      rw [spill, if_pos (eq_true_of_ne_false hempty)] at heq
      cases (Prod.mk.inj heq).2
    have hsame := congrArg (·.1.folder) (heq.symm.trans (spill_of_not_hasRoom hroom htable))
    exact ⟨hroom, hsame⟩
  · refine Or.inr (Or.inr ?_)
    rw [heq]
    split
    next =>
      by_cases hroom : (s.spilled run).hasRoom
      · obtain ⟨rows, hkeeps⟩ := h.keeps_spilled hdescribes hname
        obtain ⟨t, ⟨⟩, hmerge, hkeeps, -⟩ :=
          (attempt_mergeRuns hkeeps).exists_ok ⟨hroom, h.unobstructed.spilled run⟩
        rcases (s.spilled run).mergeRuns_cases with ⟨folder, e, herror, -⟩ |
          ⟨merged, folder, tally, hok, hname', hmerged⟩
        · cases hmerge.symm.trans herror
        · obtain rfl := (Prod.mk.inj (hmerge.symm.trans hok)).1
          exact ⟨_, _, hok, h.of_merged hmerged hkeeps, rfl, rfl, fun ho =>
            (ho.spilled hname).merged hmerged hname' tally⟩
      · have ht := h.spilled hdescribes hname fun hroom' => absurd hroom' hroom
        exact ⟨_, _, mergeRuns_of_not_hasRoom (eq_false_of_ne_true hroom), ht.wrote (.inl rfl), rfl,
          rfl, fun ho => ho.spilled hname⟩
    next hfew =>
      exact ⟨_, _, rfl, h.spilled hdescribes hname fun _ => Nat.lt_of_not_le hfew, rfl, rfl,
        fun ho => ho.spilled hname⟩

theorem spill (h : s.Undisturbed) : s.spill.1.Undisturbed := by
  rcases h.spill_outcome with ⟨-, heq⟩ | ⟨folder, e, heq, hwrote, -⟩ | ⟨t, result, heq, ht, -⟩
  · rwa [heq]
  · rw [heq]
    exact h.wrote hwrote
  · rwa [heq]

theorem put_table (h : s.Undisturbed) (hmark : s.runs = [] → version ≠ .removed) :
    Undisturbed { s with
      table := s.table.insert key version
      tableBytes := s.tableBytes - s.charged key + charge key version } := by
  obtain ⟨shelf, hshelf, hstock⟩ := h.shelf
  refine ⟨⟨shelf, hshelf.of_runs_eq rfl (Nat.le_refl _), hstock⟩, h.noDirectory,
    h.charged.insert key version, h.two_le, h.runs_lt, fun hruns e he => ?_⟩
  rcases SortedMap.mem_entries_insert.mp he with rfl | ⟨he, -⟩
  · exact hmark hruns
  · exact h.noMark hruns e he

theorem insert (h : s.Undisturbed) (hmark : s.runs = [] → version ≠ .removed) :
    (s.insert key version).1.Undisturbed := by
  simp only [DiskStore.insert]
  split
  · exact (h.put_table hmark).spill
  · exact h.put_table hmark

theorem remove (h : s.Undisturbed) : (s.remove key).1.Undisturbed := by
  unfold DiskStore.remove
  split
  next hempty =>
    obtain ⟨shelf, hshelf, hstock⟩ := h.shelf
    refine ⟨⟨shelf, hshelf.of_runs_eq rfl (Nat.le_refl _), hstock⟩, h.noDirectory,
      h.charged.erase key, h.two_le, h.runs_lt, fun hruns e he => ?_⟩
    exact h.noMark hruns e (SortedMap.mem_entries_erase.mp he).1
  next hruns => exact h.insert fun hempty => absurd (List.isEmpty_iff.mpr hempty) hruns

theorem clear (h : s.Undisturbed) : s.clear.1.Undisturbed := by
  have ho := onward_clear s
  refine ⟨⟨[], ⟨rfl, ?_, .nil, ?_⟩, ?_⟩, fun name => ho.noDirectory name (h.noDirectory name), rfl,
    h.two_le, fun _ => Nat.lt_of_lt_of_le Nat.two_pos h.two_le, fun _ e he => ?_⟩
  · rintro p hp
    cases hp
  · rintro run hrun
    cases hrun
  · rintro p hp
    cases hp
  · exact absurd he SortedMap.not_mem_empty

theorem apply (h : s.Undisturbed) (op : StoreOp) : (op.apply s).1.Undisturbed := by
  cases op with
  | put key row => exact h.insert fun _ => nofun
  | remove key => exact h.remove
  | clear => exact h.clear

theorem create {settings : SpillSettings} {host : Host} {path : String}
    (hs : create settings host path = .ok s) : s.Undisturbed := by
  have hmax := two_le_of_create hs
  obtain rfl := eq_of_create hs
  refine ⟨⟨[], ⟨rfl, ?_, .nil, ?_⟩, ?_⟩, fun name => nofun, rfl, hmax,
    fun _ => Nat.lt_of_lt_of_le Nat.two_pos hmax, fun _ e he => absurd he SortedMap.not_mem_empty⟩
  all_goals simp [Stocks]

end Undisturbed

namespace Tidy

variable {op : StoreOp}

theorem spill (hs : s.Undisturbed) (ho : s.Owned) (hfits : ∀ e ∈ s.layer, e.Fits)
    (hne : s.table.isEmpty = false) : s.spill.1.Tidy := by
  rcases hs.spill_outcome with ⟨hempty, -⟩ | ⟨folder, e, heq, -, hroom⟩ |
    ⟨t, result, heq, -, htable, hbytes, howned⟩
  · simp [hne] at hempty
  · obtain ⟨hfull, rfl⟩ := hroom hfits
    rw [heq]
    refine ⟨ho, hfits, fun hroom => ?_⟩
    cases hfull.symm.trans (hasRoom_of_succ hroom)
  · rw [heq]
    refine ⟨howned ho, by simp [layer_eq_nil htable], fun _ => ?_⟩
    rw [hbytes]
    exact Nat.zero_le _

theorem insert (h : s.Tidy) (hs : s.Undisturbed) (hmark : s.runs = [] → version ≠ .removed)
    (hfits : (Entry.mk key version).Fits) : (s.insert key version).1.Tidy := by
  have hlayer := fits_insert h.fits hfits (s.tableBytes - s.charged key + charge key version)
  simp only [DiskStore.insert]
  split
  next => exact spill (hs.put_table hmark) h.owned hlayer SortedMap.isEmpty_insert
  next hsmall => exact ⟨h.owned, hlayer, fun _ => Nat.le_of_not_lt hsmall⟩

theorem remove (h : s.Tidy) (hs : s.Undisturbed) (hfits : (Entry.mk key .removed).Fits) :
    (s.remove key).1.Tidy := by
  unfold DiskStore.remove
  split
  next =>
    refine ⟨h.owned, fits_erase h.fits _, fun hroom => ?_⟩
    exact Nat.le_trans (Nat.sub_le _ _) (h.tableBytes_le hroom)
  next hruns =>
    exact h.insert hs (fun hempty => absurd (List.isEmpty_iff.mpr hempty) hruns) hfits

theorem clear (h : s.Tidy) (hs : s.Undisturbed) : s.clear.1.Tidy := by
  have hdir : ∀ run ∈ s.runs, s.folder.find? run.name ≠ some .directory :=
    fun run _ => hs.noDirectory run.name
  obtain ⟨folder, hfolder, hfind⟩ := exists_discardRuns hdir
  have hclear : s.clear.1 = { s with folder, table := ∅, tableBytes := 0, runs := [] } := by
    rw [DiskStore.clear, hfolder]
  rw [hclear]
  refine ⟨fun name hfile => ?_, by simp [layer_eq_nil], fun _ => Nat.zero_le _⟩
  have hnew : name ∉ s.runs.map Run.name := by
    intro hold
    exact hfile (by rw [hfind, if_pos hold])
  rw [hfind, if_neg hnew] at hfile
  exact absurd (h.owned name hfile) hnew

theorem apply (h : s.Tidy) (hs : s.Undisturbed) (hop : op.Fits) : (op.apply s).1.Tidy := by
  cases op with
  | put key row => exact h.insert hs (fun _ => nofun) (Entry.fits_iff.mpr hop)
  | remove key => exact h.remove hs (Entry.fits_iff.mpr ⟨hop, (by decide : 0 < removedMark)⟩)
  | clear => exact h.clear hs

theorem create {settings : SpillSettings} {host : Host} {path : String}
    (hs : create settings host path = .ok s) : s.Tidy := by
  obtain rfl := eq_of_create hs
  refine ⟨fun name hfile => absurd SortedMap.find?_empty hfile, by simp [layer_eq_nil], fun _ =>
    Nat.zero_le _⟩

end Tidy

section History

variable {ops : List StoreOp}

theorem onward_performAll (s : DiskStore) (ops : List StoreOp) :
    s.Onward (Store.performAll s ops) := by
  induction ops generalizing s with
  | nil => exact .refl s
  | cons op ops ih => exact (onward_apply s op).trans (ih _)

theorem nextRun_mergeRuns (s : DiskStore) : s.mergeRuns.1.nextRun = s.nextRun + 1 := by
  rcases s.mergeRuns_cases with ⟨folder, e, heq, -⟩ | ⟨run, folder, tally, heq, -⟩
  all_goals rw [heq]

theorem nextRun_spill_le (s : DiskStore) : s.spill.1.nextRun ≤ s.nextRun + 2 := by
  rcases s.spill_cases with ⟨-, heq⟩ | ⟨folder, e, heq, -⟩ | ⟨run, -, -, -, heq⟩
  · rw [heq]
    exact Nat.le_add_right _ 2
  · rw [heq]
    exact Nat.le_succ _
  · rw [heq]
    split
    · exact (nextRun_mergeRuns _).le
    · exact Nat.le_succ _

theorem nextRun_insert_le (s : DiskStore) (key : Bytes) (version : Version) :
    (s.insert key version).1.nextRun ≤ s.nextRun + 2 := by
  simp only [DiskStore.insert]
  split
  · exact nextRun_spill_le _
  · exact Nat.le_add_right _ 2

theorem nextRun_apply_le (s : DiskStore) (op : StoreOp) :
    (op.apply s).1.nextRun ≤ s.nextRun + 2 := by
  cases op with
  | put key row => exact nextRun_insert_le s key _
  | remove key =>
    simp only [StoreOp.apply, Store.remove, DiskStore.remove]
    split
    · exact Nat.le_add_right _ 2
    · exact nextRun_insert_le s key .removed
  | clear => exact Nat.le_add_right _ 2

theorem nextRun_performAll_le (s : DiskStore) (ops : List StoreOp) :
    (Store.performAll s ops).nextRun ≤ s.nextRun + 2 * ops.length := by
  induction ops generalizing s with
  | nil => exact Nat.le_refl _
  | cons op ops ih =>
    have hfirst := nextRun_apply_le s op
    have hrest : (Store.performAll s (op :: ops)).nextRun ≤ _ := ih (op.apply s).1
    rw [List.length_cons]
    omega

theorem Undisturbed.performAll (h : s.Undisturbed) (ops : List StoreOp) :
    (Store.performAll s ops).Undisturbed := by
  induction ops generalizing s with
  | nil => exact h
  | cons op ops ih => exact ih (h.apply op)

theorem Tidy.performAll (h : s.Tidy) (hs : s.Undisturbed) (hops : ∀ op ∈ ops, op.Fits) :
    (Store.performAll s ops).Tidy := by
  induction ops generalizing s with
  | nil => exact h
  | cons op ops ih =>
    exact ih (h.apply hs (hops op List.mem_cons_self)) (hs.apply op) fun d hd =>
      hops d (List.mem_cons_of_mem _ hd)

end History

theorem Shelves.length_flatten_layers (h : s.Shelves shelf) :
    (s.layers shelf).flatten.length = s.sizeHint := by
  have hcount : (shelf.map fun p => p.2.length) = shelf.map fun p => p.1.entries :=
    List.map_congr_left fun p hp => (h.describes p hp).count.symm
  have htable : s.layer.length = s.table.size := List.length_map _
  rw [layers, List.flatten_append, List.length_append, List.length_flatten, List.map_map,
    List.flatten_singleton, htable, sizeHint, h.runs, List.map_map, Nat.add_comm]
  exact congrArg (fun counts => s.table.size + counts.sum) hcount

theorem Shelves.length_scan_le (h : s.Shelves shelf) (hstock : Stocks s.folder shelf) :
    ∃ items, s.scan [] = .ok items ∧ items.length ≤ s.sizeHint := by
  obtain ⟨pairs, hscan, hasc, hmem⟩ := Keeps.exists_scan ⟨shelf, h, hstock, fun _ => rfl⟩ []
  have hsub : pairs.map Prod.fst ⊆ (s.layers shelf).flatten.map Entry.key := by
    rintro key hkey
    obtain ⟨⟨key, row⟩, hpair, rfl⟩ := List.mem_map.mp hkey
    have hstored := ((hmem key row).mp hpair).2
    obtain ⟨es, hes, he⟩ := exists_mem_of_newest? (stored?_eq_some_iff.mp hstored)
    exact List.mem_map.mpr ⟨_, List.mem_flatten.mpr ⟨es, hes, he⟩, rfl⟩
  refine ⟨_, hscan, ?_⟩
  calc (pairs.map fun p => decodeItem (.ok p)).length
      = (pairs.map Prod.fst).length := by rw [List.length_map, List.length_map]
    _ ≤ ((s.layers shelf).flatten.map Entry.key).length :=
      ((SortedMap.nodup_keys hasc).subperm hsub).length_le
    _ = s.sizeHint := by rw [List.length_map, h.length_flatten_layers]

namespace Undisturbed

theorem sound (h : s.Undisturbed) : s.Sound := by
  obtain ⟨shelf, hshelf, hstock⟩ := h.shelf
  constructor
  case tableBytes => exact h.charged
  case charged_le =>
    intro key
    rw [h.charged, s.total_erase key]
    exact Nat.le_add_right _ _
  case runs_lt => exact h.runs_lt
  case noMark => exact h.noMark
  case names => exact hshelf.names
  case files =>
    intro run hrun
    rw [hshelf.runs] at hrun
    obtain ⟨p, hp, rfl⟩ := List.mem_map.mp hrun
    have hdescribes := hshelf.describes p hp
    exact ⟨p.2, hstock p hp, hdescribes.size.symm, hdescribes.ascending⟩
  case sizeHint => exact hshelf.length_scan_le hstock

theorem files_perm (h : s.Undisturbed) (ho : s.Owned) :
    (s.folder.entries.map Prod.fst).Perm (s.runs.map Run.name) := by
  obtain ⟨shelf, hshelf, hstock⟩ := h.shelf
  have hnodup := SortedMap.nodup_keys s.folder.ascending
  refine (List.perm_ext_iff_of_nodup hnodup hshelf.names).mpr fun name => ?_
  constructor
  · intro hname
    obtain ⟨⟨name, node⟩, hnode, rfl⟩ := List.mem_map.mp hname
    refine ho name ?_
    rw [SortedMap.find?_eq_some_iff.mpr hnode]
    exact Option.some_ne_none node
  · intro hname
    rw [hshelf.runs, List.map_map] at hname
    obtain ⟨p, hp, rfl⟩ := List.mem_map.mp hname
    exact List.mem_map.mpr ⟨_, SortedMap.find?_eq_some_iff.mp (hstock p hp), rfl⟩

end Undisturbed

/-- After any operations, whether they went well or failed, a store whose files nobody else touches
knows itself right.  If everything was short enough to be written, its directory holds the files of
its runs and nothing else, and if it has room for the next run, its table is within the limit. -/
theorem sound_performAll {settings : SpillSettings} {host : Host} {path : String}
    (hs : create settings host path = .ok s) (ops : List StoreOp) :
    (Store.performAll s ops).Sound ∧
      ((∀ op ∈ ops, op.Fits) →
        ((Store.performAll s ops).folder.entries.map Prod.fst).Perm
            ((Store.performAll s ops).runs.map Run.name) ∧
          ((Store.performAll s ops).hasRoom →
            (Store.performAll s ops).tableBytes ≤ settings.tableLimit)) := by
  have hundisturbed := (Undisturbed.create hs).performAll ops
  refine ⟨hundisturbed.sound, fun hops => ?_⟩
  have htidy := (Tidy.create hs).performAll (.create hs) hops
  have hsettings : (Store.performAll s ops).settings = settings := by
    rw [(onward_performAll s ops).settings, eq_of_create hs]
  refine ⟨hundisturbed.files_perm htidy.owned, fun hroom => ?_⟩
  rw [← hsettings]
  exact htidy.tableBytes_le hroom

theorem sound_performAll_of_merges :
    ∃ s, create ⟨"/tmp", 1, 2, 1⟩ Host.plain "/tmp/store" = .ok s ∧
      (∀ op ∈ [.put [1] ⟨.insert, [.null]⟩, .put [2] ⟨.insert, []⟩, .remove [1]], StoreOp.Fits op) ∧
      let t := Store.performAll s
        [.put [1] ⟨.insert, [.null]⟩, .put [2] ⟨.insert, []⟩, .remove [1]]
      t.hasRoom ∧ t.Sound ∧ (t.folder.entries.map Prod.fst).Perm (t.runs.map Run.name) ∧
        t.tableBytes ≤ 1 := by
  have hs := create_plain Nat.one_ne_zero
  have hops : ∀ op ∈ [.put [1] ⟨.insert, [.null]⟩, .put [2] ⟨.insert, []⟩, .remove [1]],
      StoreOp.Fits op := by
    intro op hop
    simp only [List.mem_cons, List.not_mem_nil, or_false] at hop
    rcases hop with rfl | rfl | rfl
    · exact ⟨by decide, by decide⟩
    · exact ⟨by decide, by decide⟩
    · exact (by decide : [1].length < 2 ^ 32)
  obtain ⟨hsound, hbounds⟩ := sound_performAll hs _
  obtain ⟨hfiles, hbytes⟩ := hbounds hops
  have hnext := nextRun_performAll_le ⟨⟨"/tmp", 1, 2, 1⟩, "/tmp/store", ∅, ∅, 0, [], 0, .zero⟩
    [.put [1] ⟨.insert, [.null]⟩, .put [2] ⟨.insert, []⟩, .remove [1]]
  have hroom : hasRoom (Store.performAll
      (⟨⟨"/tmp", 1, 2, 1⟩, "/tmp/store", ∅, ∅, 0, [], 0, .zero⟩ : DiskStore) _) :=
    hasRoomFor_plain (by rw [(onward_performAll _ _).settings])
      (Nat.lt_of_le_of_lt hnext (by decide))
  exact ⟨_, hs, hops, hroom, hsound, hfiles, hbytes hroom⟩

/-- Where there is no room for a run, the table of a store grows beyond its limit. -/
theorem table_exceeds_limit_in_deep_directory :
    ∃ s, create ⟨Path.deep 4026, 1, 2, 1⟩ Host.plain "/tmp/store" = .ok s ∧
      (StoreOp.put [0x61] ⟨.insert, [.long 1]⟩).Fits ∧
      let t := Store.performAll s [.put [0x61] ⟨.insert, [.long 1]⟩]
      t.settings.tableLimit < t.tableBytes := by
  obtain ⟨s, hs⟩ : ∃ s, create ⟨Path.deep 4026, 1, 2, 1⟩ Host.plain "/tmp/store" = .ok s :=
    ⟨_, create_deep (by decide) (by decide) _⟩
  have hsettings : s.settings = ⟨Path.deep 4026, 1, 2, 1⟩ := by rw [eq_of_create hs]
  have hput := insert_deep (Nat.le_refl 4026) hsettings [0x61]
    (.present (Row.encode ⟨.insert, [.long 1]⟩))
  refine ⟨s, hs, ⟨by decide, by decide⟩, ?_⟩
  simp only [Store.performAll, List.foldl, StoreOp.apply, Store.put, put, hput, hsettings, charge,
    overhead]
  omega

theorem tableLimit_lt_of_insert (hlimit : s.settings.tableLimit < overhead) :
    s.settings.tableLimit < s.tableBytes - s.charged key + charge key version := by
  rw [charge]
  omega

theorem exists_insert_eq (hs : s.Undisturbed) (hroom : s.hasRoom) (htable : s.table = ∅)
    (hlimit : s.settings.tableLimit < overhead) (hfits : (Entry.mk key version).Fits) :
    ∃ u : DiskStore, u.table = ∅ ∧ u.settings = s.settings ∧ u.nextRun = s.nextRun + 1 ∧
      u.runs.length = s.runs.length + 1 ∧ s.insert key version =
        if s.settings.maxRuns ≤ u.runs.length then u.mergeRuns else (u, .ok ()) := by
  have hlayer := fits_insert (s := s) (by simp [layer_eq_nil htable]) hfits
    (s.tableBytes - s.charged key + charge key version)
  have hcases := spill_cases { s with
    table := s.table.insert key version
    tableBytes := s.tableBytes - s.charged key + charge key version }
  simp only [DiskStore.insert, if_pos (tableLimit_lt_of_insert hlimit)]
  rcases hcases with ⟨hempty, -⟩ | ⟨folder, e, -, -, hfails⟩ | ⟨run, -, -, -, heq⟩
  · cases hempty.symm.trans SortedMap.isEmpty_insert
  · exact absurd ⟨⟨roomForRuns_one.mpr hroom, hlayer⟩, fun n _ => hs.noDirectory _⟩ hfails
  · refine ⟨_, ?_, ?_, ?_, ?_, heq⟩
    · rfl
    · rfl
    · rfl
    · exact List.length_append

section DeepDirectory

variable {row : Row} (hs : s.Undisturbed) (hset : s.settings = ⟨Path.deep 4025, 1, 2, 1⟩)
  (hruns : s.runs = []) (htable : s.table = ∅) (hfits : (Entry.mk key (.present row.encode)).Fits)
include hs hset hruns htable hfits

theorem exists_put_eq (hnext : s.nextRun < 10 ^ 8) :
    ∃ u : DiskStore, s.put key row = (u, .ok ()) ∧ u.Undisturbed ∧ u.settings = s.settings ∧
      u.runs.length = 1 ∧ u.table = ∅ ∧ u.nextRun = s.nextRun + 1 := by
  have hroom : s.hasRoom := (hasRoomFor_deep_iff_lt (by rw [hset])).mpr hnext
  obtain ⟨u, hutable, huset, hunext, hulen, hput⟩ := exists_insert_eq hs hroom htable
    (by rw [hset]; decide) hfits
  rw [hulen, hruns, hset, if_neg (by decide)] at hput
  have hu : (s.insert key (.present row.encode)).1.Undisturbed := hs.apply (.put key row)
  rw [hput] at hu
  exact ⟨u, hput, hu, huset, by rw [hulen, hruns]; rfl, hutable, hunext⟩

theorem performAll_replicate {k : Nat} (hk : s.nextRun + k ≤ 10 ^ 8) :
    let t := Store.performAll s (List.replicate k [.put key row, .clear]).flatten
    t.runs = [] ∧ t.table = ∅ ∧ t.nextRun = s.nextRun + k := by
  induction k generalizing s with
  | zero => exact ⟨hruns, htable, rfl⟩
  | succ k ih =>
    obtain ⟨u, hput, hu, huset, -, -, hunext⟩ := exists_put_eq hs hset hruns htable hfits (by omega)
    have hfirst : Store.performAll s [.put key row, .clear] = u.clear.1 := by
      simp only [Store.performAll, List.foldl, StoreOp.apply, Store.put, hput, Store.clear]
    have hnext : u.clear.1.nextRun = s.nextRun + 1 := hunext
    simp only [List.replicate_succ, List.flatten_cons, Store.performAll_append, hfirst]
    obtain ⟨hr, ht, hn⟩ := ih hu.clear (huset.trans hset) rfl rfl (by omega)
    exact ⟨hr, ht, by rw [hn, hnext]; omega⟩

theorem length_runs_of_full (hnext : s.nextRun + 2 = 10 ^ 8) :
    (Store.performAll s [.put key row, .put key row]).runs.length = 2 := by
  obtain ⟨u, hput, hu, huset, hulen, hutable, hunext⟩ :=
    exists_put_eq hs hset hruns htable hfits (by omega)
  have huset : u.settings = ⟨Path.deep 4025, 1, 2, 1⟩ := huset.trans hset
  have hroom : u.hasRoom := (hasRoomFor_deep_iff_lt (by rw [huset])).mpr (by omega)
  obtain ⟨v, -, hvset, hvnext, hvlen, hput'⟩ := exists_insert_eq hu hroom hutable
    (by rw [huset]; decide) hfits
  have hfull : v.hasRoom = false := by
    refine eq_false_of_ne_true fun hroom => ?_
    have hlt := (hasRoomFor_deep_iff_lt (by rw [hvset, huset])).mp hroom
    omega
  rw [hvlen, hulen, huset, if_pos (by decide), mergeRuns_of_not_hasRoom hfull] at hput'
  simp only [Store.performAll, List.foldl, StoreOp.apply, Store.put, hput]
  rw [put, hput', hvlen, hulen]

end DeepDirectory

/-- Where there is room for runs with eight digits only, the last of them cannot be merged. -/
theorem runs_reach_limit_in_deep_directory :
    ∃ s, create ⟨Path.deep 4025, 1, 2, 1⟩ Host.plain "/tmp/store" = .ok s ∧
      let t := Store.performAll s
        ((List.replicate 99999998 [.put [0x61] ⟨.insert, []⟩, .clear]).flatten ++
          [.put [0x61] ⟨.insert, []⟩, .put [0x61] ⟨.insert, []⟩])
      t.settings.maxRuns = 2 ∧ t.runs.length = 2 := by
  obtain ⟨s, hs⟩ : ∃ s, create ⟨Path.deep 4025, 1, 2, 1⟩ Host.plain "/tmp/store" = .ok s :=
    ⟨_, create_deep (by decide) (by decide) _⟩
  have hset : s.settings = ⟨Path.deep 4025, 1, 2, 1⟩ := by rw [eq_of_create hs]
  have hfits : (Entry.mk [0x61] (.present (Row.encode ⟨.insert, []⟩))).Fits :=
    Entry.fits_iff.mpr ⟨by decide, by decide⟩
  have hundisturbed := Undisturbed.create hs
  obtain ⟨hruns, htable, hnext⟩ := performAll_replicate hundisturbed hset (by rw [eq_of_create hs])
    (by rw [eq_of_create hs]) hfits (k := 99999998) (by rw [eq_of_create hs]; decide)
  have hlast := length_runs_of_full (hundisturbed.performAll _)
    ((onward_performAll s _).settings.trans hset) hruns htable hfits
    (by rw [hnext, eq_of_create hs])
  refine ⟨s, hs, ?_, ?_⟩
  · rw [(onward_performAll s _).settings, hset]
  · rw [Store.performAll_append]
    exact hlast

theorem folder_spill_of_not_fits (hs : s.Undisturbed) (hroom : s.hasRoom) {e : Entry}
    (he : e ∈ s.layer) (hfits : ¬ e.Fits) :
    s.spill.1.runs = s.runs ∧ ∃ content,
      s.spill.1.folder = s.folder.insert (runName s.nextRun) (.file content) := by
  obtain ⟨content, -, -, hfolder⟩ | ⟨hnone, -⟩ := s.folder_writeRun (s.layer.map .ok)
  case inr => exact absurd ⟨hroom, hs.noDirectory _⟩ hnone
  have htable : s.table.isEmpty ≠ true := by
    intro hempty
    rw [SortedMap.isEmpty, List.isEmpty_iff] at hempty
    rw [layer, hempty] at he
    cases he
  have hwrite := attempt_writeRun (s := s) s.ascending_layer
  obtain ⟨written, result, heq, -, -⟩ := exists_writeRun s (s.layer.map .ok)
  rw [heq] at hwrite hfolder
  rw [spill, if_neg htable, tableSource_eq, matching_nil_stem, heq]
  cases result with
  | error error => exact ⟨rfl, content, hfolder⟩
  | ok run =>
    obtain ⟨-, hdescribes, -⟩ := hwrite
    exact absurd (hdescribes.fits e he) hfits

theorem insert_of_not_fits (hs : s.Undisturbed) (hroom : s.hasRoom)
    (hlimit : s.settings.tableLimit < overhead) (hmark : version ≠ .removed)
    (hfits : ¬ (Entry.mk key version).Fits) :
    (s.insert key version).1.runs = s.runs ∧ ∃ content,
      (s.insert key version).1.folder = s.folder.insert (runName s.nextRun) (.file content) := by
  have hlayer : Entry.mk key version ∈ layer { s with
      table := s.table.insert key version
      tableBytes := s.tableBytes - s.charged key + charge key version } :=
    mem_layer.mpr (SortedMap.mem_entries_insert.mpr (.inl rfl))
  simp only [DiskStore.insert, if_pos (tableLimit_lt_of_insert hlimit)]
  exact folder_spill_of_not_fits (hs.put_table fun _ => hmark) hroom hlayer hfits

theorem long_key_leaves_file (hkey : 2 ^ 32 ≤ key.length) :
    ∃ s, create ⟨"/tmp", 1, 2, 1⟩ Host.plain "/tmp/store" = .ok s ∧
      let t := Store.performAll s [.put key ⟨.insert, []⟩]
      t.runs = [] ∧ t.folder.entries.map Prod.fst = ["run-00000000.spill"] := by
  have hlong : ¬ (Entry.mk key (.present (Row.encode ⟨.insert, []⟩))).Fits := fun hfits =>
    Nat.not_lt.mpr hkey (Entry.fits_iff.mp hfits).1
  obtain ⟨hruns, content, hfolder⟩ := insert_of_not_fits
    (Undisturbed.create (create_plain Nat.one_ne_zero))
    (hasRoomFor_plain rfl (by decide)) (by decide) (by simp) hlong
  refine ⟨_, create_plain Nat.one_ne_zero, hruns, ?_⟩
  simp only [Store.performAll, List.foldl, StoreOp.apply, Store.put, put]
  rw [hfolder]
  rfl

/-- Where runs cannot be written the table grows beyond its limit, the runs reach theirs, and files
are left that are not those of runs. -/
theorem bounds_fail_where_runs_cannot_be_written :
    (∃ s, create ⟨Path.deep 4026, 1, 2, 1⟩ Host.plain "/tmp/store" = .ok s ∧
      (StoreOp.put [0x61] ⟨.insert, [.long 1]⟩).Fits ∧
      let t := Store.performAll s [.put [0x61] ⟨.insert, [.long 1]⟩]
      t.settings.tableLimit < t.tableBytes) ∧
    (∃ s, create ⟨Path.deep 4025, 1, 2, 1⟩ Host.plain "/tmp/store" = .ok s ∧
      let t := Store.performAll s
        ((List.replicate 99999998 [.put [0x61] ⟨.insert, []⟩, .clear]).flatten ++
          [.put [0x61] ⟨.insert, []⟩, .put [0x61] ⟨.insert, []⟩])
      t.settings.maxRuns = 2 ∧ t.runs.length = 2) ∧
    ∃ s, create ⟨"/tmp", 1, 2, 1⟩ Host.plain "/tmp/store" = .ok s ∧
      let t := Store.performAll s [.put (List.replicate (2 ^ 32) 0x61) ⟨.insert, []⟩]
      t.runs = [] ∧ t.folder.entries.map Prod.fst = ["run-00000000.spill"] :=
  ⟨table_exceeds_limit_in_deep_directory, runs_reach_limit_in_deep_directory,
    long_key_leaves_file List.length_replicate.ge⟩

end DiskStore

end ChangeBuffer
