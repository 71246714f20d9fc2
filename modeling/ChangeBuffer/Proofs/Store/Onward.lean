import ChangeBuffer.Proofs.Store.Shelf

/-! # What operations leave alone

No operation, whether it goes well or fails, uses a number twice, writes to the file of a run, or
removes the file of a run that it keeps.
-/

namespace ChangeBuffer.DiskStore

/-- The store `t` may come after the store `s`: its runs are old ones with the files that they had,
and new ones with new numbers. -/
structure Onward (s t : DiskStore) : Prop where
  settings : t.settings = s.settings
  nextRun : s.nextRun ≤ t.nextRun
  runs : ∀ run ∈ t.runs, run ∈ s.runs ∨ ∃ n, s.nextRun ≤ n ∧ run.name = runName n
  files : ∀ run ∈ t.runs, ∀ n < s.nextRun, run.name = runName n →
    t.folder.find? run.name = s.folder.find? run.name
  noDirectory : ∀ name, s.folder.find? name ≠ some .directory →
    t.folder.find? name ≠ some .directory

variable {s t u : DiskStore}

namespace Onward

theorem refl (s : DiskStore) : s.Onward s :=
  ⟨rfl, Nat.le_refl _, fun _ => .inl, fun _ _ _ _ _ => rfl, fun _ => id⟩

theorem trans (h : s.Onward t) (h' : t.Onward u) : s.Onward u where
  settings := h'.settings.trans h.settings
  nextRun := Nat.le_trans h.nextRun h'.nextRun
  runs run hrun := by
    rcases h'.runs run hrun with hrun | ⟨n, hn, hname⟩
    · exact h.runs run hrun
    · exact .inr ⟨n, Nat.le_trans h.nextRun hn, hname⟩
  files run hrun n hn hname := by
    have hn' : n < t.nextRun := Nat.lt_of_lt_of_le hn h.nextRun
    rcases h'.runs run hrun with hold | ⟨m, hm, hname'⟩
    · rw [h'.files run hrun n hn' hname, h.files run hold n hn hname]
    · -- A run with a number of the first store cannot have been written by the second operation.
      obtain rfl : n = m := runName_inj (hname.symm.trans hname')
      exact absurd hn' (Nat.not_lt.mpr hm)
  noDirectory name hname := h'.noDirectory name (h.noDirectory name hname)

theorem unobstructed (h : s.Onward t) (hs : s.Unobstructed) : t.Unobstructed :=
  fun n hn => h.noDirectory _ (hs n (Nat.le_trans h.nextRun hn))

theorem of_table (s : DiskStore) (table : SortedMap Bytes Version) (bytes : Nat) :
    s.Onward { s with table, tableBytes := bytes } :=
  ⟨rfl, Nat.le_refl _, fun _ => .inl, fun _ _ _ _ _ => rfl, fun _ => id⟩

theorem of_wrote {folder : Folder} (h : s.Wrote folder) :
    s.Onward { s with nextRun := s.nextRun + 1, folder } where
  settings := rfl
  nextRun := Nat.le_succ _
  runs _ := .inl
  files _ _ _ hn hname := h.find?_eq fun he => Nat.ne_of_lt hn (runName_inj (hname.symm.trans he))
  noDirectory _ := h.find?_ne_directory

theorem of_merged {run : Run} {folder : Folder} (tally : SpillTally)
    (hname : run.name = runName s.nextRun) (hmerged : s.Merged folder) :
    s.Onward { s with nextRun := s.nextRun + 1, folder, runs := [run], tally } where
  settings := rfl
  nextRun := Nat.le_succ _
  runs r hr := by
    obtain rfl := List.mem_singleton.mp hr
    exact .inr ⟨_, Nat.le_refl _, hname⟩
  files r hr n hn hr' := by
    obtain rfl := List.mem_singleton.mp hr
    exact absurd (runName_inj (hr'.symm.trans hname)) (Nat.ne_of_lt hn)
  noDirectory _ := hmerged.find?_ne_directory

theorem of_spilled {run : Run} (hname : run.name = runName s.nextRun) :
    s.Onward (s.spilled run) where
  settings := rfl
  nextRun := Nat.le_succ _
  runs r hr := by
    rcases List.mem_append.mp hr with hr | hr
    · exact .inl hr
    · obtain rfl := List.mem_singleton.mp hr
      exact .inr ⟨_, Nat.le_refl _, hname⟩
  files _ _ _ hn hr := Wrote.find?_eq (.inr ⟨_, rfl⟩) fun he =>
    Nat.ne_of_lt hn (runName_inj (hr.symm.trans he))
  noDirectory _ := Wrote.find?_ne_directory (.inr ⟨_, rfl⟩)

end Onward

theorem onward_mergeRuns (s : DiskStore) : s.Onward s.mergeRuns.1 := by
  rcases s.mergeRuns_cases with ⟨folder, e, heq, hfolder⟩ | ⟨run, folder, tally, heq, hname, hmerged⟩
  · rw [heq]
    exact .of_wrote hfolder
  · rw [heq]
    exact .of_merged tally hname hmerged

theorem onward_spill (s : DiskStore) : s.Onward s.spill.1 := by
  rcases s.spill_cases with ⟨-, heq⟩ | ⟨folder, e, heq, hfolder, -⟩ | ⟨run, -, -, hname, heq⟩
  · rw [heq]
    exact .refl s
  · rw [heq]
    exact .of_wrote hfolder
  · rw [heq]
    split
    · exact (Onward.of_spilled hname).trans (onward_mergeRuns _)
    · exact .of_spilled hname

theorem onward_insert (s : DiskStore) (key : Bytes) (version : Version) :
    s.Onward (s.insert key version).1 := by
  have htable := Onward.of_table s (s.table.insert key version)
    (s.tableBytes - s.charged key + charge key version)
  simp only [DiskStore.insert]
  split
  · exact htable.trans (onward_spill _)
  · exact htable

theorem onward_remove (s : DiskStore) (key : Bytes) : s.Onward (s.remove key).1 := by
  unfold remove
  split
  · exact .of_table s _ _
  · exact onward_insert s key .removed

theorem onward_clear (s : DiskStore) : s.Onward s.clear.1 where
  settings := rfl
  nextRun := Nat.le_refl _
  runs run hrun := nomatch hrun
  files run hrun := nomatch hrun
  noDirectory name hname := by
    change (discardRuns s.folder s.runs).1.find? name ≠ some .directory
    rcases find?_discardRuns s.folder s.runs name with h | h
    · rwa [h]
    · simp [h]

end ChangeBuffer.DiskStore
