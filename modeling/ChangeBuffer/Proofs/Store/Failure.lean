import ChangeBuffer.Proofs.Store.Charges
import ChangeBuffer.Proofs.Store.History

/-! # Failed operations

An operation can fail when the run of the table cannot be written, or later, when the runs cannot be
merged.  In the first case the table holds what it is to hold, in the second its run does, and no
other run is lost.  The files of the runs need not be there for this.
-/

namespace ChangeBuffer.DiskStore

/-- The store `t` has the runs on the shelf of `s`, and perhaps one more with a file that is there.
With the files of all of them it holds the rows. -/
def LeavesBehind (s t : DiskStore) (shelf : List (Run × List Entry))
    (rows : Bytes → Option Bytes) : Prop :=
  ∃ added, t.Shelves (shelf ++ added) ∧ added.length ≤ 1 ∧ Stocks t.folder added ∧
    (∀ p ∈ added, p.1.name = runName s.nextRun) ∧
    ∀ key, stored? key (t.layers (shelf ++ added)) = rows key

variable {s t : DiskStore} {shelf : List (Run × List Entry)} {rows : Bytes → Option Bytes}
  {key : Bytes} {version : Version} {e : StoreError} {m : SortedMap Bytes Row} {op : StoreOp}

theorem LeavesBehind.of_nil (h : t.Shelves shelf)
    (hrows : ∀ key, stored? key (t.layers shelf) = rows key) : s.LeavesBehind t shelf rows := by
  refine ⟨[], ?_⟩
  simp [Stocks, h, hrows]

theorem Shelves.of_mergeRuns_error (h : s.Shelves shelf) (ht : s.mergeRuns = (t, .error e)) :
    t.Shelves shelf ∧ t.table = s.table ∧
      ∀ name ≠ runName s.nextRun, t.folder.find? name = s.folder.find? name := by
  rcases s.mergeRuns_cases with ⟨folder, error, heq, hfolder⟩ | ⟨run, folder, tally, heq, -⟩
  · obtain rfl := (Prod.mk.inj (ht.symm.trans heq)).1
    exact ⟨h.of_runs_eq rfl (Nat.le_succ _), rfl, fun name hne => hfolder.find?_eq hne⟩
  · cases ht.symm.trans heq

theorem Shelves.of_spill_error (h : s.Shelves shelf)
    (hrows : ∀ key, stored? key (s.layers shelf) = rows key) (ht : s.spill = (t, .error e)) :
    s.LeavesBehind t shelf rows := by
  rcases s.spill_cases with ⟨-, heq⟩ | ⟨folder, error, heq, -⟩ | ⟨run, -, hdescribes, hname, heq⟩
  · cases ht.symm.trans heq
  · obtain rfl := (Prod.mk.inj (ht.symm.trans heq)).1
    exact .of_nil (h.of_runs_eq rfl (Nat.le_succ _)) hrows
  · rw [heq] at ht
    split at ht
    next =>
      obtain ⟨ht, htable, hfiles⟩ := Shelves.of_mergeRuns_error (h.spilled hdescribes hname) ht
      refine ⟨[(run, s.layer)], ht, Nat.le_refl _, ?_, ?_, fun key => ?_⟩
      · intro p hp
        obtain rfl := List.mem_singleton.mp hp
        -- The merge that failed was to be written under the number behind that of the spilled run.
        have hne : run.name ≠ runName (s.spilled run).nextRun := fun he =>
          Nat.ne_of_lt (Nat.lt_succ_self _) (runName_inj (hname.symm.trans he))
        rw [hfiles _ hne, DiskStore.spilled, SortedMap.find?_insert, if_pos hname]
      · intro p hp
        obtain rfl := List.mem_singleton.mp hp
        exact hname
      · rw [← hrows, ← stored?_spilled key shelf run, stored?_layers, stored?_layers, htable]
    next => cases ht

theorem Shelves.of_insert_error (h : s.Shelves shelf)
    (hrows : ∀ key, stored? key (s.layers shelf) = rows key)
    (ht : s.insert key version = (t, .error e)) :
    s.LeavesBehind t shelf (fun k => if k = key then version.row? else rows k) := by
  simp only [DiskStore.insert] at ht
  split at ht
  next =>
    have htable : Shelves { s with
        table := s.table.insert key version
        tableBytes := s.tableBytes - s.charged key + charge key version } shelf :=
      h.of_runs_eq rfl (Nat.le_refl _)
    refine htable.of_spill_error (fun k => ?_) ht
    rw [stored?_of_table_eq (s := s) rfl, hrows]
  next => cases ht

theorem Shelves.of_remove_error (h : s.Shelves shelf)
    (hrows : ∀ key, stored? key (s.layers shelf) = rows key) (ht : s.remove key = (t, .error e)) :
    s.LeavesBehind t shelf (fun k => if k = key then none else rows k) := by
  unfold remove at ht
  split at ht
  · cases ht
  · exact h.of_insert_error hrows ht

/-- A put or a removal that fails does to the rows what it would do if it went well. -/
theorem Shelves.of_apply_error (h : s.Shelves shelf)
    (hrows : ∀ key, stored? key (s.layers shelf) = encoded m key) (hop : op ≠ .clear)
    (ht : op.apply s = (t, .error e)) : s.LeavesBehind t shelf (encoded (op.onMap m)) := by
  cases op with
  | put key row =>
    rw [StoreOp.onMap, encoded_insert]
    exact h.of_insert_error hrows ht
  | remove key =>
    rw [StoreOp.onMap, encoded_erase]
    exact h.of_remove_error hrows ht
  | clear => exact absurd rfl hop

theorem Charged.of_apply (h : s.Charged) (op : StoreOp) : (op.apply s).1.Charged := by
  cases op with
  | put key row => exact h.of_insert key _
  | remove key => exact h.of_remove key
  | clear => exact .of_clear s

end ChangeBuffer.DiskStore
