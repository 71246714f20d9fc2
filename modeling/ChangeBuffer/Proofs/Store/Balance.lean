import ChangeBuffer.Proofs.Store.Undisturbed
import Mathlib.Tactic.LinearCombination

/-! # The balance of runs

Each spill adds a run, and each merge puts one run in the place of as many as the settings allow.
So the number of runs follows from what has been counted since they were last cleared.
-/

namespace ChangeBuffer.DiskStore

/-- From `s` to `t` the runs have grown by those that were spilled, less what merges of `maxRuns`
runs into one have taken away. -/
structure Balances (maxRuns : Nat) (s t : DiskStore) : Prop where
  runs_le : s.tally.runs ≤ t.tally.runs
  merges_le : s.tally.merges ≤ t.tally.merges
  growth : (t.runs.length : ℤ) - s.runs.length =
    (t.tally.runs - s.tally.runs) - (maxRuns - 1) * (t.tally.merges - s.tally.merges)

variable {s t u : DiskStore} {maxRuns : Nat} {run : Run} {key : Bytes} {version : Version}
  {op : StoreOp} {ops : List StoreOp}

namespace Balances

theorem of_eq (hruns : t.runs = s.runs) (htally : t.tally = s.tally) : Balances maxRuns s t := by
  refine ⟨htally ▸ Nat.le_refl _, htally ▸ Nat.le_refl _, ?_⟩
  rw [hruns, htally]
  ring

theorem refl (s : DiskStore) : Balances maxRuns s s := of_eq rfl rfl

theorem trans (h : Balances maxRuns s t) (h' : Balances maxRuns t u) : Balances maxRuns s u where
  runs_le := Nat.le_trans h.runs_le h'.runs_le
  merges_le := Nat.le_trans h.merges_le h'.merges_le
  growth := by linear_combination h.growth + h'.growth

theorem spilled (s : DiskStore) (run : Run) : Balances maxRuns s (s.spilled run) where
  runs_le := Nat.le_succ _
  merges_le := Nat.le_refl _
  growth := by
    simp only [DiskStore.spilled, List.length_append, List.length_singleton]
    push_cast
    ring

end Balances

theorem of_mergeRuns_eq_ok (h : s.mergeRuns = (t, .ok ())) :
    t.runs.length = 1 ∧ t.tally = { s.tally with merges := s.tally.merges + 1 } := by
  unfold mergeRuns at h
  extract_lets items at h
  obtain ⟨folder, result, hwrite, -⟩ := exists_writeRun s items
  rw [hwrite] at h
  cases result with
  | error e => cases h
  | ok run =>
    simp only at h
    split at h
    · cases h
    · cases h
      exact ⟨rfl, rfl⟩

theorem balances_mergeRuns (h : s.runs.length = maxRuns) : Balances maxRuns s s.mergeRuns.1 := by
  obtain ⟨folder, e, heq, -⟩ | ⟨run, folder, tally, heq, -⟩ := s.mergeRuns_cases
  · rw [heq]
    exact .of_eq rfl rfl
  · obtain ⟨hruns, htally⟩ := of_mergeRuns_eq_ok heq
    rw [heq]
    refine ⟨?_, ?_, ?_⟩
    · rw [htally]
    · rw [htally]
      exact Nat.le_succ _
    · rw [hruns, htally, h]
      push_cast
      ring

namespace Undisturbed

theorem balances_spill (h : s.Undisturbed) : Balances s.settings.maxRuns s s.spill.1 := by
  obtain ⟨-, heq⟩ | ⟨folder, e, heq, -⟩ | ⟨run, hroom, -, -, heq⟩ := s.spill_cases
  · rw [heq]
    exact .refl s
  · rw [heq]
    exact .of_eq rfl rfl
  · have hlength : (s.spilled run).runs.length = s.runs.length + 1 := List.length_append
    have hfew := h.runs_lt hroom
    rw [heq]
    split
    next hmany =>
      have hall : (s.spilled run).runs.length = s.settings.maxRuns := by omega
      exact (Balances.spilled s run).trans (balances_mergeRuns hall)
    next => exact .spilled s run

theorem balances_insert (h : s.Undisturbed) (hmark : s.runs = [] → version ≠ .removed) :
    Balances s.settings.maxRuns s (s.insert key version).1 := by
  simp only [DiskStore.insert]
  split
  · -- The table has no part in the balance.
    refine .trans (.of_eq ?_ ?_) (h.put_table hmark).balances_spill
    all_goals rfl
  · exact .of_eq rfl rfl

theorem balances_remove (h : s.Undisturbed) : Balances s.settings.maxRuns s (s.remove key).1 := by
  unfold DiskStore.remove
  split
  next => exact .of_eq rfl rfl
  next hruns => exact h.balances_insert fun hempty => absurd (List.isEmpty_iff.mpr hempty) hruns

theorem balances_apply (h : s.Undisturbed) (hop : op ≠ .clear) :
    Balances s.settings.maxRuns s (op.apply s).1 := by
  cases op with
  | put key row => exact h.balances_insert fun _ => nofun
  | remove key => exact h.balances_remove
  | clear => exact absurd rfl hop

/-- Operations balance, whether they go well or fail, as long as nothing is cleared. -/
theorem balances_performAll (h : s.Undisturbed) (hops : .clear ∉ ops) :
    Balances s.settings.maxRuns s (Store.performAll s ops) := by
  induction ops generalizing s with
  | nil => exact .refl s
  | cons op ops ih =>
    obtain ⟨hop, hops⟩ := List.ne_and_not_mem_of_not_mem_cons hops
    have hfirst := h.balances_apply hop.symm
    have hrest := ih (h.apply op) hops
    rw [(onward_apply s op).settings] at hrest
    exact hfirst.trans hrest

end Undisturbed

theorem runs_performAll_eq_nil (hs : s.runs = []) (hops : ops = [] ∨ ops.getLast? = some .clear) :
    (Store.performAll s ops).runs = [] := by
  obtain rfl | hlast := hops
  · exact hs
  · obtain ⟨front, rfl⟩ := List.getLast?_eq_some_iff.mp hlast
    rw [Store.performAll_append]
    rfl

end ChangeBuffer.DiskStore
