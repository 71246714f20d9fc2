import ChangeBuffer.Proofs.Store.Shelf

/-! # Charges

The bytes that a store counts for its table are the charges of the table's entries, whatever
operations went well or failed.
-/

namespace ChangeBuffer.DiskStore

def total (table : SortedMap Bytes Version) : Nat :=
  (table.entries.map fun e => charge e.1 e.2).sum

def Charged (s : DiskStore) : Prop := s.tableBytes = total s.table

variable {s : DiskStore} {key : Bytes}

theorem total_insert (table : SortedMap Bytes Version) (key : Bytes) (version : Version) :
    total (table.insert key version) = charge key version + total (table.erase key) :=
  ((table.entries_insert_perm key version).map _).sum_nat

theorem total_erase (s : DiskStore) (key : Bytes) :
    total s.table = s.charged key + total (s.table.erase key) := by
  unfold charged
  split
  next version h =>
    rw [← total_insert, total, total, SortedMap.insert_eq_self h]
  next h => rw [total, total, SortedMap.erase_eq_self h, Nat.zero_add]

namespace Charged

theorem insert (h : s.Charged) (key : Bytes) (version : Version) :
    { s with
      table := s.table.insert key version
      tableBytes := s.tableBytes - s.charged key + charge key version }.Charged := by
  have herase := s.total_erase key
  rw [Charged] at h ⊢
  simp only [total_insert]
  omega

theorem erase (h : s.Charged) (key : Bytes) :
    { s with table := s.table.erase key, tableBytes := s.tableBytes - s.charged key }.Charged := by
  have herase := s.total_erase key
  rw [Charged] at h ⊢
  simp only
  omega

theorem of_mergeRuns (h : s.Charged) : s.mergeRuns.1.Charged := by
  rcases s.mergeRuns_cases with ⟨folder, e, heq, -⟩ | ⟨run, folder, tally, heq, -⟩
  · rw [heq]
    exact h
  · rw [heq]
    exact h

theorem of_spill (h : s.Charged) : s.spill.1.Charged := by
  rcases s.spill_cases with ⟨-, heq⟩ | ⟨folder, e, heq, -⟩ | ⟨run, -, -, -, heq⟩
  · rw [heq]
    exact h
  · rw [heq]
    exact h
  · have hspilled : (s.spilled run).Charged := rfl
    rw [heq]
    split
    · exact hspilled.of_mergeRuns
    · exact hspilled

theorem of_insert (h : s.Charged) (key : Bytes) (version : Version) :
    (s.insert key version).1.Charged := by
  simp only [DiskStore.insert]
  split
  · exact (h.insert key version).of_spill
  · exact h.insert key version

theorem of_remove (h : s.Charged) (key : Bytes) : (s.remove key).1.Charged := by
  unfold remove
  split
  · exact h.erase key
  · exact h.of_insert key .removed

theorem of_clear (s : DiskStore) : s.clear.1.Charged := rfl

end Charged

end ChangeBuffer.DiskStore
