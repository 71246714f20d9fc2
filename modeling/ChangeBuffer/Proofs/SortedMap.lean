import ChangeBuffer.SortedMap
import Mathlib.Data.List.Sort

/-! # Looking up what sorted maps hold

An insertion or removal changes what a map finds under its own key and nothing else.  Entries in
ascending order of keys are determined by what is among them.
-/

namespace ChangeBuffer.SortedMap

variable {κ α : Type} [LT κ] [DecidableLT κ] [DecidableEq κ] [LE κ] [Std.IsLinearOrder κ]
  [Std.LawfulOrderLT κ] {m : SortedMap κ α} {k l : κ} {v : α}

omit [DecidableLT κ] [LE κ] [Std.IsLinearOrder κ] [Std.LawfulOrderLT κ] in
theorem find?_empty : (∅ : SortedMap κ α).find? k = none := rfl

omit [DecidableLT κ] [DecidableEq κ] [LE κ] [Std.IsLinearOrder κ] [Std.LawfulOrderLT κ] in
theorem not_mem_empty {e : κ × α} : e ∉ (∅ : SortedMap κ α).entries := List.not_mem_nil

theorem find?_insert : (m.insert k v).find? l = if l = k then some v else m.find? l := by
  apply Option.ext
  intro w
  rw [find?_eq_some_iff, mem_entries_insert]
  split
  next h =>
    subst h
    constructor
    · rintro (he | ⟨-, hne⟩)
      · rw [(Prod.mk.inj he).2]
      · exact absurd rfl hne
    · intro hw
      exact Or.inl (by rw [Option.some.inj hw])
  next h =>
    rw [find?_eq_some_iff]
    constructor
    · rintro (he | ⟨hmem, -⟩)
      · exact absurd (Prod.mk.inj he).1 h
      · exact hmem
    · exact fun hmem => Or.inr ⟨hmem, h⟩

omit [DecidableLT κ] [Std.IsLinearOrder κ] in
theorem find?_erase : (m.erase k).find? l = if l = k then none else m.find? l := by
  apply Option.ext
  intro w
  rw [find?_eq_some_iff, mem_entries_erase]
  split
  next h => simp [h]
  next h => simp [find?_eq_some_iff, h]

omit [DecidableLT κ] [DecidableEq κ] [Std.IsLinearOrder κ] in
theorem nodup_keys {as : List (κ × α)} (h : as.Pairwise (·.1 < ·.1)) : (as.map Prod.fst).Nodup := by
  refine List.pairwise_map.mpr (h.imp ?_)
  rintro d e hlt heq
  exact Std.lt_irrefl (heq ▸ hlt)

omit [DecidableLT κ] [DecidableEq κ] [Std.IsLinearOrder κ] in
theorem nodup_entries (m : SortedMap κ α) : m.entries.Nodup := (nodup_keys m.ascending).of_map _

theorem isEmpty_insert : (m.insert k v).isEmpty = false := by
  have hmem : (k, v) ∈ (m.insert k v).entries := mem_entries_insert.mpr (Or.inl rfl)
  cases he : (m.insert k v).entries with
  | nil => simp [he] at hmem
  | cons e es => simp [isEmpty, he]

theorem entries_insert_perm (m : SortedMap κ α) (k : κ) (v : α) :
    (m.insert k v).entries.Perm ((k, v) :: (m.erase k).entries) := by
  have hnew : (k, v) ∉ (m.erase k).entries := fun h => (mem_entries_erase.mp h).2 rfl
  refine (List.perm_ext_iff_of_nodup (nodup_entries _) ?_).mpr fun e => ?_
  · exact List.nodup_cons.mpr ⟨hnew, nodup_entries _⟩
  · rw [mem_entries_insert, List.mem_cons, mem_entries_erase]

omit [DecidableLT κ] [Std.IsLinearOrder κ] in
theorem erase_eq_self (h : m.find? k = none) : (m.erase k).entries = m.entries := by
  refine List.filter_eq_self.mpr fun e he => ?_
  have hne : e.1 ≠ k := by
    rintro rfl
    rw [find?_eq_some_iff.mpr he] at h
    cases h
  simpa using hne

omit [DecidableLT κ] [DecidableEq κ] in
/-- There is one way to put entries in ascending order. -/
theorem eq_of_ascending {as bs : List (κ × α)} (ha : as.Pairwise (·.1 < ·.1))
    (hb : bs.Pairwise (·.1 < ·.1)) (h : ∀ e, e ∈ as ↔ e ∈ bs) : as = bs := by
  have : Std.Irrefl fun d e : κ × α => d.1 < e.1 := ⟨fun _ => Std.lt_irrefl⟩
  have : Std.Antisymm fun d e : κ × α => d.1 < e.1 :=
    ⟨fun _ _ hde hed => absurd (Std.lt_trans hde hed) Std.lt_irrefl⟩
  exact ha.eq_of_mem_iff hb h

theorem insert_eq_self (h : m.find? k = some v) : (m.insert k v).entries = m.entries := by
  refine eq_of_ascending (m.insert k v).ascending m.ascending fun e => ?_
  have hmem : (k, v) ∈ m.entries := find?_eq_some_iff.mp h
  rw [mem_entries_insert]
  constructor
  · rintro (rfl | ⟨he, -⟩)
    · exact hmem
    · exact he
  · intro he
    by_cases hk : e.1 = k
    · exact .inl (eq_of_mem_entries he hmem hk)
    · exact .inr ⟨he, hk⟩

end ChangeBuffer.SortedMap
