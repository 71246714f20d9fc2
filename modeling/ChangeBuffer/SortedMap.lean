/-! # Sorted maps

A finite map held as a list of entries in strictly ascending order of keys.  Each operation keeps
the order, so a map is determined by what it finds under each key.
-/

namespace ChangeBuffer

variable {κ α : Type} [LT κ] [DecidableLT κ] [DecidableEq κ]

namespace SortedList

/-- Puts `v` under `k`, in place of the entry that is there. -/
def insert (k : κ) (v : α) : List (κ × α) → List (κ × α)
  | [] => [(k, v)]
  | e :: es =>
    if k < e.1 then (k, v) :: e :: es
    else if k = e.1 then (k, v) :: es
    else e :: insert k v es

theorem mem_insert_imp {k : κ} {v : α} {es : List (κ × α)} {e : κ × α}
    (h : e ∈ insert k v es) : e = (k, v) ∨ e ∈ es := by
  induction es with
  | nil => simpa [insert] using h
  | cons d es ih =>
    unfold insert at h
    split at h
    · simpa using h
    split at h
    · exact (List.mem_cons.mp h).imp_right (List.mem_cons_of_mem _)
    · rcases List.mem_cons.mp h with rfl | h
      · exact Or.inr List.mem_cons_self
      · exact (ih h).imp_right (List.mem_cons_of_mem _)

section Order

variable [LE κ] [Std.IsLinearOrder κ] [Std.LawfulOrderLT κ]

theorem insert_ascending {k : κ} {v : α} {es : List (κ × α)} (h : es.Pairwise (·.1 < ·.1)) :
    (insert k v es).Pairwise (·.1 < ·.1) := by
  induction es with
  | nil => simp [insert]
  | cons d es ih =>
    obtain ⟨hd, hes⟩ := List.pairwise_cons.mp h
    unfold insert
    split
    case isTrue hk =>
      refine List.pairwise_cons.mpr ⟨fun e he => ?_, h⟩
      rcases List.mem_cons.mp he with rfl | he
      · exact hk
      · exact Std.lt_trans hk (hd e he)
    case isFalse hk =>
      split
      case isTrue he => exact List.pairwise_cons.mpr ⟨fun e h => he ▸ hd e h, hes⟩
      case isFalse hne =>
        refine List.pairwise_cons.mpr ⟨fun e he => ?_, ih hes⟩
        rcases mem_insert_imp he with rfl | he
        · rcases Std.lt_trichotomy k d.1 with h | h | h
          · exact absurd h hk
          · exact absurd h hne
          · exact h
        · exact hd e he

theorem mem_insert {k : κ} {v : α} {es : List (κ × α)} {e : κ × α}
    (h : es.Pairwise (·.1 < ·.1)) : e ∈ insert k v es ↔ e = (k, v) ∨ e ∈ es ∧ e.1 ≠ k := by
  induction es with
  | nil => simp [insert]
  | cons d es ih =>
    obtain ⟨hd, hes⟩ := List.pairwise_cons.mp h
    unfold insert
    split
    case isTrue hk =>
      have hne : ∀ e ∈ d :: es, e.1 ≠ k := by
        intro e he hek
        rcases List.mem_cons.mp he with rfl | he
        · exact Std.lt_irrefl (hek ▸ hk)
        · exact Std.lt_irrefl (hek ▸ Std.lt_trans hk (hd e he))
      constructor
      · intro he
        exact (List.mem_cons.mp he).imp_right fun he => ⟨he, hne e he⟩
      · rintro (rfl | ⟨he, -⟩)
        · exact List.mem_cons_self
        · exact List.mem_cons_of_mem _ he
    case isFalse hk =>
      split
      case isTrue hkd =>
        subst hkd
        have hne : ∀ e ∈ es, e.1 ≠ d.1 := fun e he hed => Std.lt_irrefl (hed ▸ hd e he)
        constructor
        · intro he
          exact (List.mem_cons.mp he).imp_right fun he => ⟨List.mem_cons_of_mem _ he, hne e he⟩
        · rintro (rfl | ⟨he, hed⟩)
          · exact List.mem_cons_self
          · rcases List.mem_cons.mp he with rfl | he
            · exact absurd rfl hed
            · exact List.mem_cons_of_mem _ he
      case isFalse hkd =>
        rw [List.mem_cons, ih hes, List.mem_cons]
        constructor
        · rintro (rfl | rfl | ⟨he, hek⟩)
          · exact Or.inr ⟨Or.inl rfl, fun h => hkd h.symm⟩
          · exact Or.inl rfl
          · exact Or.inr ⟨Or.inr he, hek⟩
        · rintro (rfl | ⟨rfl | he, hek⟩)
          · exact Or.inr (Or.inl rfl)
          · exact Or.inl rfl
          · exact Or.inr (Or.inr ⟨he, hek⟩)

end Order

end SortedList

/-- A finite map with its entries in ascending order of keys. -/
structure SortedMap (κ α : Type) [LT κ] where
  entries : List (κ × α)
  ascending : entries.Pairwise (·.1 < ·.1)

namespace SortedMap

instance : EmptyCollection (SortedMap κ α) := ⟨⟨[], .nil⟩⟩

def find? (m : SortedMap κ α) (k : κ) : Option α :=
  (m.entries.find? (·.1 = k)).map (·.2)

def insert [LE κ] [Std.IsLinearOrder κ] [Std.LawfulOrderLT κ] (m : SortedMap κ α) (k : κ) (v : α) :
    SortedMap κ α :=
  ⟨SortedList.insert k v m.entries, SortedList.insert_ascending m.ascending⟩

def erase (m : SortedMap κ α) (k : κ) : SortedMap κ α :=
  ⟨m.entries.filter (·.1 ≠ k), m.ascending.filter _⟩

def size (m : SortedMap κ α) : Nat := m.entries.length

def isEmpty (m : SortedMap κ α) : Bool := m.entries.isEmpty

omit [DecidableLT κ] in
theorem mem_entries_erase {m : SortedMap κ α} {k : κ} {e : κ × α} :
    e ∈ (m.erase k).entries ↔ e ∈ m.entries ∧ e.1 ≠ k := by
  simp [erase]

variable [LE κ] [Std.IsLinearOrder κ] [Std.LawfulOrderLT κ]

theorem mem_entries_insert {m : SortedMap κ α} {k : κ} {v : α} {e : κ × α} :
    e ∈ (m.insert k v).entries ↔ e = (k, v) ∨ e ∈ m.entries ∧ e.1 ≠ k :=
  SortedList.mem_insert m.ascending

omit [DecidableLT κ] [DecidableEq κ] [Std.IsLinearOrder κ] in
theorem eq_of_mem_entries {m : SortedMap κ α} {d e : κ × α} (hd : d ∈ m.entries)
    (he : e ∈ m.entries) (h : d.1 = e.1) : d = e := by
  obtain ⟨es, hes⟩ := m
  induction hes with
  | nil => cases hd
  | @cons a es ha _ ih =>
    rcases List.mem_cons.mp hd with rfl | hd' <;> rcases List.mem_cons.mp he with rfl | he'
    · rfl
    · exact absurd (h ▸ ha e he') Std.lt_irrefl
    · exact absurd (h ▸ ha d hd') Std.lt_irrefl
    · exact ih hd' he'

omit [DecidableLT κ] [Std.IsLinearOrder κ] in
theorem find?_eq_some_iff {m : SortedMap κ α} {k : κ} {v : α} :
    m.find? k = some v ↔ (k, v) ∈ m.entries := by
  unfold find?
  constructor
  · intro h
    obtain ⟨e, he, rfl⟩ := Option.map_eq_some_iff.mp h
    obtain rfl : e.1 = k := by simpa using List.find?_some he
    exact List.mem_of_find?_eq_some he
  · intro h
    cases hf : m.entries.find? (·.1 = k) with
    | none => simpa using List.find?_eq_none.mp hf (k, v) h
    | some e =>
      have hk : e.1 = k := by simpa using List.find?_some hf
      rw [eq_of_mem_entries (List.mem_of_find?_eq_some hf) h hk]
      rfl

end SortedMap

end ChangeBuffer
