import Mathlib.Data.List.Induction

/-! # Latest elements

An element of a list is the latest of a kind if no element behind it is of that kind.
-/

namespace ChangeBuffer

variable {α : Type} {p : α → Prop} {xs : List α} {x y : α}

/-- `x` is among the elements, and none behind it satisfies `p`. -/
def Latest (p : α → Prop) (xs : List α) (x : α) : Prop :=
  ∃ before after, xs = before ++ x :: after ∧ ∀ y ∈ after, ¬ p y

theorem Latest.mem (h : Latest p xs x) : x ∈ xs := by
  obtain ⟨before, after, rfl, -⟩ := h
  simp

theorem not_latest_nil : ¬ Latest p [] x := fun h => nomatch h.mem

theorem latest_append_singleton :
    Latest p (xs ++ [y]) x ↔ y = x ∨ ¬ p y ∧ Latest p xs x := by
  constructor
  · rintro ⟨before, after, h, hafter⟩
    rcases List.eq_nil_or_concat after with rfl | ⟨after, last, rfl⟩
    · exact Or.inl (List.cons.inj (List.append_inj_right' h rfl)).1
    · rw [List.concat_eq_append, ← List.cons_append, ← List.append_assoc] at h
      obtain ⟨hxs, hy⟩ := List.append_inj' h rfl
      obtain rfl := (List.cons.inj hy).1
      exact Or.inr ⟨hafter y (by simp), before, after, hxs, fun z hz => hafter z (by simp [hz])⟩
  · rintro (rfl | ⟨hy, before, after, rfl, hafter⟩)
    · exact ⟨xs, [], rfl, by simp⟩
    · refine ⟨before, after ++ [y], by simp, fun z hz => ?_⟩
      rcases List.mem_append.mp hz with hz | hz
      · exact hafter z hz
      · rwa [List.mem_singleton.mp hz]

end ChangeBuffer
