import Mathlib.Data.List.Forall2

/-! # Traversals that may fail

A traversal of a list goes well exactly if it goes well for each element, and else it fails with the
error of the first element for which it does not.
-/

namespace ChangeBuffer

variable {α β ε : Type} {f : α → Except ε β} {as : List α} {bs : List β} {a : α} {e : ε}

theorem map_eq_error_iff {x : Except ε α} {g : α → β} : x.map g = .error e ↔ x = .error e := by
  cases x <;> simp [Except.map]

theorem exists_map_eq_ok_iff {x : Except ε α} {g : α → β} :
    (∃ b, x.map g = .ok b) ↔ ∃ a, x = .ok a := by
  cases x <;> simp [Except.map]

theorem mapM_eq_ok_iff : as.mapM f = .ok bs ↔ List.Forall₂ (fun a b => f a = .ok b) as bs := by
  induction as generalizing bs with
  | nil => simp [pure, Except.pure, eq_comm]
  | cons a as ih =>
    rw [List.forall₂_cons_left_iff, List.mapM_cons]
    cases f a with
    | error e => simp [bind, Except.bind]
    | ok b =>
      cases hrest : as.mapM f with
      | error e => simp [bind, Except.bind, ← ih, hrest]
      | ok rest => simp [bind, Except.bind, pure, Except.pure, ← ih, hrest, eq_comm]

theorem mapM_eq_error_iff :
    as.mapM f = .error e ↔
      ∃ front a back, as = front ++ a :: back ∧ (∀ a' ∈ front, ∃ b, f a' = .ok b) ∧
        f a = .error e := by
  induction as with
  | nil => simp [pure, Except.pure]
  | cons a as ih =>
    cases ha : f a with
    | error e' =>
      have hfails : (a :: as).mapM f = .error e' := by
        rw [List.mapM_cons, ha]
        rfl
      rw [hfails, Except.error.injEq]
      constructor
      · rintro rfl
        exact ⟨[], a, as, rfl, List.forall_mem_nil _, ha⟩
      · rintro ⟨front, d, back, happ, hfront, hd⟩
        cases front with
        | nil =>
          obtain ⟨rfl, -⟩ := List.cons.inj happ
          exact Except.error.inj (ha.symm.trans hd)
        | cons d' front =>
          obtain ⟨rfl, -⟩ := List.cons.inj happ
          obtain ⟨b, hb⟩ := hfront _ List.mem_cons_self
          cases ha.symm.trans hb
    | ok b =>
      have hrest : (a :: as).mapM f = .error e ↔ as.mapM f = .error e := by
        rw [List.mapM_cons, ha]
        cases as.mapM f <;> simp [bind, Except.bind, pure, Except.pure]
      rw [hrest, ih]
      constructor
      · rintro ⟨front, d, back, rfl, hfront, hd⟩
        exact ⟨a :: front, d, back, rfl, List.forall_mem_cons.mpr ⟨⟨b, ha⟩, hfront⟩, hd⟩
      · rintro ⟨front, d, back, happ, hfront, hd⟩
        cases front with
        | nil =>
          obtain ⟨rfl, -⟩ := List.cons.inj happ
          cases ha.symm.trans hd
        | cons d' front =>
          obtain ⟨-, rfl⟩ := List.cons.inj happ
          exact ⟨front, d, back, rfl, (List.forall_mem_cons.mp hfront).2, hd⟩

theorem exists_of_forall₂_of_mem {R : α → β → Prop} (h : List.Forall₂ R as bs) (ha : a ∈ as) :
    ∃ b ∈ bs, R a b := by
  induction h with
  | nil => cases ha
  | cons hab _ ih =>
    rcases List.mem_cons.mp ha with rfl | ha
    · exact ⟨_, List.mem_cons_self, hab⟩
    · obtain ⟨b, hb, hab⟩ := ih ha
      exact ⟨b, List.mem_cons_of_mem _ hb, hab⟩

theorem exists_mapM_error (f : α → Except ε β) (ha : a ∈ as) (h : f a = .error e) :
    ∃ e, as.mapM f = .error e := by
  cases hmap : as.mapM f with
  | error e => exact ⟨e, rfl⟩
  | ok bs =>
    obtain ⟨b, -, hb⟩ := exists_of_forall₂_of_mem (mapM_eq_ok_iff.mp hmap) ha
    cases hb.symm.trans h

/-- A traversal that goes well is a map, if what it makes of an element is determined. -/
theorem eq_map_of_mapM {g : α → β} (hf : ∀ a b, f a = .ok b → b = g a) (h : as.mapM f = .ok bs) :
    bs = as.map g := by
  have heq : List.Forall₂ (· = ·) (as.map g) bs :=
    List.forall₂_map_left_iff.mpr ((mapM_eq_ok_iff.mp h).imp fun a b hb => (hf a b hb).symm)
  rw [List.forall₂_eq_eq_eq] at heq
  exact heq.symm

end ChangeBuffer
