import ChangeBuffer.Proofs.Run.Merge
import Mathlib.Data.List.Forall2

/-! # Sources that are cut off

If one of the sources ends in an error before its end, the merge gives a part of what it gives
otherwise, from the beginning, and then the error.
-/

namespace ChangeBuffer.Merge

variable {ε : Type}

/-- `s` is what `t` gives up to a place where it may end in the error instead. -/
inductive Cut (error : ε) : Source ε → Source ε → Prop
  | nil : Cut error [] []
  | here (es : List Entry) : Cut error [.error error] (es.map .ok)
  | cons {s t : Source ε} (e : Entry) : Cut error s t → Cut error (.ok e :: s) (.ok e :: t)

namespace Cut

variable {error : ε} {s t : Source ε}

theorem append_error {front es : List Entry} (h : front <+: es) :
    Cut error (front.map .ok ++ [.error error]) (es.map .ok) := by
  obtain ⟨back, rfl⟩ := h
  induction front with
  | nil => exact .here back
  | cons e front ih => exact .cons e ih

theorem refl (es : List Entry) : Cut error (es.map .ok) (es.map .ok) := by
  induction es with
  | nil => exact .nil
  | cons e es ih => exact .cons e ih

theorem head?_eq (h : Cut error s t) (he : s.error? = none) : s.head? = t.head? := by
  cases h with
  | nil => rfl
  | here => simp [Source.error?] at he
  | cons e h => rfl

theorem error?_right (h : Cut error s t) : t.error? = none := by
  cases h with
  | nil => rfl
  | here es => cases es <;> rfl
  | cons e h => rfl

theorem eq_of_error? (h : Cut error s t) {e : ε} (he : s.error? = some e) : e = error := by
  cases h with
  | nil => simp [Source.error?] at he
  | here => simpa [Source.error?] using he.symm
  | cons d h => simp [Source.error?] at he

theorem advance (h : Cut error s t) (he : s.error? = none) (key : Bytes) :
    Cut error (s.advance key) (t.advance key) := by
  cases h with
  | nil => exact .nil
  | here => simp [Source.error?] at he
  | cons e h =>
    rw [Source.advance, Source.advance]
    split
    · exact h
    · exact .cons e h

end Cut

theorem mem_advance {s : Source ε} {e : ε} (h : .error e ∈ s) (key : Bytes) :
    .error e ∈ s.advance key := by
  unfold Source.advance
  split
  · split
    · simpa using h
    · exact h
  · exact h

section Cuts

variable {error : ε} {ss ts : List (Source ε)}

theorem cuts_heads (h : List.Forall₂ (Cut error) ss ts)
    (he : ss.findSome? Source.error? = none) :
    ss.filterMap Source.head? = ts.filterMap Source.head? := by
  induction h with
  | nil => rfl
  | cons hc h ih =>
    obtain ⟨hs, hss⟩ : _ ∧ _ := by simpa using he
    rw [List.filterMap_cons, List.filterMap_cons, hc.head?_eq hs,
      ih (List.findSome?_eq_none_iff.mpr hss)]

theorem cuts_advance (h : List.Forall₂ (Cut error) ss ts)
    (he : ss.findSome? Source.error? = none) (key : Bytes) :
    List.Forall₂ (Cut error) (advance key ss) (advance key ts) := by
  induction h with
  | nil => exact .nil
  | cons hc h ih =>
    obtain ⟨hs, hss⟩ : _ ∧ _ := by simpa using he
    exact .cons (hc.advance hs key) (ih (List.findSome?_eq_none_iff.mpr hss))

theorem cuts_error?_right (h : List.Forall₂ (Cut error) ss ts) :
    ts.findSome? Source.error? = none := by
  induction h with
  | nil => rfl
  | cons hc h ih => rw [List.findSome?_cons, hc.error?_right, ih]

theorem cuts_error (h : List.Forall₂ (Cut error) ss ts) {e : ε}
    (he : ss.findSome? Source.error? = some e) : e = error := by
  induction h with
  | nil => simp at he
  | @cons s t ss ts hc h ih =>
    rw [List.findSome?_cons] at he
    cases hs : s.error? with
    | none => exact ih (by simpa [hs] using he)
    | some d => exact hc.eq_of_error? (by simpa [hs] using he)

theorem cuts_emission (h : List.Forall₂ (Cut error) ss ts)
    (he : ss.findSome? Source.error? = none)
    (hnext : (advance key ss).findSome? Source.error? = none) :
    emission key ss = emission key ts := by
  have hwinner : winner? key ss = winner? key ts := by rw [winner?, winner?, cuts_heads h he]
  rw [emission, emission, hnext, cuts_error?_right (cuts_advance h he key), hwinner]

/-- If a source ends in an error, the merge gives a part of what it gives otherwise, from the
beginning, and then the error. -/
theorem merge_of_cuts (h : List.Forall₂ (Cut error) ss ts)
    (herror : ∃ s ∈ ss, .error error ∈ s) :
    ∃ front, front <+: merge ts ∧ merge ss = front ++ [.error error] := by
  induction hn : remaining ss using Nat.strongRecOn generalizing ss ts with
  | ind n ih =>
    cases he : ss.findSome? Source.error? with
    | some e =>
      rw [merge_of_error he, cuts_error h he]
      exact ⟨[], List.nil_prefix, rfl⟩
    | none =>
      have hheads := cuts_heads h he
      have hfirst : firstKey? ss = firstKey? ts := by rw [firstKey?, firstKey?, hheads]
      cases hk : firstKey? ss with
      | none =>
        obtain ⟨s, hs, hmem⟩ := herror
        have hhead := firstKey?_eq_none_iff.mp hk s hs
        have hnone := List.findSome?_eq_none_iff.mp he s hs
        match s with
        | .ok e :: s => simp [Source.head?] at hhead
        | .error e :: s => simp [Source.error?] at hnone
      | some key =>
        have herror' : ∃ s ∈ advance key ss, .error error ∈ s := by
          obtain ⟨s, hs, hmem⟩ := herror
          exact ⟨s.advance key, List.mem_map.mpr ⟨s, hs, rfl⟩, mem_advance hmem key⟩
        have hcuts := cuts_advance h he key
        have hlt := hn ▸ remaining_advance_lt hk
        obtain ⟨front, hp, hmerge⟩ := ih _ hlt hcuts herror' rfl
        rw [merge_of_some he hk, merge_of_some (cuts_error?_right h) (hfirst ▸ hk), hmerge]
        cases hnext : (advance key ss).findSome? Source.error? with
        | some e =>
          have hfront : front = [] := by
            have hone := congrArg List.length (hmerge.symm.trans (merge_of_error hnext))
            exact List.length_eq_zero_iff.mp (by simpa using hone)
          rw [emission_eq_nil hnext, hfront]
          exact ⟨[], List.nil_prefix, rfl⟩
        | none =>
          rw [cuts_emission h he hnext]
          exact ⟨emission key ts ++ front, (List.prefix_append_right_inj _).mpr hp,
            (List.append_assoc ..).symm⟩

end Cuts

end ChangeBuffer.Merge
