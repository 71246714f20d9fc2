import ChangeBuffer.Bytes.Basic

/-! # The order of byte strings

In the lexicographic order the byte strings that begin with a given one stand next to each other:
nothing in front of them begins with it, and nothing behind the first that does not.
-/

namespace ChangeBuffer.Bytes

theorem not_prefix_of_lt {stem key : Bytes} (h : key < stem) : ¬ stem <+: key := by
  induction stem generalizing key with
  | nil => simp at h
  | cons b stem ih =>
    cases key with
    | nil => simp
    | cons c key =>
      rw [List.cons_prefix_cons]
      rintro ⟨rfl, hp⟩
      exact ih (by simpa using h) hp

theorem prefix_of_between {stem key key' : Bytes} (hs : ¬ key < stem) (hk : key < key')
    (hp : stem <+: key') : stem <+: key := by
  induction stem generalizing key key' with
  | nil => exact List.nil_prefix
  | cons b stem ih =>
    obtain ⟨tail, rfl⟩ := hp
    cases key with
    | nil => simp at hs
    | cons c key =>
      rw [List.cons_lt_cons_iff, not_or, not_and] at hs
      rw [List.cons_append, List.cons_lt_cons_iff] at hk
      obtain rfl : c = b := by
        rcases hk with hlt | ⟨he, -⟩
        · exact absurd hlt hs.1
        · exact he
      have hlt : key < stem ++ tail := by simpa [UInt8.lt_irrefl] using hk
      exact List.cons_prefix_cons.mpr ⟨rfl, ih (hs.2 rfl) hlt (List.prefix_append _ _)⟩

end ChangeBuffer.Bytes
