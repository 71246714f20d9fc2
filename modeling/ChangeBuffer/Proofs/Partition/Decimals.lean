import ChangeBuffer.Proofs.Partition.Words

/-! # Partitions by decimals

Under the identity a decimal is written as the number that it stands for, whatever its unscaled
value and its scale: a scale above zero gives as many digits behind a point, any other gives an
integer.
-/

namespace ChangeBuffer.Partition

/-- The text of a decimal is a numeral of exactly its value, and every step on the way to it has a
result.  It has a minus sign if the value is negative, at least one digit in front of the point, and
a point exactly if there are digits behind it, of which there are as many as the scale says. -/
theorem Transform.render_identity_decimal (precision : Nat) (scale : Int) (unscaled : BitVec 128) :
    ∃ text whole places : List Char,
      identity.render (.decimal precision scale) (.decimal unscaled) = .ok (some text) ∧
      identity.render? (.decimal precision scale) (.decimal unscaled) = some (.ok (some text)) ∧
      Numeral.readDecimal text = some ((unscaled.toInt : ℚ) * 10 ^ (-scale)) ∧
      text = (if unscaled.toInt < 0 then ['-'] else []) ++ whole ++
        (if 0 < scale then '.' :: places else []) ∧
      whole ≠ [] ∧ (∀ c ∈ whole, c.isDigit) ∧ (∀ c ∈ places, c.isDigit) ∧
      places.length = scale.toNat ∧
      (text.head? = some '-' ↔ unscaled.toInt < 0) ∧ ('.' ∈ text ↔ 0 < scale) := by
  obtain ⟨whole, places, htext, hne, hwhole, hplaces, hlength⟩ :=
    Numeral.exists_scaled_eq unscaled.toInt scale
  have hrender : identity.render (.decimal precision scale) (.decimal unscaled) =
      .ok (some (Numeral.scaled unscaled.toInt scale)) := rfl
  have hsteps : identity.render? (.decimal precision scale) (.decimal unscaled) =
      some (identity.render (.decimal precision scale) (.decimal unscaled)) :=
    Transform.render?_eq (by simp) (by simp) _ _
  refine ⟨_, whole, places, hrender, hsteps.trans (congrArg some hrender),
    Numeral.readDecimal_scaled _ _, htext, hne, hwhole, hplaces, hlength, ?_, ?_⟩
  · obtain ⟨c, cs, rfl⟩ := List.exists_cons_of_ne_nil hne
    have hminus : c ≠ '-' := by
      rintro rfl
      exact absurd (hwhole '-' List.mem_cons_self) (by decide)
    rw [htext, Numeral.sign]
    split <;> simp [*]
  · have hpoint : '.' ∉ whole := fun h => Numeral.isDigit_ne_point (hwhole _ h) rfl
    have hsign := Numeral.point_not_mem_sign unscaled.toInt
    rw [htext]
    split <;> simp [*]

end ChangeBuffer.Partition
