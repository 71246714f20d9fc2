import ChangeBuffer.Proofs.Partition.Periods
import ChangeBuffer.Proofs.Partition.Words

/-! # Rows without a path

A row that fits the schema has no path exactly if it has a date outside the years that are written,
or a number whose multiple of the width is below all words of its type.  It is the first such field
that the error names.
-/

namespace ChangeBuffer.Partition

open Calendar

/-- The transform takes the value, and there is no text for it. -/
inductive Unwritable : Transform → Value → Prop
  | date {t : Transform} {v : Value} {n : Int} {d : Date}
      (ht : t ∈ [.identity, .year, .month, .day, .hour]) (hv : OnDay v n) (hd : Falls n d)
      (hyear : d.year < firstYear ∨ lastYear < d.year) : Unwritable t v
  | number {w bits : Nat} {v : Value} {n : Int} (hv : IsNumber v bits n)
      (hlow : w * n.fdiv w < -2 ^ (bits - 1)) : Unwritable (.truncate w) v

variable {t : Transform} {type : ValueType} {v : Value} {w : Nat} {n : Int} {e : Refusal}

theorem Unwritable.isNull_eq (h : Unwritable t v) : v.isNull = false := by
  cases h with
  | date _ hv _ _ => exact hv.isNull_eq
  | number hv _ => exact hv.isNull_eq

theorem not_unwritable_void : ¬ Unwritable .void v := by
  rintro (⟨ht, -⟩ | _)
  simp at ht

theorem unwritable_truncate_iff :
    Unwritable (.truncate w) v ↔
      ∃ bits n, IsNumber v bits n ∧ w * n.fdiv w < (-2 ^ (bits - 1) : Int) := by
  constructor
  · rintro (⟨ht, -⟩ | ⟨hv, hlow⟩)
    · simp at ht
    · exact ⟨_, _, hv, hlow⟩
  · rintro ⟨bits, n, hv, hlow⟩
    exact .number hv hlow

theorem unwritable_iff_of_onDay (ht : t ∈ [.identity, .year, .month, .day, .hour])
    (hv : OnDay v n) : Unwritable t v ↔ inRange n = false := by
  have hrange : inRange n = false ↔
      (Date.ofDay n).year < firstYear ∨ lastYear < (Date.ofDay n).year := by
    rw [← Bool.not_eq_true, inRange_iff, Classical.not_and_iff_not_or_not, Int.not_le, Int.not_le]
  rw [hrange]
  constructor
  · rintro (⟨-, hv', hd, hyear⟩ | _)
    · rwa [falls_iff.mp hd, hv'.unique hv] at hyear
    · simp at ht
  · exact .date ht hv (falls_iff.mpr rfl)

/-! ## Transforms -/

theorem eq_date_of_conforms :
    {v : Value} → v.conforms .date = true → v.isNull = false → ∃ days, v = .date days
  | .date days, _, _ => ⟨days, rfl⟩

theorem eq_timestamp_of_conforms :
    {v : Value} → v.conforms .timestamp = true → v.isNull = false → ∃ micros, v = .timestamp micros
  | .timestamp micros, _, _ => ⟨micros, rfl⟩

theorem exists_onDay (ht : type = .date ∨ type = .timestamp) (hc : v.conforms type = true)
    (hv : v.isNull = false) : ∃ n, OnDay v n := by
  rcases ht with rfl | rfl
  · obtain ⟨days, rfl⟩ := eq_date_of_conforms hc hv
    exact ⟨_, .date days⟩
  · obtain ⟨micros, rfl⟩ := eq_timestamp_of_conforms hc hv
    exact ⟨_, .moment micros⟩

theorem ite_inRange_eq_error_iff {α : Type} {a : α} :
    (if inRange n then Except.ok a else .error .outOfRange) = .error e ↔
      e = .outOfRange ∧ inRange n = false := by
  cases inRange n with
  | false => simpa using eq_comm
  | true => simp

theorem dateOf_eq_error_iff (hv : OnDay v n) :
    dateOf v = .error e ↔ e = .outOfRange ∧ inRange n = false := by
  rw [dateOf, hv.dayOf?_eq]
  exact ite_inRange_eq_error_iff

theorem hourText_eq_error_iff {micros : BitVec 64} (hv : OnDay (.timestamp micros) n) :
    hourText (.timestamp micros) = .error e ↔ e = .outOfRange ∧ inRange n = false := by
  obtain rfl := Option.some.inj hv.dayOf?_eq
  rw [hourText]
  exact ite_inRange_eq_error_iff

theorem identityText_eq_error_iff :
    identityText type v = .error e ↔ e = .outOfRange ∧ Unwritable .identity v := by
  have hday {n : Int} (hv : OnDay v n) := unwritable_iff_of_onDay (t := .identity) (by simp) hv
  cases v with
  | date days =>
    rw [hday (.date days), identityText, dayText]
    exact ite_inRange_eq_error_iff
  | timestamp micros =>
    rw [hday (.moment micros), fdiv_day, identityText]
    exact ite_inRange_eq_error_iff
  | _ =>
    constructor
    · intro h
      cases h
    · rintro ⟨-, ⟨-, hv, -⟩ | _⟩
      cases hv

theorem truncateText_eq_error_iff (hf : (Transform.truncate w).Fits type)
    (hc : v.conforms type = true) (hv : v.isNull = false) :
    truncateText w type v = .error e ↔ e = .outOfRange ∧ Unwritable (.truncate w) v := by
  have hnumber {bits : Nat} {n : Int} (hn : IsNumber v bits n) :
      truncateText w type v = .error e ↔ e = .outOfRange ∧ Unwritable (.truncate w) v := by
    rw [truncateText_of_isNumber hf hc hn, map_eq_error_iff, floorTo_eq, unwritable_truncate_iff]
    split
    next hle =>
      constructor
      · intro h
        cases h
      · rintro ⟨-, bits', n', hn', hlow⟩
        obtain ⟨rfl, rfl⟩ := hn.unique hn'
        omega
    next hlt =>
      rw [Except.error.injEq, eq_comm, iff_self_and]
      exact fun _ => ⟨bits, n, hn, Int.not_le.mp hlt⟩
  rw [unwritable_truncate_iff] at hnumber ⊢
  match type, v, hf.applies, hc, hv with
  | .int, .int v, _, _, _ => exact hnumber (.int v)
  | .long, .long v, _, _, _ => exact hnumber (.long v)
  | .decimal _ _, .decimal v, _, _, _ => exact hnumber (.decimal v)
  | .string, .string s, _, _, _ | .binary, .binary bs, _, _, _ =>
    constructor
    · intro h
      cases h
    · rintro ⟨-, bits, n, hn, -⟩
      cases hn

/-- A transform of a field fails exactly for the values that are unwritable, and never for want of
support. -/
theorem Transform.render_eq_error_iff (hf : t.Fits type) (hc : v.conforms type = true) :
    t.render type v = .error e ↔ e = .outOfRange ∧ Unwritable t v := by
  cases hv : v.isNull with
  | true =>
    have hwritable : ¬ Unwritable t v := fun h => by simp [h.isNull_eq] at hv
    simp [render, hv, hwritable]
  | false =>
    have happlies := hf.applies
    unfold render
    rw [if_neg (by simp [hv])]
    cases t with
    | void => simp [not_unwritable_void]
    | identity =>
      dsimp only
      rw [map_eq_error_iff, identityText_eq_error_iff]
    | truncate w =>
      dsimp only
      rw [map_eq_error_iff, truncateText_eq_error_iff hf hc hv]
    | hour =>
      obtain rfl : type = .timestamp := by simpa [applies] using happlies
      obtain ⟨micros, rfl⟩ := eq_timestamp_of_conforms hc hv
      dsimp only
      rw [unwritable_iff_of_onDay (by simp) (.moment micros), map_eq_error_iff,
        hourText_eq_error_iff (.moment micros)]
    | year | month | day =>
      obtain ⟨n, hn⟩ := exists_onDay (by simpa [applies] using happlies) hc hv
      dsimp only
      rw [unwritable_iff_of_onDay (by simp) hn, map_eq_error_iff, dateOf_eq_error_iff hn]

/-! ## Schemes -/

def Rule.Refuses (rule : Rule) (schema : Schema) (r : Row) (v : Value) : Prop :=
  schema.value? rule.source r = some v ∧ Unwritable rule.transform v

variable {schema : Schema} {spec : Spec} {rule : Rule} {r : Row} {f : Field} {s : Scheme}

theorem Field.Binds.valueText_eq_error_iff (h : Binds schema rule f) (hr : schema.fault? r = none)
    {e : PathError} :
    f.valueText r = .error e ↔
      ∃ v, rule.Refuses schema r v ∧ e = ⟨.outOfRange, rule.name, rule.transform, v⟩ := by
  obtain ⟨hv, hc⟩ := h.reads hr
  have hrender {refusal : Refusal} := Transform.render_eq_error_iff (e := refusal) f.fits hc
  simp only [Rule.Refuses, hv, ← h.name, ← h.transform, Option.some.injEq, and_assoc,
    exists_eq_left']
  cases htext : f.transform.render f.accessor.type (f.accessor.read r) with
  | ok text =>
    have hwritable : ¬ Unwritable f.transform (f.accessor.read r) := fun hout =>
      nomatch htext.symm.trans (hrender.mpr ⟨rfl, hout⟩)
    simp [valueText, htext, hwritable]
  | error refusal =>
    obtain ⟨rfl, hout⟩ := hrender.mp htext
    rw [valueText_of_render_error htext, Except.error.injEq, eq_comm, and_iff_right hout]

namespace Scheme

theorem exists_rule_of_field {front back : List Field} (h : bind spec schema = .ok s)
    (hf : s.fields = front ++ f :: back) :
    ∃ front' rule back', spec.rules = front' ++ rule :: back' ∧ Field.Binds schema rule f ∧
      List.Forall₂ (Field.Binds schema) front' front := by
  have hbinds := binds_of_bind h
  rw [hf] at hbinds
  obtain ⟨rule, back', hrule, -, hdrop⟩ :=
    List.forall₂_cons_right_iff.mp (List.forall₂_drop_append _ _ _ hbinds)
  refine ⟨_, rule, back', ?_, hrule, List.forall₂_take_append _ _ _ hbinds⟩
  rw [← hdrop, List.take_append_drop]

/-- A row that fits has no path exactly if a rule finds an unwritable value in it, and the error is
that of the first such rule.  The steps of the transforms all have results, for any value. -/
theorem path_fails_iff (hs : bind spec schema = .ok s) (hr : schema.fault? r = none) :
    ((∃ e, s.path r = .error e) ↔ ∃ rule ∈ spec.rules, ∃ v, rule.Refuses schema r v) ∧
      (∀ e, s.path r = .error e → ∃ front rule back v, spec.rules = front ++ rule :: back ∧
        (∀ rule' ∈ front, ∀ v', ¬ rule'.Refuses schema r v') ∧ rule.Refuses schema r v ∧
        e = ⟨.outOfRange, rule.name, rule.transform, v⟩) ∧
      ∀ f ∈ s.fields, (∀ w, f.transform = .truncate w → w < 2 ^ 32) →
        ∀ v, f.transform.render? f.accessor.type v = some (f.transform.render f.accessor.type v) := by
  have hfirst (e : PathError) (he : s.path r = .error e) :
      ∃ front rule back v, spec.rules = front ++ rule :: back ∧
        (∀ rule' ∈ front, ∀ v', ¬ rule'.Refuses schema r v') ∧ rule.Refuses schema r v ∧
        e = ⟨.outOfRange, rule.name, rule.transform, v⟩ := by
    obtain ⟨front, f, back, hfields, hfront, hf⟩ := path_eq_error_iff.mp he
    obtain ⟨front', rule, back', hrules, hrule, hbinds⟩ := exists_rule_of_field hs hfields
    obtain ⟨v, hv, heq⟩ := (hrule.valueText_eq_error_iff hr).mp hf
    refine ⟨front', rule, back', v, hrules, fun rule' hrule' v' hv' => ?_, hv, heq⟩
    obtain ⟨g, hg, hbind⟩ := exists_of_forall₂_of_mem hbinds hrule'
    obtain ⟨text, htext⟩ := hfront g hg
    cases htext.symm.trans ((hbind.valueText_eq_error_iff hr).mpr ⟨v', hv', rfl⟩)
  refine ⟨⟨?_, ?_⟩, hfirst, fun f hf hw v => Transform.render?_eq f.fits.positive hw _ v⟩
  · rintro ⟨e, he⟩
    obtain ⟨front, rule, back, v, hrules, -, hv, -⟩ := hfirst e he
    exact ⟨rule, hrules ▸ List.mem_append_right _ List.mem_cons_self, v, hv⟩
  · rintro ⟨rule, hrule, v, hv⟩
    obtain ⟨f, hf, hbinds⟩ := exists_of_forall₂_of_mem (binds_of_bind hs) hrule
    cases hpath : s.path r with
    | error e => exact ⟨e, rfl⟩
    | ok path =>
      obtain ⟨text, pairs, htext, -⟩ := exists_text_of_path hf hpath
      cases htext.symm.trans ((hbinds.valueText_eq_error_iff hr).mpr ⟨v, hv, rfl⟩)

theorem path_fails_iff_at_least_int :
    ∃ (spec : Spec) (schema : Schema) (r : Row) (s : Scheme),
      spec.rules = [⟨2, "none", .void⟩, ⟨1, "tens", .truncate 10⟩, ⟨2, "hour", .hour⟩] ∧
      schema.columns = [⟨1, "count", .int, true⟩, ⟨2, "at", .timestamp, false⟩] ∧
      r.values = [.int (-2147483648), .timestamp 9223372036854775807] ∧
      bind spec schema = .ok s ∧ schema.fault? r = none ∧
      s.path r = .error ⟨.outOfRange, "tens", .truncate 10, .int (-2147483648)⟩ ∧
      ∃ front rule back v, spec.rules = front ++ rule :: back ∧
        (∀ rule' ∈ front, ∀ v', ¬ rule'.Refuses schema r v') ∧ rule.Refuses schema r v ∧
        (⟨.outOfRange, "tens", .truncate 10, .int (-2147483648)⟩ : PathError) =
          ⟨.outOfRange, rule.name, rule.transform, v⟩ := by
  obtain ⟨s, hs⟩ : ∃ s, bind
      ⟨[⟨2, "none", .void⟩, ⟨1, "tens", .truncate 10⟩, ⟨2, "hour", .hour⟩]⟩
      ⟨[⟨1, "count", .int, true⟩, ⟨2, "at", .timestamp, false⟩]⟩ = .ok s := ⟨_, rfl⟩
  have hp : s.path ⟨.insert, [.int (-2147483648), .timestamp 9223372036854775807]⟩ =
      .error ⟨.outOfRange, "tens", .truncate 10, .int (-2147483648)⟩ := by
    obtain rfl := Except.ok.inj hs
    rfl
  exact ⟨_, _, _, s, rfl, rfl, rfl, hs, by decide, hp, (path_fails_iff hs (by decide)).2.1 _ hp⟩

end Scheme

end ChangeBuffer.Partition
