import ChangeBuffer.Proofs.Bytes.Hex
import ChangeBuffer.Proofs.Calendar.Moment
import ChangeBuffer.Proofs.Decimal.Scaled
import ChangeBuffer.Proofs.Partition.Texts

/-! # Partitions by values as they are

Under the identity a value is read back from its text, whatever its type, but for floating-point
numbers.  So two values share a path exactly if they are equal, or one is null and the other is the
text that stands for null.
-/

namespace ChangeBuffer.Partition

open Calendar

/-- The value of the type that is spelled.  Floating-point numbers are not read. -/
def readText : ValueType → List Char → Option Value
  | .boolean, cs =>
    if cs = ['t', 'r', 'u', 'e'] then some (.boolean true)
    else if cs = ['f', 'a', 'l', 's', 'e'] then some (.boolean false)
    else none
  | .int, cs => (Numeral.readInt cs).map fun n => .int (.ofInt 32 n)
  | .long, cs => (Numeral.readInt cs).map fun n => .long (.ofInt 64 n)
  | .float, _ | .double, _ => none
  | .date, cs => (Date.read cs).map fun d => .date (.ofInt 32 d.toDay)
  | .timestamp, cs => (readMoment cs).map fun n => .timestamp (.ofInt 64 n)
  | .string, cs => some (.string (String.ofList cs))
  | .binary, cs => (Hex.read cs).map .binary
  | .decimal _ scale, cs =>
    (Numeral.readDecimal cs).map fun q => .decimal (.ofInt 128 (q * 10 ^ scale).num)

variable {type : ValueType} {v v' : Value} {cs cs' : List Char}

theorem readText_identityText (hfloat : type ≠ .float) (hdouble : type ≠ .double)
    (hc : v.conforms type = true) (hv : v.isNull = false) (h : identityText type v = .ok cs) :
    readText type cs = some v := by
  match type, v, hc, hv with
  | .boolean, .boolean b, _, _ =>
    obtain rfl := Except.ok.inj h
    cases b <;> rfl
  | .int, .int v, _, _ | .long, .long v, _, _ =>
    obtain rfl := Except.ok.inj h
    rw [readText, Numeral.readInt_ofInt, Option.map_some, BitVec.ofInt_toInt]
  | .float, _, _, _ => exact absurd rfl hfloat
  | .double, _, _, _ => exact absurd rfl hdouble
  | .date, .date days, _, _ =>
    rw [identityText, dayText] at h
    split at h
    · obtain rfl := Except.ok.inj h
      rw [readText, Date.read_text (Date.valid_ofDay _), Option.map_some, Date.toDay_ofDay,
        BitVec.ofInt_toInt]
    · cases h
  | .timestamp, .timestamp micros, _, _ =>
    rw [identityText] at h
    split at h
    · obtain rfl := Except.ok.inj h
      rw [readText, readMoment_momentText, Option.map_some, BitVec.ofInt_toInt]
    · cases h
  | .string, .string s, _, _ =>
    obtain rfl := Except.ok.inj h
    rw [readText, String.ofList_toList]
  | .binary, .binary bs, _, _ =>
    obtain rfl := Except.ok.inj h
    rw [readText, Hex.read_encode, Option.map_some]
  | .decimal precision scale, .decimal unscaled, _, _ =>
    obtain rfl := Except.ok.inj h
    have hpow : (10 : ℚ) ^ scale ≠ 0 := zpow_ne_zero _ (by norm_num)
    rw [readText, scaleOf, Numeral.readDecimal_scaled, Option.map_some, zpow_neg,
      inv_mul_cancel_right₀ hpow, Rat.num_intCast, BitVec.ofInt_toInt]

theorem readText_nullText (h : type ≠ .string) : readText type nullText = none := by
  cases type with
  | string => exact absurd rfl h
  | decimal precision scale =>
    have hnone : Numeral.readDecimal nullText = none := by decide
    rw [readText, hnone, Option.map_none]
  | _ => decide

variable {s : Scheme} {f : Field} {r r' : Row} {path path' text text' : String}

theorem Field.text_of_identity (ht : f.transform = .identity) (h : f.valueText r = .ok text) :
    f.accessor.read r = .null ∧ text.toList = nullText ∨
      (f.accessor.read r).isNull = false ∧
        identityText f.accessor.type (f.accessor.read r) = .ok text.toList := by
  cases hv : (f.accessor.read r).isNull with
  | true =>
    rw [valueText_of_isNull hv, Except.ok.injEq] at h
    exact Or.inl ⟨Value.eq_null hv, by rw [← h, String.toList_ofList]⟩
  | false =>
    refine Or.inr ⟨rfl, eq_ok_of_valueText ?_ h⟩
    simp only [ht, Transform.render, hv, Bool.false_eq_true, if_false]

/-- A value has the text that stands for null exactly if it is that text. -/
theorem identityText_eq_nullText_iff (hfloat : type ≠ .float) (hdouble : type ≠ .double)
    (hc : v.conforms type = true) (hv : v.isNull = false) (h : identityText type v = .ok cs) :
    cs = nullText ↔ type = .string ∧ v = .string "null" := by
  have hread := readText_identityText hfloat hdouble hc hv h
  constructor
  · rintro rfl
    have htype : type = .string := by
      by_contra hne
      rw [readText_nullText hne] at hread
      cases hread
    obtain rfl := htype
    exact ⟨rfl, (Option.some.inj hread).symm⟩
  · rintro ⟨rfl, rfl⟩
    exact (Except.ok.inj h).symm

/-- Under one field that keeps values as they are, two rows have the same path exactly if their
values are equal, or one is null and the other is the text `null`. -/
theorem Scheme.path_eq_iff_value_eq (hs : s.fields = [f]) (ht : f.transform = .identity)
    (hfloat : f.accessor.type ≠ .float) (hdouble : f.accessor.type ≠ .double)
    (hc : (f.accessor.read r).conforms f.accessor.type = true)
    (hc' : (f.accessor.read r').conforms f.accessor.type = true)
    (hp : s.path r = .ok path) (hp' : s.path r' = .ok path') :
    path = path' ↔
      f.accessor.read r = f.accessor.read r' ∨
        f.accessor.type = .string ∧
          (f.accessor.read r = .null ∧ f.accessor.read r' = .string "null" ∨
            f.accessor.read r = .string "null" ∧ f.accessor.read r' = .null) := by
  have hf : f ∈ s.fields := hs ▸ List.mem_cons_self
  have halike : s.AlikeBut f r r' := by
    intro g hg hne
    rw [hs, List.mem_singleton] at hg
    exact absurd hg hne
  obtain ⟨text, -, htext, -⟩ := exists_text_of_path hf hp
  obtain ⟨text', -, htext', -⟩ := exists_text_of_path hf hp'
  rw [path_eq_iff_of_alikeBut hf halike hp hp', htext, htext', Except.ok.injEq,
    ← String.toList_inj]
  have hne {v : Value} (hv : v.isNull = false) : v ≠ .null := by
    rintro rfl
    cases hv
  rcases Field.text_of_identity ht htext with ⟨hv, hcs⟩ | ⟨hv, hcs⟩ <;>
    rcases Field.text_of_identity ht htext' with ⟨hv', hcs'⟩ | ⟨hv', hcs'⟩
  · simp [hcs, hcs', hv, hv']
  · rw [hcs, eq_comm, identityText_eq_nullText_iff hfloat hdouble hc' hv' hcs']
    simp [hv, (hne hv').symm]
  · rw [hcs', identityText_eq_nullText_iff hfloat hdouble hc hv hcs]
    simp [hv', hne hv]
  · have hread := readText_identityText hfloat hdouble hc hv hcs
    have hread' := readText_identityText hfloat hdouble hc' hv' hcs'
    simp only [hne hv, hne hv', false_and, and_false, or_false]
    constructor
    · intro heq
      rw [heq, hread'] at hread
      exact (Option.some.inj hread).symm
    · intro heq
      rw [heq, hcs'] at hcs
      exact (Except.ok.inj hcs).symm

theorem Scheme.path_eq_iff_value_eq_of_null :
    ∃ (s : Scheme) (f : Field) (r r' : Row),
      bind ⟨[⟨1, "name", .identity⟩]⟩ ⟨[⟨1, "name", .string, false⟩]⟩ = .ok s ∧
      s.fields = [f] ∧ f.transform = .identity ∧ f.accessor.type = .string ∧
      f.accessor.read r = .null ∧ f.accessor.read r' = .string "null" ∧
      f.accessor.type ≠ .float ∧ f.accessor.type ≠ .double ∧
      (f.accessor.read r).conforms f.accessor.type = true ∧
      (f.accessor.read r').conforms f.accessor.type = true ∧
      s.path r = .ok "name=null" ∧ s.path r' = .ok "name=null" ∧
      ("name=null" = "name=null" ↔
        f.accessor.read r = f.accessor.read r' ∨
          f.accessor.type = .string ∧
            (f.accessor.read r = .null ∧ f.accessor.read r' = .string "null" ∨
              f.accessor.read r = .string "null" ∧ f.accessor.read r' = .null)) := by
  obtain ⟨s, hs⟩ : ∃ s, bind ⟨[⟨1, "name", .identity⟩]⟩ ⟨[⟨1, "name", .string, false⟩]⟩ = .ok s :=
    ⟨_, rfl⟩
  obtain ⟨f, hf, ht, htype, hv, hv'⟩ : ∃ f, s.fields = [f] ∧ f.transform = .identity ∧
      f.accessor.type = .string ∧ f.accessor.read ⟨.insert, [.null]⟩ = .null ∧
      f.accessor.read ⟨.insert, [.string "null"]⟩ = .string "null" := by
    obtain rfl := Except.ok.inj hs
    exact ⟨_, rfl, rfl, rfl, rfl, rfl⟩
  have hfloat : f.accessor.type ≠ .float ∧ f.accessor.type ≠ .double := by
    rw [htype]
    decide
  have hc : (f.accessor.read ⟨.insert, [.null]⟩).conforms f.accessor.type = true := by
    rw [hv, htype]
    rfl
  have hc' : (f.accessor.read ⟨.insert, [.string "null"]⟩).conforms f.accessor.type = true := by
    rw [hv', htype]
    rfl
  have hp : s.path ⟨.insert, [.null]⟩ = .ok "name=null" := by
    obtain rfl := Except.ok.inj hs
    cbv
  have hp' : s.path ⟨.insert, [.string "null"]⟩ = .ok "name=null" := by
    obtain rfl := Except.ok.inj hs
    cbv
  exact ⟨s, f, _, _, hs, hf, ht, htype, hv, hv', hfloat.1, hfloat.2, hc, hc', hp, hp',
    path_eq_iff_value_eq hf ht hfloat.1 hfloat.2 hc hc' hp hp'⟩

end ChangeBuffer.Partition
