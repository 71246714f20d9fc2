import ChangeBuffer.Proofs.Partition.Path

/-! # Texts of fields

A row has no path exactly if a field has no text for it, and then the error is that of the first
such field.  Two rows to which all fields but one give the same texts have the same path exactly if
that field gives them the same text, too.
-/

namespace ChangeBuffer

theorem Value.eq_null : {v : Value} → v.isNull = true → v = .null
  | .null, _ => rfl

namespace Partition

variable {s : Scheme} {f : Field} {r r' : Row} {path path' : String} {e : PathError}
  {cs : List Char}

namespace Field

theorem valueText_of_render_none
    (h : f.transform.render f.accessor.type (f.accessor.read r) = .ok none) :
    f.valueText r = .ok (String.ofList nullText) := by
  simp only [valueText, h, Option.getD_none]

theorem valueText_of_render
    (h : f.transform.render f.accessor.type (f.accessor.read r) = .ok (some cs)) :
    f.valueText r = .ok (String.ofList cs) := by
  simp only [valueText, h, Option.getD_some]

theorem valueText_of_render_error {refusal : Refusal}
    (h : f.transform.render f.accessor.type (f.accessor.read r) = .error refusal) :
    f.valueText r = .error ⟨refusal, f.name, f.transform, f.accessor.read r⟩ := by
  simp only [valueText, h]

theorem valueText_of_isNull (h : (f.accessor.read r).isNull = true) :
    f.valueText r = .ok (String.ofList nullText) := by
  apply valueText_of_render_none
  simp only [Transform.render, h, if_true]

theorem eq_ok_of_valueText {x : Except Refusal (List Char)} {text : String}
    (hx : f.transform.render f.accessor.type (f.accessor.read r) = x.map some)
    (h : f.valueText r = .ok text) : x = .ok text.toList := by
  cases x with
  | error e => cases (valueText_of_render_error hx).symm.trans h
  | ok cs =>
    rw [valueText_of_render hx, Except.ok.injEq] at h
    rw [← h, String.toList_ofList]

end Field

namespace Scheme

/-- All fields but one give the same texts to both rows. -/
def AlikeBut (s : Scheme) (f : Field) (r r' : Row) : Prop :=
  ∀ g ∈ s.fields, g ≠ f → g.valueText r = g.valueText r'

theorem path_eq_error_iff :
    s.path r = .error e ↔
      ∃ front f back, s.fields = front ++ f :: back ∧
        (∀ g ∈ front, ∃ text, g.valueText r = .ok text) ∧ f.valueText r = .error e := by
  rw [path, valueTexts, map_eq_error_iff, mapM_eq_error_iff]
  simp only [map_eq_error_iff, exists_map_eq_ok_iff]

/-- The path of a row is determined by the texts of the fields. -/
theorem path_congr (h : ∀ f ∈ s.fields, f.valueText r = f.valueText r') : s.path r = s.path r' := by
  have htexts : s.valueTexts r = s.valueTexts r' := by
    unfold valueTexts
    generalize s.fields = fields at h
    induction fields with
    | nil => rfl
    | cons f fields ih =>
      obtain ⟨hf, h⟩ := List.forall_mem_cons.mp h
      rw [List.mapM_cons, List.mapM_cons, hf, ih h]
  rw [path, path, htexts]

theorem path_congr_of_alikeBut (h : s.AlikeBut f r r') (hf : f.valueText r = f.valueText r') :
    s.path r = s.path r' := by
  refine path_congr fun g hg => ?_
  by_cases hgf : g = f
  · rw [hgf, hf]
  · exact h g hg hgf

theorem path_eq_iff_of_alikeBut (hf : f ∈ s.fields) (h : s.AlikeBut f r r')
    (hp : s.path r = .ok path) (hp' : s.path r' = .ok path') :
    path = path' ↔ f.valueText r = f.valueText r' := by
  constructor
  · rintro rfl
    obtain ⟨pairs, rfl, hlabels⟩ := exists_of_path hp
    obtain ⟨pairs', heq, hlabels'⟩ := exists_of_path hp'
    have htexts := (labels_eq_iff hlabels hlabels').mp (writePath_inj heq)
    exact ((List.forall₂_same.mp htexts) f hf).2
  · intro heq
    have hpaths := path_congr_of_alikeBut h heq
    rw [hp, hp'] at hpaths
    exact Except.ok.inj hpaths

theorem exists_text_of_path (hf : f ∈ s.fields) (hp : s.path r = .ok path) :
    ∃ text pairs, f.valueText r = .ok text ∧ readPath path = some pairs ∧ (f.name, text) ∈ pairs := by
  obtain ⟨pairs, rfl, hlabels⟩ := exists_of_path hp
  obtain ⟨pair, hpair, hname, htext⟩ := exists_of_forall₂_of_mem hlabels hf
  refine ⟨pair.2, pairs, htext, readPath_writePath (List.ne_nil_of_mem hpair), ?_⟩
  rw [hname]
  exact hpair

end Scheme

end Partition

end ChangeBuffer
