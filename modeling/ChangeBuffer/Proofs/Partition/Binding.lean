import ChangeBuffer.Partition.Scheme
import ChangeBuffer.Proofs.Batch.Rows

/-! # Fields and columns

The fields of a scheme are those of its spec, in order.  Each reads the first column with the id
that its rule names, and in a row that fits the schema it finds a value of its own type there.
-/

namespace ChangeBuffer

namespace Schema

variable {s : Schema} {r : Row} {c : Column} {i : Nat}

def value? (s : Schema) (id : Int) (r : Row) : Option Value := (s.position? id).bind r.get?

theorem getElem?_of_position? {id : Int} (hi : s.position? id = some i) (hc : s.column? id = some c) :
    s.columns[i]? = some c := by
  rw [column?, List.find?_eq_bind_findIdx?_getElem?] at hc
  rw [position?] at hi
  rwa [hi] at hc

theorem exists_value_of_fault? (h : s.fault? r = none) (hc : s.columns[i]? = some c) :
    ∃ v, r.values[i]? = some v ∧ v.conforms c.type = true := by
  have harity : r.arity = s.size := arity_eq_of_fault? h
  have hlt : i < r.values.length :=
    Nat.lt_of_lt_of_eq (List.getElem?_eq_some_iff.mp hc).1 harity.symm
  refine ⟨r.values[i], List.getElem?_eq_getElem hlt, ?_⟩
  rw [fault?, if_neg (not_not.mpr harity), List.findSome?_eq_none_iff] at h
  have hmem : (c, r.values[i]) ∈ s.columns.zip r.values :=
    List.mem_of_getElem? (List.getElem?_zip_eq_some.mpr ⟨hc, List.getElem?_eq_getElem hlt⟩)
  have hfault : c.fault? r.values[i] = none := h _ hmem
  unfold Column.fault? at hfault
  split at hfault
  · cases hfault
  split at hfault
  next hconforms => exact hconforms
  next => cases hfault

end Schema

namespace Partition

variable {schema : Schema} {rule : Rule} {f : Field} {r : Row}

namespace Field

/-- The field does what the rule says, with the first column that the rule names. -/
structure Binds (schema : Schema) (rule : Rule) (f : Field) : Prop where
  name : f.name = rule.name
  transform : f.transform = rule.transform
  accessor : ∃ i c, schema.position? rule.source = some i ∧ schema.columns[i]? = some c ∧
    f.accessor = ⟨i, c.type⟩

theorem binds_of_bind {taken : List String} (h : bind schema taken rule = .ok f) :
    Binds schema rule f := by
  unfold bind at h
  split at h
  · cases h
  split at h
  · cases h
  split at h
  next i c hi hc =>
    split at h
    next =>
      split at h
      · cases h
      · rw [← Except.ok.inj h]
        exact ⟨rfl, rfl, i, c, hi, Schema.getElem?_of_position? hi hc, rfl⟩
    next => cases h
  next => cases h

/-- A field reads the value of its column, which is of the field's type. -/
theorem Binds.reads (h : Binds schema rule f) (hr : schema.fault? r = none) :
    schema.value? rule.source r = some (f.accessor.read r) ∧
      (f.accessor.read r).conforms f.accessor.type = true := by
  obtain ⟨i, c, hi, hc, ha⟩ := h.accessor
  obtain ⟨v, hv, hconforms⟩ := Schema.exists_value_of_fault? hr hc
  have hread : f.accessor.read r = v := by
    rw [ha, Accessor.read, List.getD_eq_getElem?_getD, hv, Option.getD_some]
  rw [hread, Schema.value?, hi, Option.bind_some, Row.get?, ha]
  exact ⟨hv, hconforms⟩

end Field

namespace Scheme

variable {spec : Spec} {s : Scheme}

theorem binds_of_bindFields {taken : List String} {rules : List Rule} {fields : List Field}
    (h : bindFields schema taken rules = .ok fields) :
    List.Forall₂ (Field.Binds schema) rules fields := by
  induction rules generalizing taken fields with
  | nil =>
    obtain rfl := Except.ok.inj h
    exact .nil
  | cons rule rules ih =>
    rw [bindFields] at h
    split at h
    · cases h
    next f hf =>
      split at h
      · cases h
      next fs hfs =>
        obtain rfl := Except.ok.inj h
        exact .cons (Field.binds_of_bind hf) (ih hfs)

theorem binds_of_bind (h : bind spec schema = .ok s) :
    List.Forall₂ (Field.Binds schema) spec.rules s.fields := by
  rw [bind] at h
  cases hfields : bindFields schema [] spec.rules with
  | error e =>
    rw [hfields] at h
    cases h
  | ok fields =>
    rw [hfields] at h
    obtain rfl := Except.ok.inj h
    exact binds_of_bindFields hfields

theorem map_name_of_bind (h : bind spec schema = .ok s) :
    s.fields.map Field.name = spec.rules.map Rule.name := by
  have hnames : List.Forall₂ (· = ·) (spec.rules.map Rule.name) (s.fields.map Field.name) := by
    rw [List.forall₂_map_left_iff, List.forall₂_map_right_iff]
    exact (binds_of_bind h).imp fun _ _ hbinds => hbinds.name.symm
  rw [List.forall₂_eq_eq_eq] at hnames
  exact hnames.symm

end Scheme

end Partition

end ChangeBuffer
