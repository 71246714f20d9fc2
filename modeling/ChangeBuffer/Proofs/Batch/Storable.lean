import ChangeBuffer.Proofs.Batch.Rows

/-! # Storable schemas

Rows that fit a schema can be put into a batch, whatever they hold, unless the schema has no columns
or a decimal type that cannot be stored.  The batch then has the columns that the layout of the
schema promises.
-/

namespace ChangeBuffer

def ValueType.Unstorable : ValueType → Prop
  | decimal precision scale =>
    precision = 0 ∨ 38 < precision ∨ 38 < scale ∨ 0 < scale ∧ precision < scale
  | _ => False

/-- No batch can have the columns. -/
def Schema.Unstorable (s : Schema) : Prop :=
  s.columns = [] ∨ ∃ c ∈ s.columns, c.type.Unstorable

def ArrayType.Holds : ArrayType → Value → Prop
  | _, .null | boolean, .boolean _ | int32, .int _ | int64, .long _ | float32, .float _
  | float64, .double _ | date32, .date _ | timestampMicros, .timestamp _ | utf8, .string _
  | binary, .binary _ | decimal128 _ _, .decimal _ => True
  | _, _ => False

def ArrayType.Storable : ArrayType → Prop
  | decimal128 precision scale =>
    0 < precision ∧ precision ≤ 38 ∧ scale ≤ 38 ∧ (0 < scale → scale ≤ precision)
  | _ => True

/-- The array is of the type that the field promises, has as many cells as promised, and no null
where the field does not allow it. -/
structure ArrayField.Takes (f : ArrayField) (size : Nat) (a : ColumnArray) : Prop where
  type : a.type = f.type
  length : a.cells.length = size
  nulls : ¬ f.nullable → .null ∉ a.cells

structure ArrayField.Suits (f : ArrayField) (size : Nat) (a : ColumnArray) : Prop
    extends f.Takes size a where
  storable : f.type.Storable
  holds : ∀ v ∈ a.cells, f.type.Holds v

/-- The batch has the columns that the layout of the schema promises. -/
structure Batch.Suits (b : Batch) (schema : Schema) : Prop where
  nonempty : b.arrays ≠ []
  columns : List.Forall₂ (fun f a => f.Suits b.size a) schema.arrayFields b.arrays

theorem ValueType.batchFault?_eq_none_iff {t : ValueType} :
    t.batchFault? = none ↔ ¬ t.Unstorable := by
  cases t with
  | decimal precision scale =>
    unfold batchFault? Unstorable maxPrecision
    grind
  | _ => simp [batchFault?, Unstorable]

theorem ValueType.madeType_eq (t : ValueType) : t.madeType = t.arrayType := by cases t <;> rfl

theorem ValueType.storable_arrayType {t : ValueType} (h : ¬ t.Unstorable) :
    t.arrayType.Storable := by
  cases t with
  | decimal precision scale =>
    simp only [Unstorable, not_or, not_and] at h
    exact ⟨by omega, by omega, by omega, by omega⟩
  | _ => trivial

theorem ValueType.holds_arrayType {t : ValueType} {v cell : Value} (h : t.cell? v = some cell) :
    t.arrayType.Holds v := by
  unfold cell? at h
  split at h
  case h_12 => cases h
  all_goals simp [arrayType, ArrayType.Holds]

theorem ValueType.exists_cell? {t : ValueType} {v : Value} (h : v.conforms t) :
    ∃ cell, t.cell? v = some cell := by
  unfold Value.conforms at h
  split at h
  case h_12 => cases h
  all_goals exact ⟨_, rfl⟩

namespace Schema

variable {s : Schema} {r : Row} {c : Column} {i : Nat}

theorem column_fault?_eq_none (h : s.fault? r = none) (hc : s.columns[i]? = some c) :
    c.fault? ((r.get? i).getD .null) = none := by
  have harity : r.values.length = s.columns.length := arity_eq_of_fault? h
  rw [fault?, if_neg (not_not.mpr (arity_eq_of_fault? h)), List.findSome?_eq_none_iff] at h
  obtain ⟨hi, rfl⟩ := List.getElem?_eq_some_iff.mp hc
  have hi' : i < r.values.length := by omega
  have hzip : i < (s.columns.zip r.values).length := by
    rw [List.length_zip]
    omega
  have hvalue := h _ (List.getElem_mem hzip)
  rw [List.getElem_zip] at hvalue
  simpa [Row.get?, hi'] using hvalue

end Schema

namespace Column

variable {c : Column} {v : Value}

theorem conforms_of_fault? (h : c.fault? v = none) : v.conforms c.type := by
  unfold fault? at h
  split at h
  · cases h
  · split at h
    next hconforms => exact hconforms
    next => cases h

theorem not_isNull_of_fault? (h : c.fault? v = none) (hc : c.required) : ¬ v.isNull := by
  intro hv
  rw [fault?, hc, hv] at h
  cases h

theorem exists_array {values : List Value} (hc : ¬ c.type.Unstorable)
    (h : ∀ v ∈ values, v.conforms c.type) : ∃ a, c.array values = .ok a := by
  unfold array
  split
  next fault hfault =>
    obtain ⟨front, v, back, rfl, -, hv⟩ := mapM_eq_error_iff.mp hfault
    obtain ⟨cell, hcell⟩ := ValueType.exists_cell? (h v (by simp))
    rw [Column.cell, hcell] at hv
    cases hv
  next cells hcells =>
    rw [ValueType.batchFault?_eq_none_iff.mpr hc]
    exact ⟨_, rfl⟩

theorem array_of_unstorable (hc : c.type.Unstorable) (values : List Value) :
    ∃ fault, c.array values = .error fault := by
  unfold array
  split
  next fault _ => exact ⟨fault, rfl⟩
  next =>
    split
    next fault _ => exact ⟨fault, rfl⟩
    next hnone => exact absurd hc (ValueType.batchFault?_eq_none_iff.mp hnone)

theorem holds_of_array {values : List Value} {a : ColumnArray} (h : c.array values = .ok a) :
    c.arrayField.type.Storable ∧ ∀ v ∈ a.cells, c.arrayField.type.Holds v := by
  obtain rfl := eq_of_array h
  unfold Column.array at h
  split at h
  · cases h
  next hcells =>
    split at h
    · cases h
    next hfault =>
      cases h
      refine ⟨ValueType.storable_arrayType (ValueType.batchFault?_eq_none_iff.mp hfault),
        fun v hv => ?_⟩
      obtain ⟨cell, -, hcell⟩ := exists_of_forall₂_of_mem (mapM_eq_ok_iff.mp hcells) hv
      unfold Column.cell at hcell
      split at hcell
      next hsome => exact ValueType.holds_arrayType hsome
      next => cases hcell

end Column

namespace Batch

variable {schema : Schema} {path : String} {rs : List Row} {b : Batch} {fields : List ArrayField}
  {arrays : List ColumnArray}

theorem hasNull_iff {a : ColumnArray} : a.hasNull ↔ .null ∈ a.cells := by
  rw [ColumnArray.hasNull, List.any_eq_true]
  constructor
  · rintro ⟨v, hv, hnull⟩
    cases v with
    | null => exact hv
    | _ => cases hnull
  · exact fun h => ⟨.null, h, rfl⟩

theorem nullField?_eq_none_iff : nullField? fields arrays = none ↔
    ∀ p ∈ fields.zip arrays, ¬ p.1.nullable → .null ∉ p.2.cells := by
  simp only [nullField?, Option.map_eq_none_iff, List.find?_eq_none, Bool.and_eq_true,
    Bool.not_eq_true', hasNull_iff, not_and, Bool.not_eq_true]

theorem typeFault?_eq_none_iff : typeFault? fields arrays = none ↔
    ∀ p ∈ fields.zip arrays, p.2.type = p.1.type := by
  rw [typeFault?, List.findSome?_eq_none_iff]
  constructor
  · rintro h ⟨f, a⟩ hp
    obtain ⟨i, hi⟩ := List.getElem?_of_mem hp
    have hnone := h ((f, a), i) (List.mem_zipIdx_iff_getElem?.mpr hi)
    by_contra hne
    simp only [if_neg hne, reduceCtorEq] at hnone
  · exact fun h p hp => if_pos (h p.1 (List.fst_mem_of_mem_zipIdx hp))

/-- Arrays are taken for the columns of a batch exactly if there are some, each field takes the
array in its place, and all are of the same length. -/
theorem arraysFault?_eq_none_iff : arraysFault? fields arrays = none ↔
    arrays ≠ [] ∧ ∃ size, List.Forall₂ (fun f a => f.Takes size a) fields arrays := by
  unfold arraysFault?
  split
  next hlength =>
    refine iff_of_false (by simp) ?_
    rintro ⟨-, size, h⟩
    exact hlength h.length_eq
  next hlength =>
    rw [not_not] at hlength
    cases arrays with
    | nil => simp
    | cons first rest =>
      dsimp only
      constructor
      · intro h
        split at h
        · cases h
        next hnulls =>
          split at h
          · cases h
          next hlengths =>
            rw [nullField?_eq_none_iff] at hnulls
            rw [typeFault?_eq_none_iff] at h
            rw [List.any_eq_true] at hlengths
            refine ⟨by simp, first.cells.length, List.forall₂_iff_zip.mpr
              ⟨hlength, fun {f a} hp => ⟨h _ hp, ?_, hnulls _ hp⟩⟩⟩
            by_contra hne
            exact hlengths ⟨a, (List.of_mem_zip hp).2, decide_eq_true hne⟩
      · rintro ⟨-, size, h⟩
        obtain ⟨-, hzip⟩ := List.forall₂_iff_zip.mp h
        have hsize : ∀ a ∈ first :: rest, a.cells.length = size := fun a ha => by
          obtain ⟨f, -, hf⟩ := exists_of_forall₂_of_mem h.flip ha
          exact hf.length
        have hlengths : ¬ (first :: rest).any
            fun a => a.cells.length ≠ first.cells.length := by
          rw [List.any_eq_true]
          rintro ⟨a, ha, hne⟩
          exact of_decide_eq_true hne ((hsize a ha).trans (hsize first List.mem_cons_self).symm)
        rw [nullField?_eq_none_iff.mpr fun p hp => (hzip hp).nulls]
        exact (if_neg hlengths).trans (typeFault?_eq_none_iff.mpr fun p hp => (hzip hp).type)

theorem exists_arraysOf (hs : ¬ schema.Unstorable) (h : ∀ r ∈ rs, schema.fault? r = none) :
    ∃ arrays, arraysOf schema rs = .ok arrays := by
  cases harrays : arraysOf schema rs with
  | ok arrays => exact ⟨arrays, rfl⟩
  | error fault =>
    obtain ⟨front, ⟨c, i⟩, back, hsplit, -, hc⟩ := mapM_eq_error_iff.mp harrays
    have hmem : (c, i) ∈ schema.columns.zipIdx := by simp [hsplit]
    have hi : schema.columns[i]? = some c := List.mem_zipIdx_iff_getElem?.mp hmem
    obtain ⟨a, ha⟩ := Column.exists_array
      (fun hunstorable => hs (.inr ⟨c, List.mem_of_getElem? hi, hunstorable⟩))
      fun v (hv : v ∈ column i rs) => by
        obtain ⟨r, hr, rfl⟩ := List.mem_map.mp hv
        exact Column.conforms_of_fault? (Schema.column_fault?_eq_none (h r hr) hi)
    cases hc.symm.trans ha

theorem forall₂_of_arraysOf (h : arraysOf schema rs = .ok arrays) :
    List.Forall₂ (fun c a => ∃ i, schema.columns[i]? = some c ∧ c.array (column i rs) = .ok a)
      schema.columns arrays := by
  rw [← List.zipIdx_map_fst 0 schema.columns, List.forall₂_map_left_iff, List.zipIdx_map_fst]
  refine (List.forall₂_iff_zip.mp (mapM_eq_ok_iff.mp h)).elim fun hlength hzip =>
    List.forall₂_iff_zip.mpr ⟨hlength, fun {p a} hp => ⟨p.2, ?_, hzip hp⟩⟩
  exact List.mem_zipIdx_iff_getElem?.mp (List.of_mem_zip hp).1

theorem takes_of_arraysOf (h : ∀ r ∈ rs, schema.fault? r = none)
    (harrays : arraysOf schema rs = .ok arrays) :
    List.Forall₂ (fun f a => f.Takes rs.length a) schema.arrayFields arrays := by
  rw [Schema.arrayFields, List.forall₂_map_left_iff]
  refine (forall₂_of_arraysOf harrays).imp ?_
  rintro c a ⟨i, hi, ha⟩
  obtain rfl := Column.eq_of_array ha
  refine ⟨c.type.madeType_eq, List.length_map _, fun hrequired hnull => ?_⟩
  obtain ⟨r, hr, hv⟩ := List.mem_map.mp hnull
  have hfits := Schema.column_fault?_eq_none (h r hr) hi
  refine Column.not_isNull_of_fault? hfits (by simpa [Column.arrayField] using hrequired) ?_
  rw [hv]
  rfl

theorem exists_ofRows (hs : ¬ schema.Unstorable) (h : ∀ r ∈ rs, schema.fault? r = none)
    (path : String) : ∃ b, ofRows schema path rs = .ok b := by
  obtain ⟨arrays, harrays⟩ := exists_arraysOf hs h
  have htakes := takes_of_arraysOf h harrays
  have hne : arrays ≠ [] := by
    rintro rfl
    exact hs (.inl (List.map_eq_nil_iff.mp (List.forall₂_nil_right_iff.mp htakes)))
  refine ⟨⟨path, rs.map Row.change, arrays⟩, ?_⟩
  rw [ofRows, harrays]
  simp only [arraysFault?_eq_none_iff.mpr ⟨hne, _, htakes⟩]

/-- No rows can be put into a batch of a schema that cannot be stored. -/
theorem ofRows_of_unstorable (hs : schema.Unstorable) (path : String) (rs : List Row) :
    ∃ fault, ofRows schema path rs = .error fault := by
  unfold ofRows
  split
  next fault _ => exact ⟨fault, rfl⟩
  next arrays harrays =>
    obtain hempty | ⟨c, hc, hunstorable⟩ := hs
    · have hfault : arraysFault? schema.arrayFields arrays ≠ none := by
        rw [Ne, arraysFault?_eq_none_iff, Schema.arrayFields, hempty]
        rintro ⟨hne, size, h⟩
        exact hne (List.forall₂_nil_left_iff.mp h)
      obtain ⟨fault, hfault⟩ := Option.ne_none_iff_exists'.mp hfault
      exact ⟨fault, by rw [hfault]⟩
    · obtain ⟨i, hi⟩ := List.getElem?_of_mem hc
      have hmem : (c, i) ∈ schema.columns.zipIdx := List.mem_zipIdx_iff_getElem?.mpr hi
      obtain ⟨a, -, ha⟩ := exists_of_forall₂_of_mem (mapM_eq_ok_iff.mp harrays) hmem
      obtain ⟨fault, hfault⟩ := Column.array_of_unstorable hunstorable (column i rs)
      cases ha.symm.trans hfault

theorem suits_of_ofRows (h : ofRows schema path rs = .ok b) : b.Suits schema := by
  unfold ofRows at h
  split at h
  · cases h
  next arrays harrays =>
    split at h
    · cases h
    next hnone =>
      obtain rfl := Except.ok.inj h
      obtain ⟨hne, n, htakes⟩ := arraysFault?_eq_none_iff.mp hnone
      rw [Schema.arrayFields, List.forall₂_map_left_iff, List.forall₂_iff_zip] at htakes
      obtain ⟨hlength, hmade⟩ := List.forall₂_iff_zip.mp (forall₂_of_arraysOf harrays)
      refine ⟨hne, ?_⟩
      rw [Schema.arrayFields, List.forall₂_map_left_iff, List.forall₂_iff_zip]
      refine ⟨hlength, fun {c a} hp => ?_⟩
      obtain ⟨i, -, ha⟩ := hmade hp
      obtain ⟨hstorable, hholds⟩ := Column.holds_of_array ha
      obtain rfl := Column.eq_of_array ha
      have hfield := htakes.2 hp
      exact ⟨⟨hfield.type, by simp [column, Batch.size], hfield.nulls⟩, hstorable, hholds⟩

end Batch

end ChangeBuffer
