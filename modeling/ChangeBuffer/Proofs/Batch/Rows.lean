import ChangeBuffer.Batch.Basic
import ChangeBuffer.Proofs.Traversal

/-! # Rows of batches

A batch that is made of rows with a value for each column of its schema holds these rows.
-/

namespace ChangeBuffer

theorem Schema.arity_eq_of_fault? {s : Schema} {r : Row} (h : s.fault? r = none) :
    r.arity = s.size := by
  unfold fault? at h
  split at h
  · cases h
  next harity => exact Decidable.not_not.mp harity

theorem ValueType.eq_of_cell? {t : ValueType} {v cell : Value} (h : t.cell? v = some cell) :
    cell = v := by
  unfold cell? at h
  split at h
  all_goals cases h
  all_goals rfl

theorem Column.eq_of_array {c : Column} {values : List Value} {a : ColumnArray}
    (h : c.array values = .ok a) : a = ⟨c.type.madeType, values⟩ := by
  unfold Column.array at h
  split at h
  · cases h
  next cells hcells =>
    have hcell (v cell : Value) (h : c.cell v = .ok cell) : cell = v := by
      unfold Column.cell at h
      split at h
      next hv => exact Except.ok.inj h ▸ ValueType.eq_of_cell? hv
      next => cases h
    have heq := eq_map_of_mapM (g := fun v => v) hcell hcells
    rw [List.map_id'] at heq
    split at h
    · cases h
    · rw [← heq, Except.ok.inj h]

namespace Batch

def row (b : Batch) (change : Change) (position : Nat) : Row :=
  ⟨change, b.columns.map (·.getD position .null)⟩

def rows (b : Batch) : List Row := b.changes.zipIdx.map fun (change, i) => b.row change i

def cell? (b : Batch) (column position : Nat) : Option Value :=
  b.columns[column]?.bind fun cells => cells[position]?

def labelled (b : Batch) : List (String × Row) := b.rows.map (b.path, ·)

/-- The batch has the rows of a partition as its own: their changes in order, and in each column the
value that each row has there. -/
structure Holds (partition : String) (rs : List Row) (b : Batch) : Prop where
  path : b.path = partition
  changes : b.changes = rs.map Row.change
  height : ∀ cells ∈ b.columns, cells.length = rs.length
  cell : ∀ {i : Nat} {r : Row}, rs[i]? = some r → ∀ c, b.cell? c i = r.get? c

variable {schema : Schema} {path : String} {rs : List Row} {b : Batch}

namespace Holds

theorem size_eq (h : b.Holds path rs) : b.size = rs.length := by
  rw [size, h.changes, List.length_map]

theorem row_eq {i : Nat} {r : Row} (h : b.Holds path rs) (hr : rs[i]? = some r) :
    b.row r.change i = r := by
  have hvalues : b.columns.map (·.getD i .null) = r.values := by
    apply List.ext_getElem?
    intro c
    rw [← Row.get?, ← h.cell hr c, cell?, List.getElem?_map]
    rcases hc : b.columns[c]? with _ | cells
    · rfl
    · have hi : i < cells.length := by
        rw [h.height cells (List.mem_of_getElem? hc)]
        exact (List.getElem?_eq_some_iff.mp hr).1
      simp [hi]
  rw [row, hvalues]

theorem rows_eq (h : b.Holds path rs) : b.rows = rs := by
  apply List.ext_getElem
  · simp [rows, h.changes]
  · intro i hi hi'
    have hr : rs[i]? = some rs[i] := List.getElem?_eq_getElem hi'
    simp only [rows, h.changes, List.getElem_map, List.getElem_zipIdx, Nat.zero_add, h.row_eq hr]

theorem labelled_eq (h : b.Holds path rs) : b.labelled = rs.map (path, ·) := by
  rw [labelled, h.rows_eq, h.path]

end Holds

theorem eq_of_arraysOf {arrays : List ColumnArray} (h : arraysOf schema rs = .ok arrays) :
    arrays = schema.columns.zipIdx.map fun (c, i) => ⟨c.type.madeType, column i rs⟩ :=
  eq_map_of_mapM (fun _ _ => Column.eq_of_array) h

theorem eq_of_ofRows (h : ofRows schema path rs = .ok b) :
    b = ⟨path, rs.map Row.change,
      schema.columns.zipIdx.map fun (c, i) => ⟨c.type.madeType, column i rs⟩⟩ := by
  unfold ofRows at h
  split at h
  · cases h
  next arrays harrays =>
    split at h
    · cases h
    · rw [← eq_of_arraysOf harrays]
      exact (Except.ok.inj h).symm

theorem columns_of_ofRows (h : ofRows schema path rs = .ok b) :
    b.columns = (List.range schema.size).map fun i => column i rs := by
  have hsnd : schema.columns.zipIdx.map Prod.snd = List.range schema.size := by
    rw [List.zipIdx_map_snd, List.range_eq_range']
    rfl
  rw [eq_of_ofRows h, columns, ← hsnd, List.map_map, List.map_map]
  rfl

theorem holds_of_ofRows (h : ofRows schema path rs = .ok b)
    (hsize : ∀ r ∈ rs, r.arity = schema.size) : b.Holds path rs := by
  have hcolumns := columns_of_ofRows h
  obtain rfl := eq_of_ofRows h
  refine ⟨rfl, rfl, fun cells hcells => ?_, fun {i r} hr c => ?_⟩
  · rw [hcolumns] at hcells
    obtain ⟨c, -, rfl⟩ := List.mem_map.mp hcells
    exact List.length_map _
  · have harity : r.values.length = schema.size := hsize r (List.mem_of_getElem? hr)
    rw [cell?, hcolumns]
    by_cases hc : c < schema.size
    all_goals simp [column, hr, Row.get?, hc, harity]

end Batch

end ChangeBuffer
