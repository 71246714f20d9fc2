import ChangeBuffer.Proofs.Bytes.Order
import ChangeBuffer.Run.Record

/-! # Layers

A layer is a list of entries in ascending order of keys: what a run holds, or a table.  In a list
of layers, oldest first, the version of a key is that of the last layer that has the key.
-/

namespace ChangeBuffer

def Ascending (es : List Entry) : Prop := es.Pairwise (·.key < ·.key)

def matching (stem : Bytes) (es : List Entry) : List Entry := es.filter (stem.isPrefixOf ·.key)

def version? (key : Bytes) (es : List Entry) : Option Version :=
  (es.find? (·.key = key)).map (·.version)

/-- The version of a key in layers, oldest first. -/
def newest? (key : Bytes) : List (List Entry) → Option Version
  | [] => none
  | es :: layers => (newest? key layers).or (version? key es)

def Version.row? : Version → Option Bytes
  | present row => some row
  | removed => none

/-- The row of a key in layers, oldest first. -/
def stored? (key : Bytes) (layers : List (List Entry)) : Option Bytes :=
  (newest? key layers).bind Version.row?

variable {stem key : Bytes} {es ds : List Entry} {layers : List (List Entry)}

theorem Ascending.left (h : Ascending (es ++ ds)) : Ascending es := (List.pairwise_append.mp h).1

theorem Ascending.right (h : Ascending (es ++ ds)) : Ascending ds :=
  (List.pairwise_append.mp h).2.1

theorem Ascending.lt (h : Ascending (es ++ ds)) {e d : Entry} (he : e ∈ es) (hd : d ∈ ds) :
    e.key < d.key := (List.pairwise_append.mp h).2.2 e he d hd

theorem Ascending.filter (h : Ascending es) (p : Entry → Bool) : Ascending (es.filter p) :=
  List.Pairwise.filter p h

theorem Ascending.eq_of_key_eq (h : Ascending es) {d e : Entry} (hd : d ∈ es) (he : e ∈ es)
    (hk : d.key = e.key) : d = e := by
  induction es with
  | nil => cases hd
  | cons a es ih =>
    obtain ⟨ha, h⟩ := List.pairwise_cons.mp h
    rcases List.mem_cons.mp hd with rfl | hd' <;> rcases List.mem_cons.mp he with rfl | he'
    · rfl
    · exact absurd (hk ▸ ha e he') Std.lt_irrefl
    · exact absurd (hk ▸ ha d hd') Std.lt_irrefl
    · exact ih h hd' he'

theorem matching_eq_nil (h : ∀ e ∈ es, ¬ stem <+: e.key) : matching stem es = [] :=
  List.filter_eq_nil_iff.mpr fun e he => by simpa using h e he

theorem matching_append (stem : Bytes) (es ds : List Entry) :
    matching stem (es ++ ds) = matching stem es ++ matching stem ds := List.filter_append ..

@[simp] theorem matching_nil_stem (es : List Entry) : matching [] es = es :=
  List.filter_eq_self.mpr fun _ _ => List.isPrefixOf_iff_prefix.mpr List.nil_prefix

@[simp] theorem version?_nil : version? key [] = none := rfl

theorem version?_cons (e : Entry) :
    version? key (e :: es) = if e.key = key then some e.version else version? key es := by
  by_cases h : e.key = key <;> simp [version?, h]

theorem version?_eq_none (h : ∀ e ∈ es, e.key ≠ key) : version? key es = none := by
  simpa [version?] using h

theorem mem_of_version? {v : Version} (h : version? key es = some v) : ⟨key, v⟩ ∈ es := by
  obtain ⟨e, he, rfl⟩ := Option.map_eq_some_iff.mp h
  obtain rfl : e.key = key := by simpa using List.find?_some he
  exact List.mem_of_find?_eq_some he

theorem version?_eq_some_iff (h : Ascending es) {v : Version} :
    version? key es = some v ↔ ⟨key, v⟩ ∈ es := by
  constructor
  · exact mem_of_version?
  · intro hmem
    cases hf : es.find? (·.key = key) with
    | none => simpa using List.find?_eq_none.mp hf _ hmem
    | some e =>
      have hk : e.key = key := by simpa using List.find?_some hf
      rw [version?, hf, h.eq_of_key_eq (List.mem_of_find?_eq_some hf) hmem hk]
      rfl

theorem version?_filter_of_key {p : Bytes → Bool} (es : List Entry) :
    version? key (es.filter (p ·.key)) = if p key then version? key es else none := by
  induction es with
  | nil => simp
  | cons e es ih =>
    rw [List.filter_cons]
    by_cases he : e.key = key
    · cases hp : p key <;> simp_all [version?_cons]
    · split <;> simp [version?_cons, he, ih]

theorem exists_mem_of_newest? {v : Version} (h : newest? key layers = some v) :
    ∃ es ∈ layers, ⟨key, v⟩ ∈ es := by
  induction layers with
  | nil => simp [newest?] at h
  | cons es layers ih =>
    rw [newest?, Option.or_eq_some_iff] at h
    rcases h with h | ⟨-, h⟩
    · obtain ⟨ds, hds, hmem⟩ := ih h
      exact ⟨ds, List.mem_cons_of_mem _ hds, hmem⟩
    · exact ⟨es, List.mem_cons_self, mem_of_version? h⟩

theorem newest?_map_filter_of_key (key : Bytes) {p : Bytes → Bool} (layers : List (List Entry)) :
    newest? key (layers.map (·.filter (p ·.key))) = if p key then newest? key layers else none := by
  induction layers with
  | nil => simp [newest?]
  | cons es layers ih =>
    rw [List.map_cons, newest?, newest?, ih, version?_filter_of_key]
    split <;> rfl

theorem newest?_map_matching (layers : List (List Entry)) :
    newest? key (layers.map (matching stem)) =
      if stem <+: key then newest? key layers else none := by
  have h := newest?_map_filter_of_key key (p := stem.isPrefixOf) layers
  simp only [List.isPrefixOf_iff_prefix] at h
  exact h

theorem newest?_append (key : Bytes) (layers layers' : List (List Entry)) :
    newest? key (layers ++ layers') = (newest? key layers').or (newest? key layers) := by
  induction layers with
  | nil => simp [newest?]
  | cons es layers ih => rw [List.cons_append, newest?, newest?, ih, Option.or_assoc]

@[simp] theorem newest?_singleton : newest? key [es] = version? key es := by simp [newest?]

theorem newest?_append_singleton (key : Bytes) (layers : List (List Entry)) (es : List Entry) :
    newest? key (layers ++ [es]) = (version? key es).or (newest? key layers) := by
  rw [newest?_append, newest?_singleton]

theorem stored?_eq_some_iff {row : Bytes} :
    stored? key layers = some row ↔ newest? key layers = some (.present row) := by
  unfold stored?
  match newest? key layers with
  | none => simp
  | some (.present row) => simp [Version.row?]
  | some .removed => simp [Version.row?]

/-- The last layer decides, unless it does not have the key. -/
theorem stored?_append_singleton (key : Bytes) (layers : List (List Entry)) (es : List Entry) :
    stored? key (layers ++ [es]) = (version? key es).elim (stored? key layers) Version.row? := by
  rw [stored?, newest?_append_singleton]
  cases version? key es <;> rfl

end ChangeBuffer
