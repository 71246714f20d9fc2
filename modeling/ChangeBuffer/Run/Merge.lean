import ChangeBuffer.Run.Record

/-! # Merging versions

Sources of entries are merged in ascending order of keys.  Of the versions of a key that stand at
the front of several sources the one of the last source counts, and a key whose counting version
is removed does not appear.  The first error of a source ends the merge.
-/

namespace ChangeBuffer.Merge

/-- Entries in ascending order of keys, up to the first error. -/
abbrev Source (ε : Type) := List (Except ε Entry)

variable {ε : Type}

/-- The error at the front of a source. -/
def Source.error? : Source ε → Option ε
  | .error e :: _ => some e
  | _ => none

/-- The entry at the front of a source. -/
def Source.head? : Source ε → Option Entry
  | .ok e :: _ => some e
  | _ => none

/-- What is left of a source behind an entry of the given key at its front. -/
def Source.advance (key : Bytes) : Source ε → Source ε
  | .ok e :: rest => if e.key = key then rest else .ok e :: rest
  | source => source

def advance (key : Bytes) (sources : List (Source ε)) : List (Source ε) :=
  sources.map (Source.advance key)

def smaller (a b : Bytes) : Bytes := if b < a then b else a

/-- The smallest key at the front of a source. -/
def firstKey? (sources : List (Source ε)) : Option Bytes :=
  match sources.filterMap Source.head? with
  | [] => none
  | e :: es => some (es.foldl (fun key e => smaller key e.key) e.key)

/-- The version of the key in the last source that has it at its front. -/
def winner? (key : Bytes) (sources : List (Source ε)) : Option Version :=
  ((sources.filterMap Source.head?).filter (·.key = key)).getLast?.map (·.version)

/-- The number of items that are left. -/
def remaining (sources : List (Source ε)) : Nat := (sources.map List.length).sum

theorem smaller_eq_or (a b : Bytes) : smaller a b = a ∨ smaller a b = b := by
  unfold smaller
  split
  · exact Or.inr rfl
  · exact Or.inl rfl

theorem foldl_smaller_mem (es : List Entry) (key : Bytes) :
    es.foldl (fun key e => smaller key e.key) key = key ∨
      ∃ e ∈ es, es.foldl (fun key e => smaller key e.key) key = e.key := by
  induction es generalizing key with
  | nil => exact Or.inl rfl
  | cons e es ih =>
    rcases ih (smaller key e.key) with h | ⟨d, hd, h⟩
    · rcases smaller_eq_or key e.key with h' | h'
      · exact Or.inl (h.trans h')
      · exact Or.inr ⟨e, List.mem_cons_self, h.trans h'⟩
    · exact Or.inr ⟨d, List.mem_cons_of_mem _ hd, h⟩

theorem exists_head_of_firstKey? {sources : List (Source ε)} {key : Bytes}
    (h : firstKey? sources = some key) :
    ∃ source ∈ sources, ∃ e, source.head? = some e ∧ e.key = key := by
  unfold firstKey? at h
  split at h
  · simp at h
  next e es he =>
    have hmem : ∃ d ∈ sources.filterMap Source.head?, d.key = key := by
      rw [he]
      rcases foldl_smaller_mem es e.key with h' | ⟨d, hd, h'⟩
      · exact ⟨e, List.mem_cons_self, by simpa [h'] using h⟩
      · exact ⟨d, List.mem_cons_of_mem _ hd, by simpa [h'] using h⟩
    obtain ⟨d, hd, hk⟩ := hmem
    obtain ⟨source, hs, hd⟩ := List.mem_filterMap.mp hd
    exact ⟨source, hs, d, hd, hk⟩

theorem length_advance_le (key : Bytes) (source : Source ε) :
    (source.advance key).length ≤ source.length := by
  unfold Source.advance
  split
  · split <;> simp
  · exact Nat.le_refl _

theorem length_advance_lt {key : Bytes} {source : Source ε} {e : Entry}
    (h : source.head? = some e) (hk : e.key = key) :
    (source.advance key).length < source.length := by
  match source with
  | .ok d :: rest =>
    obtain rfl : d = e := by simpa [Source.head?] using h
    simp [Source.advance, hk]

theorem remaining_advance_lt {sources : List (Source ε)} {key : Bytes}
    (h : firstKey? sources = some key) :
    remaining (advance key sources) < remaining sources := by
  obtain ⟨source, hs, e, he, hk⟩ := exists_head_of_firstKey? h
  clear h
  have hle : ∀ ss : List (Source ε), remaining (advance key ss) ≤ remaining ss := by
    intro ss
    induction ss with
    | nil => exact Nat.le_refl _
    | cons s ss ih =>
      have := length_advance_le key s
      simp only [remaining, advance, List.map_cons, List.sum_cons] at ih ⊢
      omega
  induction sources with
  | nil => simp at hs
  | cons s ss ih =>
    have hss := hle ss
    have hs' := length_advance_le key s
    simp only [remaining, advance, List.map_cons, List.sum_cons] at ih hss ⊢
    rcases List.mem_cons.mp hs with rfl | hs
    · have := length_advance_lt he hk
      omega
    · have := ih hs
      omega

/-- What is left of sources behind some of their items. -/
abbrev Rest (sources : List (Source ε)) : Type :=
  { rest : List (Source ε) // remaining rest < remaining sources }

/-- The row of the first key that has one, with what is left behind it, up to the first error of a
source. -/
def nextRow (sources : List (Source ε)) :
    Except ε (Option ((Bytes × Bytes) × Rest sources)) :=
  match sources.findSome? Source.error? with
  | some e => .error e
  | none =>
    match h : firstKey? sources with
    | none => .ok none
    | some key =>
      let rest : Rest sources := ⟨advance key sources, remaining_advance_lt h⟩
      match winner? key sources, rest.val.findSome? Source.error? with
      | _, some e => .error e
      | some (.present row), none => .ok (some ((key, row), rest))
      | _, none =>
        (nextRow rest.val).map fun found =>
          found.map fun (row, left) => (row, ⟨left.val, Nat.lt_trans left.property rest.property⟩)
termination_by remaining sources
decreasing_by exact remaining_advance_lt h

/-- The rows of the keys in ascending order, each with the version of the last source that has it,
up to the first error of a source. -/
def merge (sources : List (Source ε)) : List (Except ε (Bytes × Bytes)) :=
  match nextRow sources with
  | .error e => [.error e]
  | .ok none => []
  | .ok (some (row, rest)) => .ok row :: merge rest.val
termination_by remaining sources
decreasing_by exact rest.property

/-- A merge that is read row by row: what is left of the sources, and whether it is finished. -/
structure Cursor (ε : Type) where
  sources : List (Source ε)
  finished : Bool

namespace Cursor

def start (sources : List (Source ε)) : Cursor ε := ⟨sources, false⟩

/-- The next row or error.  A merge is finished at its end and behind its first error. -/
def next (c : Cursor ε) : Option (Except ε (Bytes × Bytes)) × Cursor ε :=
  if c.finished then (none, c)
  else match nextRow c.sources with
    | .error e => (some (.error e), { c with finished := true })
    | .ok none => (none, { c with finished := true })
    | .ok (some (row, rest)) => (some (.ok row), { c with sources := rest.val })

end Cursor

end ChangeBuffer.Merge
