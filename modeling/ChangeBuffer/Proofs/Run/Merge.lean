import ChangeBuffer.Proofs.Run.Layers
import ChangeBuffer.Run.Merge

/-! # Merges of sources

A merge of ascending sources gives the keys whose newest version is present, in ascending order.  If
sources fail, it gives what comes before the last entries of all of them, and then one error.
-/

namespace ChangeBuffer.Merge

variable {ε : Type} {sources : List (Source ε)} {key : Bytes} {layers : List (List Entry)}

namespace Cursor

/-- What a cursor gives when it is read again and again, the first time at zero. -/
def nth (c : Cursor ε) : Nat → Option (Except ε (Bytes × Bytes))
  | 0 => c.next.1
  | n + 1 => c.next.2.nth n

theorem nth_of_finished {c : Cursor ε} (h : c.finished = true) (n : Nat) : c.nth n = none := by
  have hnext : c.next = (none, c) := by rw [next, if_pos h]
  induction n with
  | zero => rw [nth, hnext]
  | succ n ih => rw [nth, hnext, ih]

theorem nth_start (sources : List (Source ε)) (n : Nat) :
    (start sources).nth n = (merge sources)[n]? := by
  induction n generalizing sources with
  | zero =>
    rw [nth, next, merge]
    rcases h : nextRow sources with e | _ | ⟨row, rest⟩ <;> simp [start, h]
  | succ n ih =>
    rw [nth, next, merge]
    rcases h : nextRow sources with e | _ | ⟨row, rest⟩
    · simp [start, h, nth_of_finished]
    · simp [start, h, nth_of_finished]
    · simpa [start, h] using ih rest.val

end Cursor

/-- What a merge gives for a key at the front of sources. -/
def emission (key : Bytes) (sources : List (Source ε)) : List (Except ε (Bytes × Bytes)) :=
  match winner? key sources, (advance key sources).findSome? Source.error? with
  | some (.present row), none => [.ok (key, row)]
  | _, _ => []

theorem merge_of_error {e : ε} (h : sources.findSome? Source.error? = some e) :
    merge sources = [.error e] := by
  rw [merge, nextRow, h]

theorem merge_of_none (h : sources.findSome? Source.error? = none)
    (hk : firstKey? sources = none) : merge sources = [] := by
  have hrow : nextRow sources = .ok none := by
    rw [nextRow, h]
    dsimp only
    split
    · rfl
    next key hk' => cases hk.symm.trans hk'
  rw [merge, hrow]

theorem nextRow_of_some (h : sources.findSome? Source.error? = none)
    (hk : firstKey? sources = some key) :
    nextRow sources =
      match winner? key sources, (advance key sources).findSome? Source.error? with
      | _, some e => .error e
      | some (.present row), none =>
        .ok (some ((key, row), ⟨advance key sources, remaining_advance_lt hk⟩))
      | _, none =>
        (nextRow (advance key sources)).map fun found => found.map fun (row, left) =>
          (row, ⟨left.val, Nat.lt_trans left.property (remaining_advance_lt hk)⟩) := by
  rw [nextRow, h]
  dsimp only
  split
  next hk' => cases hk.symm.trans hk'
  next key' hk' =>
    obtain rfl := Option.some.inj (hk.symm.trans hk')
    rfl

theorem merge_of_some (h : sources.findSome? Source.error? = none)
    (hk : firstKey? sources = some key) :
    merge sources = emission key sources ++ merge (advance key sources) := by
  rw [merge, nextRow_of_some h hk, emission]
  cases hnext : (advance key sources).findSome? Source.error? with
  | some e =>
    rw [merge_of_error hnext]
    rcases winner? key sources with _ | _ | _ <;> rfl
  | none =>
    rcases winner? key sources with _ | row | _
    · rw [merge]
      rcases nextRow (advance key sources) with e | _ | ⟨row, rest⟩ <;> rfl
    · rfl
    · rw [merge]
      rcases nextRow (advance key sources) with e | _ | ⟨row, rest⟩ <;> rfl

theorem emission_eq_nil {e : ε} (h : (advance key sources).findSome? Source.error? = some e) :
    emission key sources = [] := by
  rw [emission, h]
  rcases winner? key sources with _ | _ | _ <;> rfl

/-! ## The first key -/

theorem foldl_smaller_le (es : List Entry) (a : Bytes) :
    ¬ a < es.foldl (fun key e => smaller key e.key) a ∧
      ∀ e ∈ es, ¬ e.key < es.foldl (fun key e => smaller key e.key) a := by
  induction es generalizing a with
  | nil => simp [Std.lt_irrefl]
  | cons d es ih =>
    obtain ⟨hfold, hrest⟩ := ih (smaller a d.key)
    have hle : smaller a d.key ≤ a ∧ smaller a d.key ≤ d.key := by
      unfold smaller
      split
      next h => exact ⟨Std.le_of_lt h, Std.le_refl _⟩
      next h => exact ⟨Std.le_refl _, Std.not_lt.mp h⟩
    have hfold := Std.not_lt.mp hfold
    refine ⟨Std.not_lt.mpr (Std.le_trans hfold hle.1), fun e he => ?_⟩
    rcases List.mem_cons.mp he with rfl | he
    · exact Std.not_lt.mpr (Std.le_trans hfold hle.2)
    · exact hrest e he

theorem not_lt_firstKey? (h : firstKey? sources = some key) {source : Source ε}
    (hs : source ∈ sources) {e : Entry} (he : source.head? = some e) : ¬ e.key < key := by
  have hmem : e ∈ sources.filterMap Source.head? := List.mem_filterMap.mpr ⟨source, hs, he⟩
  unfold firstKey? at h
  split at h
  · simp at h
  next d es hd =>
    obtain rfl := Option.some.inj h
    rw [hd] at hmem
    obtain ⟨hfold, hrest⟩ := foldl_smaller_le es d.key
    rcases List.mem_cons.mp hmem with rfl | hmem
    · exact hfold
    · exact hrest e hmem

theorem firstKey?_eq_none_iff :
    firstKey? sources = none ↔ ∀ source ∈ sources, source.head? = none := by
  unfold firstKey?
  split
  next h => simpa [List.filterMap_eq_nil_iff] using h
  next d es h =>
    have hd : d ∈ sources.filterMap Source.head? := h ▸ List.mem_cons_self
    obtain ⟨source, hs, hd⟩ := List.mem_filterMap.mp hd
    simp only [reduceCtorEq, false_iff]
    intro hnone
    simp [hnone source hs] at hd

/-! ## What sources give -/

def Source.entries : Source ε → List Entry
  | .ok e :: source => e :: entries source
  | _ => []

def Source.failure? : Source ε → Option ε
  | .ok _ :: source => failure? source
  | .error e :: _ => some e
  | [] => none

def layersOf (sources : List (Source ε)) : List (List Entry) := sources.map Source.entries

/-- The key comes before the last entry of each source that fails. -/
def InFront (key : Bytes) (sources : List (Source ε)) : Prop :=
  ∀ source ∈ sources, source.failure?.isSome →
    ∃ last, source.entries.getLast? = some last ∧ key < last.key

theorem head?_eq (source : Source ε) : source.head? = source.entries.head? := by
  match source with
  | [] => rfl
  | .ok e :: source => rfl
  | .error e :: source => rfl

theorem entries_ne_nil {source : Source ε} (he : source.error? = none)
    (hf : source.failure?.isSome) : source.entries ≠ [] := by
  match source with
  | [] => simp [Source.failure?] at hf
  | .ok e :: source => simp [Source.entries]
  | .error e :: source => simp [Source.error?] at he

def AllAscending (layers : List (List Entry)) : Prop := ∀ es ∈ layers, Ascending es

theorem not_lt_of_firstKey? (ha : AllAscending (layersOf sources))
    (h : firstKey? sources = some key) {es : List Entry} (hes : es ∈ layersOf sources) {e : Entry}
    (he : e ∈ es) : ¬ e.key < key := by
  obtain ⟨source, hs, rfl⟩ := List.mem_map.mp hes
  cases hentries : source.entries with
  | nil => simp [hentries] at he
  | cons d ds =>
    have hd : ¬ d.key < key := not_lt_firstKey? h hs (by rw [head?_eq, hentries, List.head?_cons])
    have hlt := hentries ▸ ha _ hes
    rw [hentries] at he
    rcases List.mem_cons.mp he with rfl | he
    · exact hd
    · exact fun hlt' => hd (Std.lt_trans ((List.pairwise_cons.mp hlt).1 e he) hlt')

theorem version?_of_head {es : List Entry} (ha : Ascending es) (hle : ∀ e ∈ es, ¬ e.key < key) :
    version? key es = (es.head?.filter (·.key = key)).map (·.version) := by
  cases es with
  | nil => rfl
  | cons d es =>
    rw [version?_cons]
    by_cases hd : d.key = key
    · simp [hd, Option.filter]
    · obtain ⟨hlt, -⟩ := List.pairwise_cons.mp ha
      have hnone : ∀ e ∈ es, e.key ≠ key := by
        rintro e he rfl
        exact hle d List.mem_cons_self (hlt e he)
      simp [hd, Option.filter, version?_eq_none hnone]

theorem failure?_advance (key : Bytes) (source : Source ε) :
    (source.advance key).failure? = source.failure? := by
  unfold Source.advance
  split
  · split
    · rw [Source.failure?]
    · rfl
  · rfl

theorem entries_advance {source : Source ε} (ha : Ascending source.entries)
    (hle : ∀ e ∈ source.entries, ¬ e.key < key) :
    (source.advance key).entries = source.entries.filter (·.key ≠ key) := by
  match source with
  | [] => rfl
  | .error e :: source => rfl
  | .ok d :: source =>
    rw [Source.entries] at ha hle ⊢
    obtain ⟨hlt, -⟩ := List.pairwise_cons.mp ha
    have hself : (Source.entries source).filter (·.key ≠ key) = Source.entries source := by
      refine List.filter_eq_self.mpr fun e he => decide_eq_true ?_
      rintro rfl
      exact hle d List.mem_cons_self (hlt e he)
    by_cases hd : d.key = key
    · rw [List.filter_cons_of_neg (by simpa using hd), hself, Source.advance, if_pos hd]
    · rw [List.filter_cons_of_pos (by simpa using hd), hself, Source.advance, if_neg hd,
        Source.entries]

theorem layersOf_advance (ha : AllAscending (layersOf sources)) (h : firstKey? sources = some key) :
    layersOf (advance key sources) = (layersOf sources).map (·.filter (·.key ≠ key)) := by
  rw [layersOf, layersOf, advance, List.map_map, List.map_map]
  apply List.map_congr_left
  intro source hs
  have hes : source.entries ∈ layersOf sources := List.mem_map.mpr ⟨source, hs, rfl⟩
  exact entries_advance (ha _ hes) fun e he => not_lt_of_firstKey? ha h hes he

theorem winner?_cons (source : Source ε) :
    winner? key (source :: sources) =
      (winner? key sources).or ((source.head?.filter (·.key = key)).map (·.version)) := by
  unfold winner?
  rw [List.filterMap_cons]
  cases source.head? with
  | none => simp
  | some e =>
    rw [List.filter_cons]
    by_cases he : e.key = key
    · simp only [he, decide_true, if_true, List.getLast?_cons, Option.filter_some]
      cases ((sources.filterMap Source.head?).filter (·.key = key)).getLast? <;> rfl
    · simp [he, Option.filter]

theorem winner?_eq (ha : AllAscending (layersOf sources))
    (hle : ∀ es ∈ layersOf sources, ∀ e ∈ es, ¬ e.key < key) :
    winner? key sources = newest? key (layersOf sources) := by
  induction sources with
  | nil => rfl
  | cons source sources ih =>
    have ih := ih (fun ds hds => ha ds (List.mem_cons_of_mem _ hds))
      (fun ds hds => hle ds (List.mem_cons_of_mem _ hds))
    have hhead := version?_of_head (ha _ List.mem_cons_self) (hle _ List.mem_cons_self)
    rw [winner?_cons, ih, head?_eq, ← hhead]
    rfl

/-! ## Merges of sources -/

def rowUnder (key : Bytes) (layers : List (List Entry)) : List (Bytes × Bytes) :=
  match newest? key layers with
  | some (.present row) => [(key, row)]
  | _ => []

theorem mem_rowUnder {k row : Bytes} :
    (k, row) ∈ rowUnder key layers ↔ k = key ∧ newest? k layers = some (.present row) := by
  unfold rowUnder
  constructor
  · intro h
    split at h
    next row' hrow =>
      obtain ⟨rfl, rfl⟩ := Prod.mk.inj (List.mem_singleton.mp h)
      exact ⟨rfl, hrow⟩
    next => cases h
  · rintro ⟨rfl, hrow⟩
    rw [hrow]
    exact List.mem_singleton.mpr rfl

theorem emission_eq (ha : AllAscending (layersOf sources)) (hk : firstKey? sources = some key)
    (hnext : (advance key sources).findSome? Source.error? = none) :
    emission key sources = (rowUnder key (layersOf sources)).map .ok := by
  rw [emission, rowUnder, hnext, winner?_eq ha fun es hes e he => not_lt_of_firstKey? ha hk hes he]
  rcases newest? key (layersOf sources) with _ | row | _ <;> rfl

/-- The rows that a merge gives: the newest ones, in front of the errors of the sources. -/
structure Yields (sources : List (Source ε)) (rows : List (Bytes × Bytes)) : Prop where
  ascending : rows.Pairwise (·.1 < ·.1)
  mem_iff : ∀ key row, (key, row) ∈ rows ↔
    newest? key (layersOf sources) = some (.present row) ∧ InFront key sources

theorem Yields.nil
    (h : ∀ key v, newest? key (layersOf sources) = some v → ¬ InFront key sources) :
    Yields sources [] where
  ascending := .nil
  mem_iff key _ := iff_of_false List.not_mem_nil fun hmem => h key _ hmem.1 hmem.2

section Advance

variable (ha : AllAscending (layersOf sources)) (hk : firstKey? sources = some key)
  (hnext : (advance key sources).findSome? Source.error? = none)

include hnext

theorem inFront_advance {k : Bytes} : InFront k (advance key sources) ↔ InFront k sources := by
  have hlast (source : Source ε) (hs : source ∈ sources) (hf : source.failure?.isSome) :
      (source.advance key).entries.getLast? = source.entries.getLast? := by
    have hmem : source.advance key ∈ advance key sources := List.mem_map.mpr ⟨source, hs, rfl⟩
    have hne := entries_ne_nil (List.findSome?_eq_none_iff.mp hnext _ hmem)
      (by rwa [failure?_advance])
    match source with
    | [] => rfl
    | .error e :: source => rfl
    | .ok d :: source =>
      rw [Source.advance] at hne ⊢
      split
      next hd =>
        rw [if_pos hd] at hne
        obtain ⟨e, es, he⟩ := List.exists_cons_of_ne_nil hne
        rw [Source.entries, he, List.getLast?_cons_cons]
      next => rfl
  constructor
  · intro h source hs hf
    rw [← hlast source hs hf]
    exact h _ (List.mem_map.mpr ⟨source, hs, rfl⟩) (by rwa [failure?_advance])
  · intro h left hleft hf
    obtain ⟨source, hs, rfl⟩ := List.mem_map.mp hleft
    rw [failure?_advance] at hf
    rw [hlast source hs hf]
    exact h source hs hf

include ha hk

theorem inFront_firstKey? : InFront key sources := by
  refine (inFront_advance hnext).mp fun source hs hf => ?_
  have hne := entries_ne_nil (List.findSome?_eq_none_iff.mp hnext _ hs) hf
  obtain ⟨last, hlast⟩ := Option.isSome_iff_exists.mp (List.getLast?_isSome.mpr hne)
  refine ⟨last, hlast, ?_⟩
  have hmem : source.entries ∈ layersOf (advance key sources) := List.mem_map.mpr ⟨source, hs, rfl⟩
  rw [layersOf_advance ha hk] at hmem
  obtain ⟨es, hes, heq⟩ := List.mem_map.mp hmem
  obtain ⟨hin, hkey⟩ := List.mem_filter.mp (heq ▸ List.mem_of_getLast? hlast)
  have hle := Std.not_lt.mp (not_lt_of_firstKey? ha hk hes hin)
  exact Std.lt_of_le_of_ne hle fun h => by simp [← h] at hkey

/-- The row under the first key goes in front of the rows under the others. -/
theorem Yields.of_advance {rows : List (Bytes × Bytes)} (h : Yields (advance key sources) rows) :
    Yields sources (rowUnder key (layersOf sources) ++ rows) := by
  have hmem (k row : Bytes) : (k, row) ∈ rows ↔
      k ≠ key ∧ newest? k (layersOf sources) = some (.present row) ∧ InFront k sources := by
    rw [h.mem_iff, layersOf_advance ha hk, newest?_map_filter_of_key (p := (· ≠ key)),
      inFront_advance hnext]
    by_cases hkey : k = key <;> simp [hkey]
  constructor
  · refine List.pairwise_append.mpr ⟨?_, h.ascending, ?_⟩
    · unfold rowUnder
      split
      · exact List.pairwise_singleton _ _
      · exact .nil
    · rintro ⟨k, row⟩ hfirst ⟨k', row'⟩ hrest
      obtain ⟨rfl, -⟩ := mem_rowUnder.mp hfirst
      obtain ⟨hne, hnew, -⟩ := (hmem k' row').mp hrest
      obtain ⟨es, hes, he⟩ := exists_mem_of_newest? hnew
      exact Std.lt_of_le_of_ne (Std.not_lt.mp (not_lt_of_firstKey? ha hk hes he)) hne.symm
  · intro k row
    have hfront := inFront_firstKey? ha hk hnext
    rw [List.mem_append, mem_rowUnder, hmem]
    constructor
    · rintro (⟨rfl, hnew⟩ | ⟨-, hnew, hin⟩)
      · exact ⟨hnew, hfront⟩
      · exact ⟨hnew, hin⟩
    · rintro ⟨hnew, hin⟩
      by_cases hkey : k = key
      · exact Or.inl ⟨hkey, hnew⟩
      · exact Or.inr ⟨hkey, hnew, hin⟩

end Advance

/-- How sources end, all together: with an error of one of them, or without any. -/
def EndsWith (sources : List (Source ε)) : Option ε → Prop
  | some e => ∃ source ∈ sources, source.failure? = some e
  | none => ∀ source ∈ sources, source.failure? = none

theorem EndsWith.of_advance {failure : Option ε} (h : EndsWith (advance key sources) failure) :
    EndsWith sources failure := by
  cases failure with
  | some e =>
    obtain ⟨left, hleft, hf⟩ := h
    obtain ⟨source, hs, rfl⟩ := List.mem_map.mp hleft
    exact ⟨source, hs, by rwa [failure?_advance] at hf⟩
  | none =>
    intro source hs
    rw [← failure?_advance key source]
    exact h _ (List.mem_map.mpr ⟨source, hs, rfl⟩)

theorem exists_error_of_findSome? {e : ε} (h : sources.findSome? Source.error? = some e) :
    ∃ source ∈ sources, source.entries = [] ∧ source.failure? = some e := by
  obtain ⟨source, hs, he⟩ := List.exists_of_findSome?_eq_some h
  match source with
  | [] => cases he
  | .ok d :: source => cases he
  | .error d :: source => exact ⟨_, hs, rfl, he⟩

/-- A merge gives each key once whose newest version is present, up to the first error of a source,
which it reports. -/
theorem exists_yields (ha : AllAscending (layersOf sources)) :
    ∃ rows failure, Yields sources rows ∧ EndsWith sources failure ∧
      merge sources = rows.map .ok ++ failure.toList.map .error := by
  induction hn : remaining sources using Nat.strongRecOn generalizing sources with
  | ind n ih =>
    cases herror : sources.findSome? Source.error? with
    | some e =>
      obtain ⟨source, hs, hentries, hf⟩ := exists_error_of_findSome? herror
      refine ⟨[], some e, .nil fun key v _ hin => ?_, ⟨source, hs, hf⟩, merge_of_error herror⟩
      obtain ⟨last, hlast, -⟩ := hin source hs (by rw [hf, Option.isSome_some])
      rw [hentries] at hlast
      cases hlast
    | none =>
      cases hk : firstKey? sources with
      | none =>
        have hnil (source : Source ε) (hs : source ∈ sources) : source = [] := by
          have hhead := firstKey?_eq_none_iff.mp hk source hs
          have he := List.findSome?_eq_none_iff.mp herror source hs
          match source with
          | [] => rfl
          | .ok e :: source => cases hhead
          | .error e :: source => cases he
        refine ⟨[], none, .nil fun key v hnew => ?_, fun source hs => ?_, merge_of_none herror hk⟩
        · obtain ⟨es, hes, he⟩ := exists_mem_of_newest? hnew
          obtain ⟨source, hs, rfl⟩ := List.mem_map.mp hes
          rw [hnil source hs] at he
          cases he
        · rw [hnil source hs, Source.failure?]
      | some key =>
        have hrest : AllAscending (layersOf (advance key sources)) := by
          rw [layersOf_advance ha hk]
          intro es hes
          obtain ⟨ds, hds, rfl⟩ := List.mem_map.mp hes
          exact (ha ds hds).filter _
        cases hnext : (advance key sources).findSome? Source.error? with
        | some e =>
          -- The error comes behind the entry of the first key, and there is nothing before that.
          have hmerge : merge sources = [.error e] := by
            rw [merge_of_some herror hk, emission_eq_nil hnext, merge_of_error hnext, List.nil_append]
          obtain ⟨left, hleft, hentries, hf⟩ := exists_error_of_findSome? hnext
          obtain ⟨source, hs, rfl⟩ := List.mem_map.mp hleft
          rw [failure?_advance] at hf
          refine ⟨[], some e, .nil fun k v hnew hin => ?_, ⟨source, hs, hf⟩, hmerge⟩
          obtain ⟨last, hlast, hlt⟩ := hin source hs (by rw [hf, Option.isSome_some])
          have hmem : source.entries ∈ layersOf sources := List.mem_map.mpr ⟨source, hs, rfl⟩
          rw [entries_advance (ha _ hmem) fun d hd => not_lt_of_firstKey? ha hk hmem hd,
            List.filter_eq_nil_iff] at hentries
          obtain ⟨es, hes, he⟩ := exists_mem_of_newest? hnew
          have hkey : last.key = key := by simpa using hentries last (List.mem_of_getLast? hlast)
          exact not_lt_of_firstKey? ha hk hes he (hkey ▸ hlt)
        | none =>
          obtain ⟨rows, failure, hyields, hends, hmerge⟩ :=
            ih _ (hn ▸ remaining_advance_lt hk) hrest rfl
          refine ⟨_, failure, hyields.of_advance ha hk hnext, hends.of_advance, ?_⟩
          rw [merge_of_some herror hk, emission_eq ha hk hnext, hmerge, List.map_append,
            List.append_assoc]

/-- A merge that is read again and again gives the keys whose version in the last source that has
them is present, in ascending order, each with its row, and then nothing.  If sources fail, it gives
those of them that come before the last entry of every source that fails, and then the error of one
of these sources, and then nothing. -/
theorem merge_gives_newest (h : ∀ source ∈ sources, Ascending source.entries) :
    ∃ rows : List (Bytes × Bytes), rows.Pairwise (·.1 < ·.1) ∧
      (∀ key row, (key, row) ∈ rows ↔
        newest? key (sources.map Source.entries) = some (.present row) ∧
          ∀ source ∈ sources, source.failure?.isSome →
            ∃ last, source.entries.getLast? = some last ∧ key < last.key) ∧
      ((∀ source ∈ sources, source.failure? = none) →
        ∀ n, (Cursor.start sources).nth n = (rows.map .ok)[n]?) ∧
      ((∃ source ∈ sources, source.failure?.isSome) →
        ∃ source ∈ sources, ∃ e, source.failure? = some e ∧
          ∀ n, (Cursor.start sources).nth n = (rows.map .ok ++ [.error e])[n]?) := by
  have ha : AllAscending (layersOf sources) := List.forall_mem_map.mpr h
  obtain ⟨rows, failure, hyields, hends, hmerge⟩ := exists_yields ha
  refine ⟨rows, hyields.ascending, hyields.mem_iff, fun hnone => ?_, fun hsome => ?_⟩
  · cases failure with
    | none =>
      intro n
      rw [Cursor.nth_start, hmerge, Option.toList_none, List.map_nil, List.append_nil]
    | some e =>
      obtain ⟨source, hs, hf⟩ := hends
      cases (hnone source hs).symm.trans hf
  · cases failure with
    | none =>
      obtain ⟨source, hs, hf⟩ := hsome
      rw [hends source hs] at hf
      cases hf
    | some e =>
      obtain ⟨source, hs, hf⟩ := hends
      refine ⟨source, hs, e, hf, fun n => ?_⟩
      rw [Cursor.nth_start, hmerge]
      rfl

theorem merge_gives_newest_of_lost_source :
    ∃ sources : List (Source String),
      sources = [[.ok ⟨[1], .present [1]⟩, .ok ⟨[2], .present [1]⟩, .ok ⟨[3], .present [1]⟩],
        [.ok ⟨[2], .removed⟩, .ok ⟨[4], .present [2]⟩, .error "lost"],
        [.ok ⟨[1], .present [3]⟩, .ok ⟨[5], .present [3]⟩]] ∧
      (∀ source ∈ sources, Ascending source.entries) ∧
      ∃ rows : List (Bytes × Bytes), rows.Pairwise (·.1 < ·.1) ∧
        (∀ key row, (key, row) ∈ rows ↔
          newest? key (sources.map Source.entries) = some (.present row) ∧
            ∀ source ∈ sources, source.failure?.isSome →
              ∃ last, source.entries.getLast? = some last ∧ key < last.key) ∧
        ((∀ source ∈ sources, source.failure? = none) →
          ∀ n, (Cursor.start sources).nth n = (rows.map .ok)[n]?) ∧
        ((∃ source ∈ sources, source.failure?.isSome) →
          ∃ source ∈ sources, ∃ e, source.failure? = some e ∧
            ∀ n, (Cursor.start sources).nth n = (rows.map .ok ++ [.error e])[n]?) := by
  refine ⟨_, rfl, ?_, merge_gives_newest ?_⟩
  all_goals
    unfold Ascending
    decide

/-! ## Merges of layers -/

def ofLayers (layers : List (List Entry)) : List (Source ε) := layers.map (·.map .ok)

structure Shows (layers : List (List Entry)) (rows : List (Bytes × Bytes)) : Prop where
  ascending : rows.Pairwise (·.1 < ·.1)
  mem_iff : ∀ key row, (key, row) ∈ rows ↔ newest? key layers = some (.present row)

theorem entries_append_error (es : List Entry) (failure : Option ε) :
    Source.entries (es.map .ok ++ failure.toList.map .error) = es := by
  induction es with
  | nil => cases failure <;> rfl
  | cons e es ih => rw [List.map_cons, List.cons_append, Source.entries, ih]

theorem failure?_append_error (es : List Entry) (failure : Option ε) :
    Source.failure? (es.map .ok ++ failure.toList.map .error) = failure := by
  induction es with
  | nil => cases failure <;> rfl
  | cons e es ih => rw [List.map_cons, List.cons_append, Source.failure?, ih]

theorem entries_map_ok (es : List Entry) : Source.entries (es.map (.ok (ε := ε))) = es := by
  simpa using entries_append_error (ε := ε) es none

theorem failure?_map_ok (es : List Entry) : Source.failure? (es.map (.ok (ε := ε))) = none := by
  simpa using failure?_append_error (ε := ε) es none

theorem layersOf_ofLayers (layers : List (List Entry)) :
    layersOf (ofLayers layers : List (Source ε)) = layers := by
  rw [layersOf, ofLayers, List.map_map]
  exact List.map_id'' entries_map_ok layers

theorem failure?_of_mem_ofLayers {source : Source ε} (h : source ∈ ofLayers layers) :
    source.failure? = none := by
  obtain ⟨es, -, rfl⟩ := List.mem_map.mp h
  exact failure?_map_ok es

theorem exists_shows (ha : AllAscending layers) :
    ∃ rows, Shows layers rows ∧ merge (ofLayers layers : List (Source ε)) = rows.map .ok := by
  rw [← layersOf_ofLayers (ε := ε) layers] at ha
  obtain ⟨rows, failure, hyields, hends, hmerge⟩ := exists_yields ha
  have hfront (key : Bytes) : InFront key (ofLayers layers : List (Source ε)) := by
    intro source hs hf
    rw [failure?_of_mem_ofLayers hs] at hf
    cases hf
  refine ⟨rows, ⟨hyields.ascending, fun key row => ?_⟩, ?_⟩
  · rw [hyields.mem_iff, layersOf_ofLayers, and_iff_left (hfront key)]
  · cases failure with
    | none => rw [hmerge, Option.toList_none, List.map_nil, List.append_nil]
    | some e =>
      obtain ⟨source, hs, hf⟩ := hends
      rw [failure?_of_mem_ofLayers hs] at hf
      cases hf

end ChangeBuffer.Merge
