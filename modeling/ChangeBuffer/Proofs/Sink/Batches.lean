import ChangeBuffer.Proofs.Batch.Rows
import ChangeBuffer.Proofs.Sink.Lawful
import ChangeBuffer.Sink.BatchBuilder
import Mathlib.Data.List.Forall2

/-! # Batches of blocks

A builder of batches cuts each block that it receives into chunks, all but the last of them as large
as a batch may be, and makes a batch of each chunk.  One after the other the batches hold the rows
of the block.
-/

namespace ChangeBuffer

/-- The chunks are consecutive parts of the rows and have the given size, except that the last one
may be smaller.  None is empty. -/
inductive Chunked (size : Nat) : List Row → List (List Row) → Prop
  | nil : Chunked size [] []
  | last {rows : List Row} : rows ≠ [] → rows.length ≤ size → Chunked size rows [rows]
  | full {chunk rows : List Row} {chunks : List (List Row)} :
    chunk.length = size → Chunked size rows chunks → Chunked size (chunk ++ rows) (chunk :: chunks)

def Fills (maxRows : Nat) (block : Block) (batches : List Batch) : Prop :=
  ∃ chunks, Chunked maxRows block.rows chunks ∧
    List.Forall₂ (Batch.Holds block.path) chunks batches

/-- The batches hold the rows of the block, each at least one and at most `maxRows` of them. -/
structure Packs (maxRows : Nat) (block : Block) (batches : List Batch) : Prop where
  path : ∀ batch ∈ batches, batch.path = block.path
  size : ∀ batch ∈ batches, 0 < batch.size ∧ batch.size ≤ maxRows
  rows : batches.flatMap Batch.rows = block.rows

def PacksAll (maxRows : Nat) (blocks : List Block) (batches : List Batch) : Prop :=
  ∃ groups, batches = groups.flatten ∧ List.Forall₂ (Packs maxRows) blocks groups

def remainder (rows : List Row) : List (List Row) := if rows.isEmpty then [] else [rows]

variable {maxRows : Nat} {path : String} {rows pending : List Row} {chunks : List (List Row)}
  {block : Block} {blocks : List Block} {batches group : List Batch} {groups : List (List Batch)}

namespace Chunked

theorem flatten_eq (h : Chunked maxRows rows chunks) : chunks.flatten = rows := by
  induction h with
  | nil => rfl
  | last => simp
  | full _ _ ih => rw [List.flatten_cons, ih]

theorem bounds (h : Chunked maxRows rows chunks) (hpos : 0 < maxRows) :
    ∀ chunk ∈ chunks, 0 < chunk.length ∧ chunk.length ≤ maxRows := by
  induction h with
  | nil => simp
  | last hne hlen => simpa using ⟨List.length_pos_iff.mpr hne, hlen⟩
  | full hlen _ ih =>
    rintro chunk (_ | ⟨_, hmem⟩)
    · omega
    · exact ih chunk hmem

theorem of_full (hfull : ∀ chunk ∈ chunks, chunk.length = maxRows)
    (hlen : pending.length ≤ maxRows) :
    Chunked maxRows (chunks.flatten ++ pending) (chunks ++ remainder pending) := by
  induction chunks with
  | nil =>
    rcases hpending : pending.isEmpty with _ | _
    · rw [remainder, hpending]
      exact .last (by simpa using hpending) hlen
    · rw [List.isEmpty_iff.mp hpending]
      exact .nil
  | cons chunk chunks ih =>
    rw [List.flatten_cons, List.append_assoc, List.cons_append]
    exact .full (hfull chunk List.mem_cons_self)
      (ih fun c hc => hfull c (List.mem_cons_of_mem _ hc))

end Chunked

theorem flatMap_rows_eq (h : List.Forall₂ (Batch.Holds path) chunks batches) :
    batches.flatMap Batch.rows = chunks.flatten := by
  induction h with
  | nil => rfl
  | cons hb _ ih => rw [List.flatMap_cons, hb.rows_eq, ih, List.flatten_cons]

theorem flatMap_labelled_eq (h : List.Forall₂ (Batch.Holds path) chunks batches) :
    batches.flatMap Batch.labelled = chunks.flatten.map (path, ·) := by
  induction h with
  | nil => rfl
  | cons hb _ ih =>
    rw [List.flatMap_cons, hb.labelled_eq, ih, List.flatten_cons, List.map_append]

namespace Fills

theorem labelled_eq (h : Fills maxRows block batches) :
    batches.flatMap Batch.labelled = block.labelled := by
  obtain ⟨chunks, hchunks, hall⟩ := h
  rw [flatMap_labelled_eq hall, hchunks.flatten_eq, Block.labelled]

theorem labelled_flatten_eq (h : List.Forall₂ (Fills maxRows) blocks groups) :
    groups.flatten.flatMap Batch.labelled = blocks.flatMap Block.labelled := by
  induction h with
  | nil => rfl
  | cons hfills _ ih =>
    rw [List.flatten_cons, List.flatMap_append, hfills.labelled_eq, ih, List.flatMap_cons]

theorem packs (h : Fills maxRows block batches) (hpos : 0 < maxRows) :
    Packs maxRows block batches := by
  obtain ⟨chunks, hchunks, hall⟩ := h
  refine ⟨fun batch hmem => ?_, fun batch hmem => ?_, ?_⟩
  · obtain ⟨chunk, -, hholds⟩ := exists_of_forall₂_of_mem hall.flip hmem
    exact hholds.path
  · obtain ⟨chunk, hchunk, hholds⟩ := exists_of_forall₂_of_mem hall.flip hmem
    rw [hholds.size_eq]
    exact hchunks.bounds hpos chunk hchunk
  · rw [flatMap_rows_eq hall, hchunks.flatten_eq]

end Fills

theorem PacksAll.of_fills (h : List.Forall₂ (Fills maxRows) blocks groups) (hpos : 0 < maxRows) :
    PacksAll maxRows blocks groups.flatten :=
  ⟨groups, rfl, h.imp fun _ _ hfills => hfills.packs hpos⟩

namespace BatchBuilder

/-- The builder `t` is `s` with batches of the blocks, and between partitions. -/
def Received (s t : BatchBuilder) (blocks : List Block) : Prop :=
  ∃ groups, t = { s with current := none, pending := [], batches := s.batches ++ groups.flatten } ∧
    List.Forall₂ (Fills s.maxRows) blocks groups

/-- The builder `t` is `s` with batches of the blocks and of full chunks of the rows.  The rows
behind the chunks are still pending. -/
def Receiving (s t : BatchBuilder) (blocks : List Block) (path : String) (rows : List Row) : Prop :=
  ∃ groups chunks group pending,
    t = { s with
      current := some path, pending, batches := s.batches ++ groups.flatten ++ group } ∧
      List.Forall₂ (Fills s.maxRows) blocks groups ∧
      (∀ chunk ∈ chunks, chunk.length = s.maxRows) ∧
      List.Forall₂ (Batch.Holds path) chunks group ∧
      rows = chunks.flatten ++ pending ∧ pending.length < s.maxRows ∧
      ∀ row ∈ pending, s.schema.fault? row = none

variable {s t u : BatchBuilder}

theorem Received.refl (hc : s.current = none) (hp : s.pending = []) : Received s s [] := by
  refine ⟨[], ?_, .nil⟩
  obtain ⟨schema, maxRows, current, pending, batches, hpos⟩ := s
  obtain rfl : current = none := hc
  obtain rfl : pending = [] := hp
  simp

theorem sealPending_eq_ok (h : t.sealPending path = (u, .ok ()))
    (hfits : ∀ row ∈ t.pending, t.schema.fault? row = none) :
    ∃ sealed, u = { t with pending := [], batches := t.batches ++ sealed } ∧
      List.Forall₂ (Batch.Holds path) (remainder t.pending) sealed := by
  unfold sealPending at h
  split at h
  next hempty =>
    obtain rfl := (Prod.mk.inj h).1
    have hp : t.pending = [] := List.isEmpty_iff.mp hempty
    refine ⟨[], ?_, ?_⟩
    · simp [← hp]
    · rw [hp]
      exact .nil
  next hne =>
    split at h
    · cases h
    next batch hb =>
      obtain rfl := (Prod.mk.inj h).1
      refine ⟨[batch], rfl, ?_⟩
      rw [remainder, if_neg hne]
      exact .cons (Batch.holds_of_ofRows hb fun row hrow =>
        Schema.arity_eq_of_fault? (hfits row hrow)) .nil

theorem Receiving.enter (h : Received s t blocks) (hu : t.enter path = (u, .ok ())) :
    Receiving s u blocks path [] := by
  obtain ⟨groups, rfl, hall⟩ := h
  obtain rfl := (Prod.mk.inj hu).1
  exact ⟨groups, [], [], [], by simp, hall, by simp, .nil, rfl, s.maxRows_pos, by simp⟩

theorem Receiving.accept {row : Row} (h : Receiving s t blocks path rows)
    (hu : t.accept row = (u, .ok ())) : Receiving s u blocks path (rows ++ [row]) := by
  obtain ⟨groups, chunks, group, pending, rfl, hall, hfull, hgroup, rfl, hlen, hfits⟩ := h
  simp only [BatchBuilder.accept] at hu
  split at hu
  · cases hu
  next hrow =>
    have hfits' : ∀ r ∈ pending ++ [row], s.schema.fault? r = none := by
      intro r hr
      rcases List.mem_append.mp hr with hr | hr
      · exact hfits r hr
      · rw [List.mem_singleton.mp hr]
        exact hrow
    split at hu
    next hmany =>
      have hchunk : (pending ++ [row]).length = s.maxRows := by
        rw [List.length_append] at hmany ⊢
        exact Nat.le_antisymm hlen hmany
      obtain ⟨sealed, rfl, hsealed⟩ := sealPending_eq_ok hu hfits'
      rw [show remainder (pending ++ [row]) = [pending ++ [row]] by simp [remainder]] at hsealed
      refine ⟨groups, chunks ++ [pending ++ [row]], group ++ sealed, [], by simp, hall, ?_,
        List.rel_append hgroup hsealed, by simp, s.maxRows_pos, by simp⟩
      simpa [or_imp, forall_and] using ⟨hfull, by simpa using hchunk⟩
    next hfew =>
      obtain rfl := (Prod.mk.inj hu).1
      exact ⟨groups, chunks, group, pending ++ [row], rfl, hall, hfull, hgroup, by simp,
        Nat.lt_of_not_le hfew, hfits'⟩

theorem Received.leave (h : Receiving s t blocks path rows) (hu : t.leave path = (u, .ok ())) :
    Received s u (blocks ++ [⟨path, rows⟩]) := by
  obtain ⟨groups, chunks, group, pending, rfl, hall, hfull, hgroup, rfl, hlen, hfits⟩ := h
  simp only [BatchBuilder.leave, if_true] at hu
  split at hu
  · cases hu
  next v hv =>
    obtain rfl := (Prod.mk.inj hu).1
    obtain ⟨sealed, rfl, hsealed⟩ := sealPending_eq_ok hv hfits
    have hfills : Fills s.maxRows ⟨path, chunks.flatten ++ pending⟩ (group ++ sealed) :=
      ⟨_, .of_full hfull (Nat.le_of_lt hlen), List.rel_append hgroup hsealed⟩
    exact ⟨groups ++ [group ++ sealed], by simp, List.rel_append hall (.cons hfills .nil)⟩

theorem Received.outside {c : SinkCall} (h : Received s t blocks)
    (hu : Sink.call t c = (u, .ok ())) : ∃ path, c = .enter path := by
  obtain ⟨groups, rfl, -⟩ := h
  rcases c with path | row | path
  · exact ⟨path, rfl⟩
  · cases hu
  · cases hu

theorem Receiving.within {c : SinkCall} (h : Receiving s t blocks path rows)
    (hu : Sink.call t c = (u, .ok ())) : (∃ row, c = .accept row) ∨ c = .leave path := by
  obtain ⟨groups, chunks, group, pending, rfl, -⟩ := h
  rcases c with path' | row | path'
  · cases hu
  · exact Or.inl ⟨row, rfl⟩
  · by_cases hpath : path' = path
    · exact Or.inr (hpath ▸ rfl)
    · rw [Sink.call, Sink.leave] at hu
      simp [instSinkBatchBuilder, BatchBuilder.leave, Ne.symm hpath] at hu

end BatchBuilder

instance : LawfulSink BatchBuilder where
  Received := BatchBuilder.Received
  Receiving := BatchBuilder.Receiving
  enter h hu := .enter h hu
  accept h hu := h.accept hu
  leave h hu := .leave h hu
  outside h hu := h.outside hu
  within h hu := h.within hu

namespace BatchBuilder

/-- Calls that all go well, the last of them the end of a partition, hand over blocks.  What is
taken from the builder then is, block by block, one batch for each chunk of the rows, and together
the batches hold every row that was handed over, once and in order. -/
theorem take_of_calls {schema : Schema} {calls : List SinkCall} {b : BatchBuilder}
    (h : Sink.callAll (create schema maxRows) calls = (b, .ok ())) (hended : b.current = none) :
    ∃ blocks groups, calls = blocks.flatMap Block.calls ∧
      b.take = (create schema maxRows, groups.flatten) ∧
      List.Forall₂ (Fills (max maxRows 1)) blocks groups ∧
      groups.flatten.flatMap Batch.labelled = blocks.flatMap Block.labelled := by
  have hempty : LawfulSink.Holding (create schema maxRows) (create schema maxRows) [] none :=
    Received.refl rfl rfl
  obtain ⟨blocks, part, hholding, hcalls⟩ := hempty.callAll h
  cases part with
  | some part =>
    obtain ⟨groups, chunks, group, pending, rfl, -⟩ := hholding
    cases hended
  | none =>
    obtain ⟨groups, rfl, hall⟩ := hholding
    refine ⟨blocks, groups, ?_, by simp [take, create], hall, Fills.labelled_flatten_eq hall⟩
    simpa [LawfulSink.callsOf] using hcalls.symm

theorem take_of_calls_of_two_partitions :
    ∃ b,
      Sink.callAll (create ⟨[⟨1, "id", .long, true⟩, ⟨2, "name", .string, false⟩]⟩ 2)
          [.enter "p=1", .accept ⟨.insert, [.long 1, .string "a"]⟩,
            .accept ⟨.delete, [.long 2, .null]⟩, .accept ⟨.updateAfter, [.long 3, .string ""]⟩,
            .leave "p=1", .enter "p=2", .leave "p=2"] =
        (b, .ok ()) ∧
      b.current = none ∧
      ∃ blocks groups,
        [.enter "p=1", .accept ⟨.insert, [.long 1, .string "a"]⟩,
            .accept ⟨.delete, [.long 2, .null]⟩, .accept ⟨.updateAfter, [.long 3, .string ""]⟩,
            .leave "p=1", .enter "p=2", .leave "p=2"] = blocks.flatMap Block.calls ∧
          b.take =
            (create ⟨[⟨1, "id", .long, true⟩, ⟨2, "name", .string, false⟩]⟩ 2, groups.flatten) ∧
          List.Forall₂ (Fills (max 2 1)) blocks groups ∧
          groups.flatten.flatMap Batch.labelled = blocks.flatMap Block.labelled := by
  have h : Sink.callAll (create ⟨[⟨1, "id", .long, true⟩, ⟨2, "name", .string, false⟩]⟩ 2)
      [.enter "p=1", .accept ⟨.insert, [.long 1, .string "a"]⟩,
        .accept ⟨.delete, [.long 2, .null]⟩, .accept ⟨.updateAfter, [.long 3, .string ""]⟩,
        .leave "p=1", .enter "p=2", .leave "p=2"] =
      (_, .ok ()) := rfl
  exact ⟨_, h, rfl, take_of_calls h rfl⟩

end BatchBuilder

end ChangeBuffer
