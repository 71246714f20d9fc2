import ChangeBuffer.Proofs.Batch.Storable
import ChangeBuffer.Proofs.Buffer.Brackets

/-! # Accepted rows

A row that fits a schema is taken by a buffer and put into a batch by the same rule, so what has
been taken can be put into batches.  Only a schema that cannot be stored makes a builder of batches
fail.
-/

namespace ChangeBuffer

namespace BatchBuilder

/-- The builder has taken only rows that fit the schema, and they wait within a partition only.  Its
batches are old ones or have the columns that the schema promises. -/
structure Filled (b : BatchBuilder) (schema : Schema) (old : List Batch) (current : Option String) :
    Prop where
  schema_eq : b.schema = schema
  current_eq : b.current = current
  fits : ∀ row ∈ b.pending, schema.fault? row = none
  idle : current = none → b.pending = []
  suits : ∀ batch ∈ b.batches, batch ∈ old ∨ batch.Suits schema

variable {b : BatchBuilder} {schema : Schema} {old : List Batch} {path : String} {rows : List Row}
  {block : Block} {blocks : List Block}

theorem filled_create (schema : Schema) (maxRows : Nat) :
    (create schema maxRows).Filled schema [] none :=
  ⟨rfl, rfl, by simp [create], fun _ => rfl, by simp [create]⟩

namespace Filled

theorem exists_sealPending (h : b.Filled schema old (some path)) (hs : ¬ schema.Unstorable) :
    ∃ t, b.sealPending path = (t, .ok ()) ∧ t.Filled schema old (some path) ∧ t.pending = [] := by
  unfold sealPending
  split
  next hempty => exact ⟨b, rfl, h, List.isEmpty_iff.mp hempty⟩
  next =>
    obtain ⟨batch, hbatch⟩ := Batch.exists_ofRows hs h.fits path
    rw [h.schema_eq, hbatch]
    refine ⟨_, rfl, ⟨rfl, h.current_eq, by simp, fun _ => rfl, fun made hmade => ?_⟩, rfl⟩
    rcases List.mem_append.mp hmade with hmade | hmade
    · exact h.suits made hmade
    · obtain rfl := List.mem_singleton.mp hmade
      exact .inr (Batch.suits_of_ofRows hbatch)

theorem sealPending_of_unstorable (h : b.Filled schema old (some path)) (hs : schema.Unstorable)
    (hne : b.pending ≠ []) : ∃ t e, b.sealPending path = (t, .error e) := by
  obtain ⟨fault, hfault⟩ := Batch.ofRows_of_unstorable hs path b.pending
  refine ⟨{ b with pending := [] }, .batch fault, ?_⟩
  rw [sealPending, if_neg (by simpa using hne), h.schema_eq, hfault]

theorem enter_eq (h : b.Filled schema old none) (path : String) :
    Sink.enter b path = ({ b with current := some path }, .ok ()) := by
  simp only [Sink.enter, BatchBuilder.enter, h.current_eq]

theorem entered (h : b.Filled schema old none) (path : String) :
    { b with current := some path }.Filled schema old (some path) :=
  ⟨h.schema_eq, rfl, h.fits, fun hnone => (nomatch hnone), h.suits⟩

theorem push (h : b.Filled schema old (some path)) {row : Row} (hrow : schema.fault? row = none) :
    { b with pending := b.pending ++ [row] }.Filled schema old (some path) := by
  refine ⟨h.schema_eq, h.current_eq, fun r hr => ?_, fun hnone => (nomatch hnone), h.suits⟩
  rcases List.mem_append.mp hr with hr | hr
  · exact h.fits r hr
  · rwa [List.mem_singleton.mp hr]

theorem accept_eq (h : b.Filled schema old (some path)) {row : Row}
    (hrow : schema.fault? row = none) :
    Sink.accept b row =
      if b.maxRows ≤ (b.pending ++ [row]).length then
        { b with pending := b.pending ++ [row] }.sealPending path
      else ({ b with pending := b.pending ++ [row] }, .ok ()) := by
  obtain ⟨_, maxRows, _, pending, batches, hpos⟩ := b
  obtain rfl := h.schema_eq
  obtain rfl := h.current_eq
  simp only [Sink.accept, BatchBuilder.accept, hrow]

theorem leave_eq (h : b.Filled schema old (some path)) :
    Sink.leave b path =
      match b.sealPending path with
      | (b, .error e) => (b, .error e)
      | (b, .ok ()) => ({ b with current := none }, .ok ()) := by
  change BatchBuilder.leave b path = _
  unfold BatchBuilder.leave
  exact if_pos h.current_eq

/-- Rows that fit a storable schema are all taken. -/
theorem exists_callAll (h : b.Filled schema old (some path)) (hs : ¬ schema.Unstorable)
    (hfits : ∀ row ∈ rows, schema.fault? row = none) :
    ∃ t, Sink.callAll b (rows.map .accept ++ [.leave path]) = (t, .ok ()) ∧
      t.Filled schema old none := by
  induction rows generalizing b with
  | nil =>
    obtain ⟨t, ht, hfilled, hpending⟩ := h.exists_sealPending hs
    refine ⟨{ t with current := none }, ?_,
      ⟨hfilled.schema_eq, rfl, hfilled.fits, fun _ => hpending, hfilled.suits⟩⟩
    rw [List.map_nil, List.nil_append, Sink.callAll, Sink.call, h.leave_eq, ht]
    rfl
  | cons row rows ih =>
    have hpush := h.push (hfits row List.mem_cons_self)
    have hrest := fun r hr => hfits r (List.mem_cons_of_mem row hr)
    rw [List.map_cons, List.cons_append, Sink.callAll, Sink.call,
      h.accept_eq (hfits row List.mem_cons_self)]
    by_cases hmany : b.maxRows ≤ (b.pending ++ [row]).length
    · obtain ⟨t, ht, hfilled, -⟩ := hpush.exists_sealPending hs
      rw [if_pos hmany, ht]
      exact ih hfilled hrest
    · rw [if_neg hmany]
      exact ih hpush hrest

theorem exists_callAll_block (h : b.Filled schema old none) (hs : ¬ schema.Unstorable)
    (hfits : ∀ row ∈ block.rows, schema.fault? row = none) :
    ∃ t, Sink.callAll b block.calls = (t, .ok ()) ∧ t.Filled schema old none := by
  have hentered := h.entered block.path
  obtain ⟨t, ht, hfilled⟩ := hentered.exists_callAll hs hfits
  refine ⟨t, ?_, hfilled⟩
  rw [Block.calls, Block.begun, List.cons_append, Sink.callAll, Sink.call, h.enter_eq]
  exact ht

theorem exists_callAll_blocks (h : b.Filled schema old none) (hs : ¬ schema.Unstorable)
    (hfits : ∀ block ∈ blocks, ∀ row ∈ block.rows, schema.fault? row = none) :
    ∃ t, Sink.callAll b (blocks.flatMap Block.calls) = (t, .ok ()) ∧ t.Filled schema old none := by
  induction blocks generalizing b with
  | nil => exact ⟨b, rfl, h⟩
  | cons block blocks ih =>
    obtain ⟨t, ht, hfilled⟩ := h.exists_callAll_block hs (hfits block List.mem_cons_self)
    rw [List.flatMap_cons, Sink.callAll_append, ht]
    exact ih hfilled fun other ho => hfits other (List.mem_cons_of_mem _ ho)

theorem callAll_of_unstorable (h : b.Filled schema old (some path)) (hs : schema.Unstorable)
    (hfits : ∀ row ∈ rows, schema.fault? row = none) (hne : b.pending ++ rows ≠ []) :
    ∃ t e, Sink.callAll b (rows.map .accept ++ [.leave path]) = (t, .error e) := by
  induction rows generalizing b with
  | nil =>
    obtain ⟨t, e, ht⟩ := h.sealPending_of_unstorable hs (by simpa using hne)
    refine ⟨t, e, ?_⟩
    rw [List.map_nil, List.nil_append, Sink.callAll, Sink.call, h.leave_eq, ht]
  | cons row rows ih =>
    have hpush := h.push (hfits row List.mem_cons_self)
    rw [List.map_cons, List.cons_append, Sink.callAll, Sink.call,
      h.accept_eq (hfits row List.mem_cons_self)]
    by_cases hmany : b.maxRows ≤ (b.pending ++ [row]).length
    · obtain ⟨t, e, ht⟩ := hpush.sealPending_of_unstorable hs (by simp)
      exact ⟨t, e, by rw [if_pos hmany, ht]⟩
    · rw [if_neg hmany]
      exact ih hpush (fun r hr => hfits r (List.mem_cons_of_mem _ hr)) (by simp)

end Filled

/-- A new builder that is given a block of rows that fit fails by its schema alone. -/
theorem callAll_create_fails_iff (maxRows : Nat) (hne : block.rows ≠ [])
    (hfits : ∀ row ∈ block.rows, schema.fault? row = none) :
    (∃ t e, Sink.callAll (create schema maxRows) block.calls = (t, .error e)) ↔
      schema.Unstorable := by
  have hnew := filled_create schema maxRows
  constructor
  · rintro ⟨t, e, he⟩
    by_contra hs
    obtain ⟨t', ht', -⟩ := hnew.exists_callAll_block hs hfits
    cases he.symm.trans ht'
  · intro hs
    rw [Block.calls, Block.begun, List.cons_append, Sink.callAll, Sink.call, hnew.enter_eq]
    exact (hnew.entered block.path).callAll_of_unstorable hs hfits (by simpa [create] using hne)

theorem suits_of_callAll_create {maxRows : Nat} {t : BatchBuilder}
    (hne : block.rows ≠ []) (hfits : ∀ row ∈ block.rows, schema.fault? row = none)
    (ht : Sink.callAll (create schema maxRows) block.calls = (t, .ok ())) :
    ∀ batch ∈ t.batches, batch.Suits schema := by
  have hs : ¬ schema.Unstorable := by
    intro hs
    obtain ⟨t', e, he⟩ := (callAll_create_fails_iff maxRows hne hfits).mpr hs
    cases he.symm.trans ht
  obtain ⟨t', ht', hfilled⟩ := (filled_create schema maxRows).exists_callAll_block hs hfits
  obtain rfl := (Prod.mk.inj (ht'.symm.trans ht)).1
  exact fun batch hbatch => (hfilled.suits batch hbatch).resolve_left List.not_mem_nil

end BatchBuilder

namespace Buffer

section Stocked

variable {σ : Type} [Store σ] [LawfulStore σ] {b b' first : Buffer σ} {call : Call}

/-- As long as the buffer is not over, its store holds rows that fit the schema. -/
def Stocked (b : Buffer σ) : Prop :=
  ¬ b.phase.isOver →
    ∃ m, LawfulStore.Holds b.store m ∧ ∀ e ∈ m.entries, b.schema.fault? e.2 = none

theorem Effect.stocked (h : b.Effect call b') (hcall : call.Sized)
    (hphase : b.phase.isOver → b'.phase.isOver) (hb : b.Stocked) : b'.Stocked := by
  intro hnot
  obtain ⟨m, hm, hfits⟩ := hb fun hover => hnot (hphase hover)
  cases h with
  | none phase => exact ⟨m, hm, hfits⟩
  | @takes row path key store hrow hfault hlocate hstore =>
    by_cases hadds : row.change.adds
    · rw [if_pos hadds] at hstore
      refine ⟨_, LawfulStore.put hm (hcall row (by rw [hrow]; rfl)) hstore, fun e he => ?_⟩
      rcases SortedMap.mem_entries_insert.mp he with rfl | ⟨he, -⟩
      · rwa [fault?, if_pos hadds] at hfault
      · exact hfits e he
    · rw [if_neg hadds] at hstore
      exact ⟨_, LawfulStore.remove hm hstore, fun e he =>
        hfits e (SortedMap.mem_entries_erase.mp he).1⟩
  | loses store hrow => exact absurd rfl hnot
  | clears tally phase hclear =>
    exact ⟨∅, LawfulStore.clear hm hclear, fun e he => absurd he SortedMap.not_mem_empty⟩
  | clearsPartly hclear ht hover => exact absurd hover hnot

theorem Reached.stocked (h : first.Reached Call.Sized (fun _ _ => False) b)
    (hphase : first.phase ≠ .flushing) (hfirst : first.Stocked) :
    b.Stocked ∧ b.schema = first.schema := by
  induction h with
  | start => exact ⟨hfirst, rfl⟩
  | @called τ _ b b' call sink sink' result hreached hsized hcall ih =>
    have hb := hreached.phase_ne hphase
    have heffect := effect_callOn hb hcall
    refine ⟨heffect.stocked hsized (fun hover => ?_) ih.1, heffect.schema_eq.trans ih.2⟩
    rw [phase_callOn hb hcall]
    exact Phase.isOver_next hover
  | disturbed _ hothers => exact hothers.elim
  | reordered _ _ ih => exact ih

end Stocked

/-- A flush of rows that fit into a builder of the same schema fails only by the schema, or by the
store. -/
theorem Stocked.flush_not_refused {b : Buffer Backend} {call : Call} {builder : BatchBuilder}
    (hb : b.Stocked) (hopened : b.phase = .opened) (hnodup : b.touched.Nodup)
    (hcall : call = .flush ∨ call = .close) (hs : ¬ b.schema.Unstorable)
    (hschema : builder.schema = b.schema) (hcurrent : builder.current = none)
    (hpending : builder.pending = []) (e : SinkError) :
    (b.step call builder).result ≠ .error (.downstream e) := by
  intro he
  have hbracketed := bracketed_step hopened hnodup hcall builder
  have hfails : Sink.callAll builder (b.step call builder).asked = (_, .error e) :=
    Prod.ext rfl ((hbracketed.told e).mpr he)
  obtain ⟨m, hm, hfits⟩ := hb (by simp [hopened, Phase.isOver])
  have hfilled : builder.Filled b.schema builder.batches none :=
    ⟨hschema, hcurrent, by simp [hpending], fun _ => hpending, fun _ => .inl⟩
  obtain ⟨t, ht, -⟩ := hfilled.exists_callAll_blocks hs
    fun block (hblock : block ∈ (b.step call builder).blocks) row hrow => by
      obtain ⟨key, -, -, hmem⟩ := hbracketed.stored block hblock row hrow
      exact hfits (key, row) (hmem m hm)
  cases (Sink.callAll_of_prefix hbracketed.inTurn hfails).symm.trans ht

end Buffer

/-- Rows that fit a schema make a builder of batches fail exactly if the schema itself cannot be
stored, and otherwise the batches have the columns that the schema promises.  So no row that a
buffer has taken makes a flush into a builder fail. -/
theorem batches_fail_by_schema_alone {schema : Schema} :
    (∀ (maxRows : Nat) (block : Block), block.rows ≠ [] →
      (∀ row ∈ block.rows, schema.fault? row = none) →
      ((∃ t e, Sink.callAll (BatchBuilder.create schema maxRows) block.calls = (t, .error e)) ↔
        schema.Unstorable) ∧
      ∀ t, Sink.callAll (BatchBuilder.create schema maxRows) block.calls = (t, .ok ()) →
        ∀ batch ∈ t.batches, batch.Suits schema) ∧
    ∀ (settings : Settings) (host : Host) (path : String) (store : Backend)
      (accessors : List Accessor) (key : Schema) (scheme : Partition.Scheme)
      (first b : Buffer Backend) (call : Call) (builder : BatchBuilder),
      Backend.create settings host path = .ok store →
      Buffer.create accessors key schema scheme store = .ok first →
      first.Reached Call.Sized (fun _ _ => False) b → b.phase = .opened →
      call = .flush ∨ call = .close → ¬ schema.Unstorable →
      builder.schema = schema → builder.current = none → builder.pending = [] →
      ∀ e, (b.step call builder).result ≠ .error (.downstream e) := by
  refine ⟨fun maxRows block hne hfits => ⟨BatchBuilder.callAll_create_fails_iff maxRows hne hfits,
    fun t => BatchBuilder.suits_of_callAll_create hne hfits⟩, ?_⟩
  intro settings host path store accessors key scheme first b call builder hstore hfirst hb hopened
    hcall hs hschema hcurrent hpending e
  obtain ⟨places, -, rfl⟩ := Buffer.create_eq_ok hfirst
  have hphase : (Phase.created : Phase) ≠ .flushing := by simp
  obtain ⟨hstocked, hsame⟩ := hb.stocked hphase fun _ =>
    ⟨∅, Backend.Holds.create hstore, fun e he => absurd he SortedMap.not_mem_empty⟩
  obtain rfl : b.schema = schema := hsame
  exact hstocked.flush_not_refused hopened (hb.nodup hphase .nil) hcall hs hschema hcurrent
    hpending e

theorem batches_fail_by_schema_alone_of_wide_scale :
    (∃ t e, Sink.callAll (BatchBuilder.create ⟨[⟨1, "amount", .decimal 2 3, false⟩]⟩ 8)
      (Block.calls ⟨"p=1", [⟨.insert, [.decimal 7]⟩, ⟨.delete, [.null]⟩]⟩) = (t, .error e)) ∧
    (∃ t, Sink.callAll (BatchBuilder.create ⟨[⟨1, "amount", .decimal 3 3, false⟩]⟩ 8)
      (Block.calls ⟨"p=1", [⟨.insert, [.decimal 7]⟩, ⟨.delete, [.null]⟩]⟩) = (t, .ok ()) ∧
      ∀ batch ∈ t.batches, batch.Suits ⟨[⟨1, "amount", .decimal 3 3, false⟩]⟩) ∧
    ∃ (store : Backend) (first b : Buffer Backend),
      Backend.create ⟨.disk, ⟨"/tmp", 1, 3, 1⟩, 8⟩ Host.plain "/tmp/store" = .ok store ∧
      Buffer.create [⟨0, .long⟩] ⟨[⟨1, "id", .long, true⟩]⟩ ⟨[⟨1, "id", .long, true⟩]⟩ ⟨⟨[]⟩, []⟩
        store = .ok first ∧
      first.Reached Call.Sized (fun _ _ => False) b ∧ b.phase = .opened ∧ b.touched = [""] ∧
      ∀ e, (b.step .flush (BatchBuilder.create ⟨[⟨1, "id", .long, true⟩]⟩ 8)).result ≠
        .error (.downstream e) := by
  have hwide := (@batches_fail_by_schema_alone ⟨[⟨1, "amount", .decimal 2 3, false⟩]⟩).1 8
    ⟨"p=1", [⟨.insert, [.decimal 7]⟩, ⟨.delete, [.null]⟩]⟩ (by simp) (by decide)
  have hgood := (@batches_fail_by_schema_alone ⟨[⟨1, "amount", .decimal 3 3, false⟩]⟩).1 8
    ⟨"p=1", [⟨.insert, [.decimal 7]⟩, ⟨.delete, [.null]⟩]⟩ (by simp) (by decide)
  have hfirst := Buffer.create_of_numbers
    (Backend.disk ⟨⟨"/tmp", 1, 3, 1⟩, "/tmp/store", ∅, ∅, 0, [], 0, .zero⟩)
  have hsized : (Call.process ⟨.insert, [.long 1]⟩).Sized := by
    intro row hrow
    obtain rfl := Option.some.inj hrow
    decide
  obtain ⟨b, hb, hopened, htouched⟩ : ∃ b : Buffer Backend,
      Buffer.Reached Call.Sized (fun _ _ => False) ⟨[⟨0, .long⟩], [0],
        ⟨[⟨1, "id", .long, true⟩]⟩, ⟨⟨[]⟩, []⟩,
        .disk ⟨⟨"/tmp", 1, 3, 1⟩, "/tmp/store", ∅, ∅, 0, [], 0, .zero⟩, [], .created, .zero⟩ b ∧
      b.phase = .opened ∧ b.touched = [""] :=
    ⟨_, .after (.after .start .start (fun _ h => nomatch h) RowLog.empty)
      (.process ⟨.insert, [.long 1]⟩) hsized RowLog.empty, rfl, rfl⟩
  refine ⟨hwide.1.mpr (.inr ⟨_, List.mem_cons_self, ?_⟩), ⟨_, rfl, hgood.2 _ rfl⟩, _, _, b,
    Backend.create_plain, hfirst, hb, hopened, htouched, ?_⟩
  · simp [ValueType.Unstorable]
  · exact batches_fail_by_schema_alone.2 _ _ _ _ _ _ _ _ _ _ _ Backend.create_plain hfirst hb
      hopened (.inl rfl) (by simp [Schema.Unstorable, ValueType.Unstorable]) rfl rfl rfl

end ChangeBuffer
