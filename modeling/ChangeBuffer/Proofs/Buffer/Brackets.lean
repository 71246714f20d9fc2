import ChangeBuffer.Proofs.Buffer.Plan
import ChangeBuffer.Proofs.Buffer.Reach
import ChangeBuffer.Proofs.Buffer.Trace
import ChangeBuffer.Proofs.Store.Forgery

/-! # Flushes in brackets

Whatever the store and the sink do, a flush hands over the touched partitions one after the other,
each between its beginning and its end, and stops at the first failure.  Until everything has been
handed over, the buffer keeps what it has.
-/

namespace ChangeBuffer

/-- The key begins with the stem of the path, and no other partition has such keys. -/
structure EntryKey.LiesIn (path : String) (key : Bytes) : Prop where
  stem : ∃ stem, EntryKey.stem path = .ok stem ∧ stem <+: key
  path : ∀ e : EntryKey, e.encode = .ok key → e.path = path

def Backend.HasRow : Backend → Bytes → Row → Prop
  | .memory s, key, row => (key, row) ∈ s.rows.entries
  | .disk s, key, row => ∃ bytes, Row.decode bytes = .ok row ∧ s.HasBytes key bytes

namespace Step

variable {τ : Type} [Sink τ] (s : Step Backend τ)

def blocks : List Block := s.before.touched.map (Buffer.readable s.before.store)

structure HandsOver : Prop where
  asked : s.asked = s.blocks.flatMap Block.calls
  taken : (Sink.callAll s.sink s.asked).2 = .ok ()
  read : ∀ path ∈ s.before.touched, (Buffer.partitionRead s.before.store path).2 = .ok ()

/-- What holds of every flush of an open buffer, whatever the store and the sink do. -/
structure Bracketed : Prop where
  /-- The partitions are handed over one after the other, each from its beginning to its end. -/
  inTurn : s.asked <+: s.blocks.flatMap Block.calls
  once : s.before.touched.Nodup
  complete : ∀ f, s.result = .ok f → s.HandsOver
  /-- Every row lies in the store, under a key of its partition. -/
  stored : ∀ block ∈ s.blocks, ∀ row ∈ block.rows, ∃ key,
    EntryKey.LiesIn block.path key ∧ s.before.store.HasRow key row ∧
      ∀ m, LawfulStore.Holds s.before.store m → (key, row) ∈ m.entries
  heeded : (Sink.callAll s.sink s.asked.dropLast).2 = .ok ()
  told : ∀ e, (Sink.callAll s.sink s.asked).2 = .error e ↔ s.result = .error (.downstream e)
  /-- A partition that cannot be read is the last, and it is not left. -/
  unread : ∀ front path back e, s.before.touched = front ++ path :: back →
    (Buffer.partitionRead s.before.store path).2 = .error e →
    s.asked <+: (front.map (Buffer.readable s.before.store)).flatMap Block.calls ++
      (Buffer.readable s.before.store path).begun
  /-- If not everything has been handed over, the buffer keeps everything and has failed. -/
  spared : ¬ s.HandsOver → s.after = { s.before with phase := .failed } ∧
    ((∃ e, s.result = .error (.downstream e)) ∨ ∃ e, s.result = .error (.store e))
  cleared : s.HandsOver → s.before.touched ≠ [] → ∀ store,
    Store.clear s.before.store = (store, .ok ()) →
    s.result = .ok (.ofBlocks s.blocks) ∧
      s.after = { s.before with
        store
        touched := []
        tally := s.before.tally.flush (.ofBlocks s.blocks)
        phase := s.before.phase.next s.call true }
  unclear : s.HandsOver → s.before.touched ≠ [] → ∀ store e,
    Store.clear s.before.store = (store, .error e) →
    s.result = .error (.store e) ∧ s.after = { s.before with store, phase := .failed }
  idle : s.before.touched = [] → s.asked = [] ∧ s.result = .ok .nothing ∧
    s.after = { s.before with phase := s.before.phase.next s.call true }

end Step

namespace Buffer

variable {σ τ : Type} [Store σ] [Sink τ]

/-- All that is planned for partitions of a store has been done by the calls `made`. -/
structure CarriedOut (store : σ) (paths : List String) (sink : τ) (made : List SinkCall)
    (f : Flushed) : Prop where
  asked : made = (plan store paths).calls
  taken : (Sink.callAll sink made).2 = .ok ()
  planned : (plan store paths).outcome = .ok f

/-- What becomes of a buffer that is drained into a sink by the calls `made`, and what comes of
it. -/
inductive Drained (b : Buffer σ) (sink : τ) (made : List SinkCall) :
    Buffer σ → Except BufferError Flushed → Prop
  | refused {e : SinkError} :
      b.touched ≠ [] → (Sink.callAll sink made).2 = .error e →
      Drained b sink made b (.error (.downstream e))
  | unread {e : StoreError} :
      b.touched ≠ [] → (Sink.callAll sink made).2 = .ok () →
      (plan b.store b.touched).outcome = .error e →
      Drained b sink made b (.error (.store e))
  | idle :
      b.touched = [] → CarriedOut b.store b.touched sink made .nothing →
      Drained b sink made b (.ok .nothing)
  | cleared {f : Flushed} {store : σ} :
      b.touched ≠ [] → CarriedOut b.store b.touched sink made f →
      Store.clear b.store = (store, .ok ()) →
      Drained b sink made { b with store, touched := [], tally := b.tally.flush f } (.ok f)
  | unclear {f : Flushed} {store : σ} {e : StoreError} :
      b.touched ≠ [] → CarriedOut b.store b.touched sink made f →
      Store.clear b.store = (store, .error e) →
      Drained b sink made { b with store } (.error (.store e))

end Buffer

namespace Step

variable {τ : Type} [Sink τ] {s : Step Backend τ}

theorem HandsOver.outcome_eq (h : s.HandsOver) :
    (Buffer.plan s.before.store s.before.touched).outcome = .ok (.ofBlocks s.blocks) := by
  rw [Buffer.plan_eq_of_ok h.read]
  rfl

theorem handsOver_of_carriedOut {f : Flushed}
    (h : Buffer.CarriedOut s.before.store s.before.touched s.sink s.asked f) : s.HandsOver where
  asked := by
    rw [h.asked, Buffer.plan_eq_of_ok (Buffer.read_of_plan_eq_ok h.planned)]
    rfl
  taken := h.taken
  read := Buffer.read_of_plan_eq_ok h.planned

end Step

namespace EntryKey

theorem liesIn_of_stem {path : String} {stem key : Bytes} (hstem : EntryKey.stem path = .ok stem)
    (hkey : stem <+: key) : LiesIn path key where
  stem := ⟨stem, hstem, hkey⟩
  path _ he := (stem_prefix_iff hstem he).mp hkey

end EntryKey

namespace Backend

theorem hasRow_of_mem_scan {s : Backend} {stem key : Bytes} {row : Row}
    {items : List (Except StoreError (Bytes × Row))} (h : Store.scan s stem = .ok items)
    (hrow : .ok (key, row) ∈ items) : stem <+: key ∧ s.HasRow key row := by
  cases s with
  | memory s =>
    obtain rfl := Except.ok.inj h
    obtain ⟨p, hp, hitem⟩ := List.mem_map.mp hrow
    obtain rfl := Except.ok.inj hitem
    obtain ⟨hmem, hbegins⟩ := List.mem_filter.mp hp
    exact ⟨List.isPrefixOf_iff_prefix.mp hbegins, hmem⟩
  | disk s =>
    replace h : s.scan stem = .ok items := h
    unfold DiskStore.scan at h
    cases hsources : s.runSources stem with
    | error e =>
      rw [hsources] at h
      cases h
    | ok sources =>
      rw [hsources] at h
      obtain rfl := Except.ok.inj h
      exact (DiskStore.safeScan_of_runSources hsources).rows key row hrow

end Backend

namespace Buffer

variable {σ τ : Type} [Store σ] [Sink τ] {b : Buffer Backend} {call : Call} {sink : τ}

theorem stored_of_mem_readable {store : Backend} {path : String} {row : Row}
    (h : row ∈ (readable store path).rows) :
    ∃ key, EntryKey.LiesIn path key ∧ store.HasRow key row ∧
      ∀ m, LawfulStore.Holds store m → (key, row) ∈ m.entries := by
  obtain ⟨key, stem, items, hstem, hscan, hmem⟩ := mem_scan_of_mem_readable h
  obtain ⟨hbegins, hrow⟩ := Backend.hasRow_of_mem_scan hscan (ok_mem_of_mem_readItems hmem)
  refine ⟨key, EntryKey.liesIn_of_stem hstem hbegins, hrow, fun m hm => ?_⟩
  obtain rfl := Except.ok.inj (hscan.symm.trans (LawfulStore.scan stem hm))
  rw [readItems_map_ok] at hmem
  exact (List.mem_filter.mp hmem).1

theorem exists_made (store : σ) (paths : List String) (sink : τ) :
    ∃ made, made <+: (plan store paths).calls ∧
      (Sink.callAll sink made.dropLast).2 = .ok () ∧
      ((∃ e, (Sink.callAll sink made).2 = .error e ∧
          emit store (Recorded.mk sink []) paths =
            (⟨(Sink.callAll sink made).1, made⟩, .error (.downstream e))) ∨
        (Sink.callAll sink made).2 = .ok () ∧ made = (plan store paths).calls ∧
          emit store (Recorded.mk sink []) paths =
            (⟨(Sink.callAll sink made).1, made⟩, (plan store paths).outcome.mapError .store)) := by
  obtain ⟨made, hbegins, hcalls, hall, hbut⟩ :=
    Recorded.callAll_eq (Recorded.mk sink []) (plan store paths).calls
  refine ⟨made, hbegins, hbut, ?_⟩
  rw [emit_eq_carryOut, Plan.carryOut, hcalls]
  rcases hmade : (Sink.callAll sink made).2 with e | ⟨⟩
  · exact .inl ⟨e, rfl, by simp⟩
  · exact .inr ⟨rfl, hall hmade, by simp⟩

/-- What draining a buffer does to a sink that is recorded, and to the buffer. -/
theorem drain_recorded {b left : Buffer σ} {filled : Recorded τ}
    {result : Except BufferError Flushed}
    (h : b.drain (Recorded.mk sink []) = (left, filled, result)) :
    filled.calls <+: (plan b.store b.touched).calls ∧
      (Sink.callAll sink filled.calls.dropLast).2 = .ok () ∧
      b.Drained sink filled.calls left result := by
  obtain ⟨hempty, rfl, rfl, rfl⟩ | ⟨hne, hdrain⟩ := drain_cases h
  · refine ⟨List.nil_prefix, rfl, .idle hempty ⟨?_, rfl, ?_⟩⟩ <;> rw [hempty, plan]
  obtain ⟨made, hbegins, hbut, hmade⟩ := exists_made b.store b.touched sink
  obtain ⟨e, he, hemit⟩ | ⟨hok, hall, hemit⟩ := hmade
  · obtain ⟨e', hemit', rfl, rfl⟩ | ⟨f, hemit', -⟩ := hdrain
    · obtain ⟨rfl, he'⟩ := Prod.mk.inj (hemit.symm.trans hemit')
      obtain rfl := Except.error.inj he'
      exact ⟨hbegins, hbut, .refused hne he⟩
    · cases hemit.symm.trans hemit'
  cases houtcome : (plan b.store b.touched).outcome with
  | error e =>
    rw [houtcome] at hemit
    obtain ⟨e', hemit', rfl, rfl⟩ | ⟨f, hemit', -⟩ := hdrain
    · obtain ⟨rfl, he'⟩ := Prod.mk.inj (hemit.symm.trans hemit')
      obtain rfl := Except.error.inj he'
      exact ⟨hbegins, hbut, .unread hne hok houtcome⟩
    · cases hemit.symm.trans hemit'
  | ok f =>
    rw [houtcome] at hemit
    obtain ⟨e', hemit', -⟩ | ⟨f', hemit', hclear⟩ := hdrain
    · cases hemit.symm.trans hemit'
    · obtain ⟨rfl, hf⟩ := Prod.mk.inj (hemit.symm.trans hemit')
      obtain rfl := Except.ok.inj hf
      have hcarried : CarriedOut b.store b.touched sink made f := ⟨hall, hok, houtcome⟩
      refine ⟨hbegins, hbut, ?_⟩
      obtain ⟨store, hclear, rfl, rfl⟩ | ⟨store, e, hclear, rfl, rfl⟩ := hclear
      · exact .cleared hne hcarried hclear
      · exact .unclear hne hcarried hclear

theorem step_of_opened {b left : Buffer σ} {filled : Recorded τ}
    {result : Except BufferError Flushed} (hb : b.phase = .opened)
    (hcall : call = .flush ∨ call = .close)
    (h : drain { b with phase := .flushing } (Recorded.mk sink []) = (left, filled, result)) :
    b.step call sink = ⟨call, b, sink,
      { left with phase := if result.isOk then b.phase.next call true else .failed },
      filled.sink, result, filled.calls⟩ := by
  rcases hcall with rfl | rfl
  · rcases result with e | f <;>
      simp [step, callOn, flush, hb, h, Phase.next, Except.isOk, Except.toBool]
  · rcases result with e | f <;>
      simp [step, callOn, close, flush, hb, h, Phase.next, Except.isOk, Except.toBool]

/-- Every flush of an open buffer is in brackets. -/
theorem bracketed_step (hb : b.phase = .opened) (hnodup : b.touched.Nodup)
    (hcall : call = .flush ∨ call = .close) (sink : τ) : (b.step call sink).Bracketed := by
  rcases hdrain : drain { b with phase := .flushing } (Recorded.mk sink []) with
    ⟨left, filled, result⟩
  rw [step_of_opened hb hcall hdrain]
  obtain ⟨hbegins, hbut, hdrained⟩ := drain_recorded hdrain
  generalize filled.calls = made at hbegins hbut hdrained ⊢
  constructor
  case inTurn => exact hbegins.trans calls_plan_prefix
  case once => exact hnodup
  case stored =>
    intro block hblock row hrow
    obtain ⟨path, -, rfl⟩ := List.mem_map.mp hblock
    exact stored_of_mem_readable hrow
  case heeded => exact hbut
  case unread =>
    intro front path back e (htouched : b.touched = _) hread
    refine hbegins.trans ?_
    change (plan b.store b.touched).calls <+: _
    rw [htouched]
    exact calls_plan_of_error hread
  case complete =>
    intro f (hf : result = _)
    cases hdrained with
    | refused | unread | unclear => cases hf
    | idle _ hcarried => exact Step.handsOver_of_carriedOut hcarried
    | cleared _ hcarried => exact Step.handsOver_of_carriedOut hcarried
  case told =>
    intro e
    cases hdrained with
    | refused _ he => simp only [he, Except.error.injEq, BufferError.downstream.injEq]
    | unread _ htaken => simp [htaken]
    | idle _ hcarried => simp [hcarried.taken]
    | cleared _ hcarried => simp [hcarried.taken]
    | unclear _ hcarried => simp [hcarried.taken]
  case spared =>
    intro hnot
    cases hdrained with
    | refused => exact ⟨rfl, .inl ⟨_, rfl⟩⟩
    | unread => exact ⟨rfl, .inr ⟨_, rfl⟩⟩
    | idle _ hcarried => exact absurd (Step.handsOver_of_carriedOut hcarried) hnot
    | cleared _ hcarried => exact absurd (Step.handsOver_of_carriedOut hcarried) hnot
    | unclear _ hcarried => exact absurd (Step.handsOver_of_carriedOut hcarried) hnot
  case cleared =>
    intro hover hne store hclear
    cases hdrained with
    | refused _ he => cases he.symm.trans hover.taken
    | unread _ _ he => cases he.symm.trans hover.outcome_eq
    | idle hempty => exact absurd hempty hne
    | @cleared f store' _ hcarried hclear' =>
      obtain rfl : f = .ofBlocks (b.touched.map (readable b.store)) :=
        Except.ok.inj (hcarried.planned.symm.trans hover.outcome_eq)
      obtain rfl := (Prod.mk.inj (hclear.symm.trans hclear')).1
      exact ⟨rfl, rfl⟩
    | unclear _ _ hclear' => cases hclear.symm.trans hclear'
  case unclear =>
    intro hover hne store e hclear
    cases hdrained with
    | refused _ he => cases he.symm.trans hover.taken
    | unread _ _ he => cases he.symm.trans hover.outcome_eq
    | idle hempty => exact absurd hempty hne
    | cleared _ _ hclear' => cases hclear.symm.trans hclear'
    | unclear _ _ hclear' =>
      obtain ⟨rfl, he⟩ := Prod.mk.inj (hclear.symm.trans hclear')
      obtain rfl := Except.error.inj he
      exact ⟨rfl, rfl⟩
  case idle =>
    intro (hempty : b.touched = [])
    cases hdrained with
    | idle _ hcarried =>
      have hnone := hcarried.asked
      rw [show ({ b with phase := .flushing } : Buffer Backend).touched = [] from hempty] at hnone
      exact ⟨hnone, rfl, rfl⟩
    | refused hne | unread hne | cleared hne | unclear hne => exact absurd hempty hne

end Buffer

theorem Step.Bracketed.not_isMisplaced {τ : Type} [Sink τ] [BracketedSink τ] {s : Step Backend τ}
    (h : s.Bracketed) (hsink : BracketedSink.current s.sink = none) {e : SinkError}
    (he : s.result = .error (.downstream e)) : ¬ e.isMisplaced := by
  have hfails : Sink.callAll s.sink s.asked = (_, .error e) := Prod.ext rfl ((h.told e).mpr he)
  exact BracketedSink.not_isMisplaced_of_blocks hsink (Sink.callAll_of_prefix h.inTurn hfails)

/-- Whatever has happened to the files of a buffer, and whatever a sink refuses, every flush of the
open buffer hands over partitions in brackets and stops at the first failure.  A log or a builder
of batches that is between partitions does not find a call misplaced, so a log refuses none. -/
theorem flush_in_brackets {store : Backend} {accessors : List Accessor} {key schema : Schema}
    {scheme : Partition.Scheme} {first b : Buffer Backend} {call : Call}
    (hfirst : Buffer.create accessors key schema scheme store = .ok first)
    (hb : first.Reached (fun _ => True) Backend.Disturbed b) (hopened : b.phase = .opened)
    (hcall : call = .flush ∨ call = .close) :
    (∀ (τ : Type) [Sink τ] (sink : τ), (b.step call sink).Bracketed) ∧
      (∀ log : RowLog, log.current = none → ∀ e,
        (b.step call log).result ≠ .error (.downstream e)) ∧
      ∀ builder : BatchBuilder, builder.current = none → ∀ e,
        (b.step call builder).result = .error (.downstream e) → ¬ e.isMisplaced := by
  have hnodup : b.touched.Nodup := by
    obtain ⟨places, -, rfl⟩ := Buffer.create_eq_ok hfirst
    exact hb.nodup (by simp) .nil
  have hbracketed (τ : Type) [Sink τ] (sink : τ) : (b.step call sink).Bracketed :=
    Buffer.bracketed_step hopened hnodup hcall sink
  refine ⟨hbracketed, fun log hlog e he => ?_, fun builder hbuilder e he => ?_⟩
  · have hfails : Sink.callAll log (b.step call log).asked = (_, .error e) :=
      Prod.ext rfl (((hbracketed RowLog log).told e).mpr he)
    exact (hbracketed RowLog log).not_isMisplaced hlog he (RowLog.isMisplaced_of_callAll hfails)
  · exact (hbracketed BatchBuilder builder).not_isMisplaced hbuilder he

theorem flush_in_brackets_of_missing_run :
    ∃ (store : Backend) (first b : Buffer Backend),
      Backend.create ⟨.disk, ⟨"/tmp", 1, 3, 1⟩, 8⟩ Host.plain "/tmp/store" = .ok store ∧
      Buffer.create [⟨0, .long⟩] ⟨[⟨1, "id", .long, true⟩]⟩ ⟨[⟨1, "id", .long, true⟩]⟩ ⟨⟨[]⟩, []⟩
        store = .ok first ∧
      first.Reached (fun _ => True) Backend.Disturbed b ∧ b.phase = .opened ∧
      (b.step .flush RowLog.empty).asked = [.enter ""] ∧
      (b.step .flush RowLog.empty).result = .error (.store (.file .missing)) ∧
      (∀ (τ : Type) [Sink τ] (sink : τ), (b.step .flush sink).Bracketed) ∧
      (∀ log : RowLog, log.current = none → ∀ e,
        (b.step .flush log).result ≠ .error (.downstream e)) ∧
      ∀ builder : BatchBuilder, builder.current = none → ∀ e,
        (b.step .flush builder).result = .error (.downstream e) → ¬ e.isMisplaced := by
  have hfirst := Buffer.create_of_numbers
    (Backend.disk ⟨⟨"/tmp", 1, 3, 1⟩, "/tmp/store", ∅, ∅, 0, [], 0, .zero⟩)
  obtain ⟨b, hb, hopened, hasked, hresult⟩ : ∃ b : Buffer Backend,
      Buffer.Reached (fun _ => True) Backend.Disturbed ⟨[⟨0, .long⟩], [0],
        ⟨[⟨1, "id", .long, true⟩]⟩, ⟨⟨[]⟩, []⟩,
        .disk ⟨⟨"/tmp", 1, 3, 1⟩, "/tmp/store", ∅, ∅, 0, [], 0, .zero⟩, [], .created, .zero⟩ b ∧
      b.phase = .opened ∧ (b.step .flush RowLog.empty).asked = [.enter ""] ∧
      (b.step .flush RowLog.empty).result = .error (.store (.file .missing)) := by
    refine ⟨_, .disturbed (.after (.after .start .start trivial RowLog.empty)
      (.process ⟨.insert, [.long 1]⟩) trivial RowLog.empty) ⟨∅, rfl⟩, rfl, ?_, ?_⟩ <;> rfl
  exact ⟨_, _, b, Backend.create_plain, hfirst, hb, hopened, hasked, hresult,
    flush_in_brackets hfirst hb hopened (.inl rfl)⟩

end ChangeBuffer
