import ChangeBuffer.Proofs.Buffer.Phases

/-! # Traces of buffers

Calls on a buffer one after the other, whether they go well or fail.  Every call is orderly, and a
buffer that has failed or come to its end leaves every sink alone.
-/

namespace ChangeBuffer

structure Step (σ τ : Type) where
  call : Call
  before : Buffer σ
  sink : τ
  after : Buffer σ
  left : τ
  result : Except BufferError Flushed
  asked : List SinkCall

namespace Step

variable {σ τ : Type} [Store σ] [Sink τ]

/-- What holds of every call, whatever the store and the sink do. -/
structure Orderly (s : Step σ τ) : Prop where
  /-- The record of the sink has no part in the call. -/
  made : s.before.callOn s.sink s.call = (s.after, s.left, s.result)
  between : s.before.phase ≠ .flushing ∧ s.after.phase ≠ .flushing
  phase : s.after.phase = s.before.phase.next s.call s.result.isOk
  refused : ∀ action phase, s.result = .error (.wrongPhase action phase) →
    s.after = s.before ∧ s.left = s.sink
  rejected : ∀ row fault, s.call = .process row → s.result = .error (.rejected row fault) →
    s.after = { s.before with phase := .failed }
  unplaced : ∀ row fault, s.call = .process row → s.result = .error (.path fault) →
    s.after = { s.before with phase := .failed }
  unstored : ∀ row fault, s.call = .process row → s.result = .error (.store fault) →
    s.after.touched = s.before.touched ∧ s.after.tally = s.before.tally
  silent : s.before.phase ≠ .opened → s.asked = []

end Step

namespace Buffer

variable {σ τ : Type} [Store σ] [Sink τ]

def step (b : Buffer σ) (call : Call) (sink : τ) : Step σ τ :=
  let (after, left, result) := b.callOn (Recorded.mk sink []) call
  ⟨call, b, sink, after, left.sink, result, left.calls⟩

/-- Makes calls one after the other, each with a sink of its own. -/
def trace (b : Buffer σ) : List (Call × τ) → List (Step σ τ)
  | [] => []
  | (call, sink) :: calls =>
    let s := b.step call sink
    s :: trace s.after calls

variable {b : Buffer σ} {calls : List (Call × τ)}

theorem orderly_step (hb : b.phase ≠ .flushing) (call : Call) (sink : τ) :
    (b.step call sink).Orderly := by
  rcases hc : b.callOn (Recorded.mk sink []) call with ⟨after, left, result⟩
  have hstep : b.step call sink = ⟨call, b, sink, after, left.sink, result, left.calls⟩ := by
    rw [step, hc]
  have hplain : b.callOn sink call = (after, left.sink, result) := by
    rw [← erase_callOn b ⟨sink, []⟩ call, hc]
    rfl
  rw [hstep]
  have hphase := phase_callOn hb hplain
  constructor
  case made => exact hplain
  case between => exact ⟨hb, hphase ▸ Phase.next_ne_flushing hb⟩
  case phase => exact hphase
  case refused =>
    rintro action phase rfl
    exact callOn_of_wrongPhase hb hplain
  case rejected =>
    rintro row fault rfl rfl
    exact (callOn_process_error hplain).2.2 (Or.inl ⟨fault, rfl⟩)
  case unplaced =>
    rintro row fault rfl rfl
    exact (callOn_process_error hplain).2.2 (Or.inr ⟨fault, rfl⟩)
  case unstored =>
    rintro row fault rfl rfl
    obtain ⟨htouched, htally, -⟩ := callOn_process_error hplain
    exact ⟨htouched, htally⟩
  case silent =>
    intro hopened
    rw [callOn_of_ne_opened hb hopened hc]

theorem orderly_of_mem_trace (hb : b.phase ≠ .flushing) :
    ∀ s ∈ b.trace calls, s.Orderly := by
  induction calls generalizing b with
  | nil => simp [trace]
  | cons c calls ih =>
    obtain ⟨call, sink⟩ := c
    have hfirst := orderly_step hb call sink
    intro s hs
    rcases List.mem_cons.mp hs with rfl | hs
    · exact hfirst
    · exact ih hfirst.between.2 s hs

theorem asked_of_isOver (hb : b.phase.isOver) : ∀ s ∈ b.trace calls, s.asked = [] := by
  induction calls generalizing b with
  | nil => simp [trace]
  | cons c calls ih =>
    obtain ⟨call, sink⟩ := c
    have hfirst := orderly_step (Phase.ne_flushing (Phase.isStarted_of_isOver hb)) call sink
    intro s hs
    rcases List.mem_cons.mp hs with rfl | hs
    · exact hfirst.silent (Phase.ne_opened hb)
    · exact ih (hfirst.phase ▸ Phase.isOver_next hb) s hs

theorem pairwise_trace (hb : b.phase ≠ .flushing) :
    (b.trace calls).Pairwise fun s t => s.after.phase.isOver → t.asked = [] := by
  induction calls generalizing b with
  | nil => exact .nil
  | cons c calls ih =>
    obtain ⟨call, sink⟩ := c
    refine .cons (fun t ht hover => asked_of_isOver hover t ht) ?_
    exact ih (orderly_step hb call sink).between.2

/-- Every call on a new buffer is orderly, and behind a call that fails an open buffer or ends it
no sink is asked for anything. -/
theorem orderly_trace {accessors : List Accessor} {key schema : Schema}
    {scheme : Partition.Scheme} {store : σ} (hb : create accessors key schema scheme store = .ok b)
    (calls : List (Call × τ)) :
    (∀ s ∈ b.trace calls, s.Orderly) ∧
      (b.trace calls).Pairwise fun s t => s.after.phase.isOver → t.asked = [] := by
  obtain ⟨_, -, rfl⟩ := create_eq_ok hb
  exact ⟨orderly_of_mem_trace (by simp), pairwise_trace (by simp)⟩

theorem orderly_trace_of_open_log :
    ∃ (b : Buffer MemoryStore) (calls : List (Call × RowLog)),
      create [⟨0, .long⟩] ⟨[⟨1, "id", .long, true⟩]⟩ ⟨[⟨1, "id", .long, true⟩]⟩ ⟨⟨[]⟩, []⟩ .empty =
        .ok b ∧
      calls = [(.start, .empty), (.process ⟨.insert, [.long 1]⟩, .empty), (.flush, ⟨some "x", []⟩),
        (.process ⟨.insert, [.long 2]⟩, .empty), (.flush, .empty), (.close, .empty)] ∧
      (b.trace calls).map (fun s => (s.after.phase, s.result, s.asked)) =
        [(.opened, .ok .nothing, []), (.opened, .ok .nothing, []),
          (.failed, .error (.downstream (.stillOpen "x" "")), [.enter ""]),
          (.failed, .error (.wrongPhase .process .failed), []),
          (.failed, .error (.wrongPhase .flush .failed), []), (.terminated, .ok .nothing, [])] ∧
      (∀ s ∈ b.trace calls, s.Orderly) ∧
      (b.trace calls).Pairwise fun s t => s.after.phase.isOver → t.asked = [] := by
  have hb : create [⟨0, .long⟩] ⟨[⟨1, "id", .long, true⟩]⟩ ⟨[⟨1, "id", .long, true⟩]⟩ ⟨⟨[]⟩, []⟩
      MemoryStore.empty = .ok ⟨[⟨0, .long⟩], [0], ⟨[⟨1, "id", .long, true⟩]⟩, ⟨⟨[]⟩, []⟩, .empty, [],
        .created, .zero⟩ := by cbv
  exact ⟨_, _, hb, rfl, by cbv, orderly_trace hb _⟩

end Buffer

end ChangeBuffer
