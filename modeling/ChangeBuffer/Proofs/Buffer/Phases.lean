import ChangeBuffer.Proofs.Buffer.Emission
import ChangeBuffer.Proofs.Buffer.Run

/-! # Phases of buffers

A call moves a buffer from phase to phase by whether it goes well, for any store and any sink.  A
call that the phase does not allow changes nothing, and only an open buffer makes use of a sink.
-/

namespace ChangeBuffer

namespace Phase

def next : Phase → Call → Bool → Phase
  | created, .start, _ => opened
  | created, .close, _ => terminated
  | opened, .process _, false | opened, .flush, false | opened, .close, false => failed
  | opened, .close, true => terminated
  | failed, .close, true => terminated
  | phase, _, _ => phase

def isOver : Phase → Bool
  | failed | terminated => true
  | created | opened | flushing => false

def isStarted : Phase → Bool
  | opened | failed | terminated => true
  | created | flushing => false

variable {phase : Phase} {call : Call} {ok : Bool}

theorem next_start (h : phase ≠ .created) : phase.next .start ok = phase := by
  cases phase with
  | created => exact absurd rfl h
  | opened | flushing | failed | terminated => rfl

theorem next_process (h : phase ≠ .opened) (row : Row) : phase.next (.process row) ok = phase := by
  cases phase with
  | opened => exact absurd rfl h
  | created | flushing | failed | terminated => rfl

theorem next_flush (h : phase ≠ .opened) : phase.next .flush ok = phase := by
  cases phase with
  | opened => exact absurd rfl h
  | created | flushing | failed | terminated => rfl

theorem next_close (h : phase ≠ .flushing) : phase.next .close true = .terminated := by
  cases phase with
  | flushing => exact absurd rfl h
  | created | opened | failed | terminated => rfl

theorem next_ne_flushing (h : phase ≠ .flushing) : phase.next call ok ≠ .flushing := by
  cases phase with
  | flushing => exact absurd rfl h
  | created | terminated => cases call <;> simp [next]
  | opened | failed => cases call <;> cases ok <;> simp [next]

theorem isOver_next (h : phase.isOver) : (phase.next call ok).isOver := by
  cases phase with
  | created | opened | flushing => cases h
  | failed => cases call <;> cases ok <;> rfl
  | terminated => cases call <;> rfl

theorem isStarted_next (h : phase.isStarted) : (phase.next call ok).isStarted := by
  cases phase with
  | created | flushing => cases h
  | opened | failed => cases call <;> cases ok <;> rfl
  | terminated => cases call <;> rfl

theorem isOver_next_false (h : phase.isStarted) (hc : call ≠ .start) :
    (phase.next call false).isOver := by
  cases phase with
  | created | flushing => cases h
  | failed | terminated => exact isOver_next rfl
  | opened =>
    cases call with
    | start => exact absurd rfl hc
    | process | flush | close => rfl

theorem ne_flushing (h : phase.isStarted) : phase ≠ .flushing := by
  rintro rfl
  cases h

theorem isStarted_of_isOver (h : phase.isOver) : phase.isStarted := by
  cases phase with
  | created | opened | flushing => cases h
  | failed | terminated => rfl

theorem ne_opened (h : phase.isOver) : phase ≠ .opened := by
  rintro rfl
  cases h

end Phase

namespace Buffer

variable {σ τ : Type} {b b' : Buffer σ} {sink sink' : τ} {row : Row} {e : BufferError}

theorem start_cases {result : Except BufferError Unit} (h : b.start = (b', result)) :
    b.phase ≠ .created ∧ b' = b ∧ result = .error (.wrongPhase .start b.phase) ∨
      b.phase = .created ∧ b' = { b with phase := .opened } ∧ result = .ok () := by
  unfold start at h
  split at h
  next hphase =>
    cases h
    exact Or.inr ⟨hphase, rfl, rfl⟩
  next hphase =>
    cases h
    exact Or.inl ⟨hphase, rfl, rfl⟩

variable [Store σ] [Sink τ]

/-- A row that is not taken leaves everything but the store as it is, and the store too if the row
or its path is at fault. -/
theorem apply_error (h : b.apply row = (b', .error e)) :
    b' = b ∧ ((∃ fault, e = .rejected row fault) ∨ ∃ fault, e = .path fault) ∨
      ∃ store fault, b' = { b with store } ∧ e = .store fault := by
  unfold apply at h
  split at h
  · cases h
    exact Or.inl ⟨rfl, Or.inl ⟨_, rfl⟩⟩
  · split at h
    next hlocate =>
      cases h
      unfold locate at hlocate
      split at hlocate
      · cases hlocate
        exact Or.inl ⟨rfl, Or.inr ⟨_, rfl⟩⟩
      · split at hlocate
        · cases hlocate
          exact Or.inr ⟨b.store, _, rfl, rfl⟩
        · cases hlocate
    · simp only at h
      split at h
      · cases h
        exact Or.inr ⟨_, _, rfl, rfl⟩
      · cases h

theorem process_cases {result : Except BufferError Unit} (h : b.process row = (b', result)) :
    b.phase ≠ .opened ∧ b' = b ∧ result = .error (.wrongPhase .process b.phase) ∨
      b.phase = .opened ∧ b.apply row = (b', .ok ()) ∧ result = .ok () ∨
      b.phase = .opened ∧ ∃ left e, b.apply row = (left, .error e) ∧
        b' = { left with phase := .failed } ∧ result = .error e := by
  unfold process at h
  split at h
  next hphase =>
    split at h
    next happly =>
      cases h
      exact Or.inr (Or.inr ⟨hphase, _, _, happly, rfl, rfl⟩)
    next happly =>
      cases h
      exact Or.inr (Or.inl ⟨hphase, happly, rfl⟩)
  next hphase =>
    cases h
    exact Or.inl ⟨hphase, rfl, rfl⟩

variable {result : Except BufferError Flushed}

theorem flush_cases (h : b.flush sink = (b', sink', result)) :
    b.phase ≠ .opened ∧ b' = b ∧ sink' = sink ∧ result = .error (.wrongPhase .flush b.phase) ∨
      b.phase = .opened ∧ ∃ left, drain { b with phase := .flushing } sink = (left, sink', result) ∧
        b' = { left with phase := if result.isOk then .opened else .failed } := by
  unfold flush at h
  split at h
  next hphase =>
    refine Or.inr ⟨hphase, ?_⟩
    split at h
    all_goals
      next hdrain =>
        cases h
        exact ⟨_, hdrain, rfl⟩
  next hphase =>
    cases h
    exact Or.inl ⟨hphase, rfl, rfl, rfl⟩

theorem abandon_cases {result : Except BufferError Unit} (h : b.abandon = (b', result)) :
    b'.phase = .terminated ∧ result = .ok () ∨
      b'.phase = b.phase ∧ ∃ fault, result = .error (.store fault) := by
  unfold abandon at h
  split at h
  · cases h
    exact Or.inr ⟨rfl, _, rfl⟩
  · cases h
    exact Or.inl ⟨rfl, rfl⟩

/-- Closing flushes an open buffer and leaves the sink of every other alone. -/
theorem close_cases (hb : b.phase ≠ .flushing) (h : b.close sink = (b', sink', result)) :
    b.phase = .opened ∧ (∃ left, b.flush sink = (left, sink', result) ∧
        b' = { left with phase := if result.isOk then .terminated else left.phase }) ∨
      b.phase ≠ .opened ∧ sink' = sink ∧ (result = .ok .nothing ∧ b'.phase = .terminated ∨
        b.phase = .failed ∧ b'.phase = .failed ∧ ∃ fault, result = .error (.store fault)) := by
  unfold close at h
  split at h
  next hphase =>
    cases h
    exact Or.inr ⟨by simp [hphase], rfl, Or.inl ⟨rfl, hphase⟩⟩
  next hphase =>
    cases h
    exact Or.inr ⟨by simp [hphase], rfl, Or.inl ⟨rfl, rfl⟩⟩
  next hphase =>
    refine Or.inl ⟨hphase, ?_⟩
    split at h
    all_goals
      next hflush =>
        cases h
        exact ⟨_, hflush, rfl⟩
  next hphase => exact absurd hphase hb
  next hphase =>
    refine Or.inr ⟨by simp [hphase], ?_⟩
    split at h
    next habandon =>
      cases h
      obtain ⟨-, hr⟩ | ⟨hkept, fault, hr⟩ := abandon_cases habandon
      · cases hr
      · cases hr
        exact ⟨rfl, Or.inr ⟨hphase, hkept.trans hphase, fault, rfl⟩⟩
    next habandon =>
      cases h
      obtain ⟨hended, -⟩ | ⟨-, fault, hr⟩ := abandon_cases habandon
      · exact ⟨rfl, Or.inl ⟨rfl, hended⟩⟩
      · cases hr

theorem flush_leaves {f : Flushed} (h : b.flush sink = (b', sink', .ok f)) :
    sink' = sink ∨ ∃ filled path, Sink.leave filled path = (sink', .ok ()) := by
  obtain ⟨-, -, -, hr⟩ | ⟨-, left, hdrain, -⟩ := flush_cases h
  · cases hr
  · exact drain_leaves hdrain

theorem close_leaves {f : Flushed} (hb : b.phase ≠ .flushing)
    (h : b.close sink = (b', sink', .ok f)) :
    sink' = sink ∨ ∃ filled path, Sink.leave filled path = (sink', .ok ()) := by
  obtain ⟨-, left, hflush, -⟩ | ⟨-, hsink, -⟩ := close_cases hb h
  · exact flush_leaves hflush
  · exact Or.inl hsink

/-- Makes a call with a sink, and gives the sink that it leaves. -/
def callOn (b : Buffer σ) (sink : τ) : Call → Buffer σ × τ × Except BufferError Flushed
  | .start =>
    let (b, result) := b.start
    (b, sink, result.map fun () => .nothing)
  | .process row =>
    let (b, result) := b.process row
    (b, sink, result.map fun () => .nothing)
  | .flush => b.flush sink
  | .close => b.close sink

theorem of_callOn_start (h : b.callOn sink .start = (b', sink', result)) :
    sink' = sink ∧ ∃ started, b.start = (b', started) ∧
      result = started.map fun () => .nothing := by
  cases h
  exact ⟨rfl, _, rfl, rfl⟩

theorem of_callOn_process (h : b.callOn sink (.process row) = (b', sink', result)) :
    sink' = sink ∧ ∃ taken, b.process row = (b', taken) ∧
      result = taken.map fun () => .nothing := by
  cases h
  exact ⟨rfl, _, rfl, rfl⟩

variable {call : Call}

theorem phase_callOn (hb : b.phase ≠ .flushing) (h : b.callOn sink call = (b', sink', result)) :
    b'.phase = b.phase.next call result.isOk := by
  cases call with
  | start =>
    obtain ⟨-, started, hr, rfl⟩ := of_callOn_start h
    obtain ⟨hphase, hsame, -⟩ | ⟨hphase, rfl, -⟩ := start_cases hr
    · rw [Phase.next_start hphase, hsame]
    · rw [hphase]
      rfl
  | process row =>
    obtain ⟨-, taken, hr, rfl⟩ := of_callOn_process h
    obtain ⟨hphase, hsame, -⟩ | ⟨hphase, happly, rfl⟩ | ⟨hphase, _, e, -, rfl, rfl⟩ :=
      process_cases hr
    · rw [Phase.next_process hphase, hsame]
    · obtain ⟨-, -, -, -, -, rfl⟩ := apply_eq_ok happly
      rw [hphase]
      rfl
    · rw [hphase]
      rfl
  | flush =>
    obtain ⟨hphase, hsame, -⟩ | ⟨hphase, left, -, rfl⟩ := flush_cases h
    · rw [Phase.next_flush hphase, hsame]
    · rw [hphase]
      cases result <;> rfl
  | close =>
    obtain ⟨hphase, left, hflush, rfl⟩ | ⟨-, -, ⟨rfl, hended⟩ | ⟨hfailed, hkept, fault, rfl⟩⟩ :=
      close_cases hb h
    · rw [hphase]
      cases result with
      | ok f => rfl
      | error e =>
        obtain ⟨hne, -⟩ | ⟨-, _, -, rfl⟩ := flush_cases hflush
        · exact absurd hphase hne
        · rfl
    · rw [hended]
      exact (Phase.next_close hb).symm
    · rw [hfailed, hkept]
      rfl

theorem callOn_of_ne_opened (hb : b.phase ≠ .flushing) (hopened : b.phase ≠ .opened)
    (h : b.callOn sink call = (b', sink', result)) : sink' = sink := by
  cases call with
  | start => exact (of_callOn_start h).1
  | process row => exact (of_callOn_process h).1
  | flush =>
    obtain ⟨-, -, hsink, -⟩ | ⟨hphase, -⟩ := flush_cases h
    · exact hsink
    · exact absurd hphase hopened
  | close =>
    obtain ⟨hphase, -⟩ | ⟨-, hsink, -⟩ := close_cases hb h
    · exact absurd hphase hopened
    · exact hsink

theorem callOn_of_wrongPhase {action : Action} {phase : Phase} (hb : b.phase ≠ .flushing)
    (h : b.callOn sink call = (b', sink', .error (.wrongPhase action phase))) :
    b' = b ∧ sink' = sink := by
  have hflush {left : Buffer σ}
      (hf : b.flush sink = (left, sink', .error (.wrongPhase action phase))) :
      left = b ∧ sink' = sink := by
    obtain ⟨-, hsame, hsink, -⟩ | ⟨-, _, hdrain, -⟩ := flush_cases hf
    · exact ⟨hsame, hsink⟩
    · cases drain_error hdrain
  cases call with
  | start =>
    obtain ⟨hsink, started, hr, hresult⟩ := of_callOn_start h
    obtain ⟨-, hsame, -⟩ | ⟨-, -, rfl⟩ := start_cases hr
    · exact ⟨hsame, hsink⟩
    · cases hresult
  | process row =>
    obtain ⟨hsink, taken, hr, hresult⟩ := of_callOn_process h
    obtain ⟨-, hsame, -⟩ | ⟨-, -, rfl⟩ | ⟨-, _, e, happly, -, rfl⟩ := process_cases hr
    · exact ⟨hsame, hsink⟩
    · cases hresult
    · cases hresult
      obtain ⟨-, ⟨fault, he⟩ | ⟨fault, he⟩⟩ | ⟨-, fault, -, he⟩ := apply_error happly <;> cases he
  | flush => exact hflush h
  | close =>
    obtain ⟨-, left, hf, rfl⟩ | ⟨-, -, ⟨hr, -⟩ | ⟨-, -, fault, hr⟩⟩ := close_cases hb h
    · obtain ⟨rfl, hsink⟩ := hflush hf
      exact ⟨rfl, hsink⟩
    · cases hr
    · cases hr

theorem callOn_process_error (h : b.callOn sink (.process row) = (b', sink', .error e)) :
    b'.touched = b.touched ∧ b'.tally = b.tally ∧
      ((∃ fault, e = .rejected row fault) ∨ (∃ fault, e = .path fault) →
        b' = { b with phase := .failed }) := by
  obtain ⟨-, taken, hr, hresult⟩ := of_callOn_process h
  obtain ⟨-, rfl, rfl⟩ | ⟨-, -, rfl⟩ | ⟨-, _, e, happly, rfl, rfl⟩ := process_cases hr
  · cases hresult
    exact ⟨rfl, rfl, by simp⟩
  · cases hresult
  · cases hresult
    obtain ⟨rfl, -⟩ | ⟨store, fault, rfl, rfl⟩ := apply_error happly
    · exact ⟨rfl, rfl, fun _ => rfl⟩
    · exact ⟨rfl, rfl, by simp⟩

theorem erase_callOn (b : Buffer σ) (s : Recorded τ) (call : Call) :
    Prod.map id Recorded.erase (b.callOn s call) = b.callOn s.sink call := by
  cases call with
  | start => rfl
  | process row => rfl
  | flush => exact Recorded.erase_flush b s
  | close => exact Recorded.erase_close b s

end Buffer

end ChangeBuffer
