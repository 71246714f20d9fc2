import ChangeBuffer.Buffer.Basic
import ChangeBuffer.Proofs.Sink.Lawful

/-! # Emission

What becomes of a sink that rows are handed to, for any store and any sink.  An emission fails only
if the store or the sink fails, and one that goes well ends with the end of a partition.  A sink may
be recorded: a buffer does the same with it as without the record.
-/

namespace ChangeBuffer

/-- Whether the store or the sink is to blame. -/
def BufferError.isOutside : BufferError → Bool
  | store _ | downstream _ => true
  | path _ | rejected _ _ | wrongPhase _ _ => false

namespace Buffer

variable {σ τ : Type} [Store σ] [Sink τ] {store : σ} {b b' : Buffer σ} {sink sink' : τ}
  {e : BufferError}

theorem handOver_error {items : List (Except StoreError (Bytes × Row))}
    (h : handOver sink items = (sink', .error e)) : e.isOutside := by
  induction items generalizing sink with
  | nil => cases h
  | cons item items ih =>
    rcases item with fault | ⟨key, row⟩
    · cases h
      rfl
    · rw [handOver] at h
      split at h
      · cases h
        rfl
      · split at h
        next hrest =>
          cases h
          exact ih hrest
        · cases h

theorem emitPartition_error {store : σ} {path : String}
    (h : emitPartition store sink path = (sink', .error e)) : e.isOutside := by
  unfold emitPartition at h
  split at h
  · cases h
    rfl
  · split at h
    · cases h
      rfl
    · split at h
      next hgiven =>
        cases h
        exact handOver_error hgiven
      · split at h
        · cases h
          rfl
        · cases h

theorem emit_error {store : σ} {paths : List String}
    (h : emit store sink paths = (sink', .error e)) : e.isOutside := by
  induction paths generalizing sink with
  | nil => cases h
  | cons path paths ih =>
    rw [emit] at h
    split at h
    next hfirst =>
      cases h
      exact emitPartition_error hfirst
    · split at h
      next hrest =>
        cases h
        exact ih hrest
      · cases h

theorem drain_error (h : b.drain sink = (b', sink', .error e)) : e.isOutside := by
  unfold drain at h
  split at h
  · cases h
  · split at h
    next hemit =>
      cases h
      exact emit_error hemit
    · split at h
      · cases h
        rfl
      · cases h

theorem emitPartition_leaves {path : String} {n : Nat}
    (h : emitPartition store sink path = (sink', .ok n)) :
    ∃ filled, Sink.leave filled path = (sink', .ok ()) := by
  unfold emitPartition at h
  split at h
  · cases h
  · split at h
    · cases h
    · split at h
      · cases h
      next filled _ _ =>
        split at h
        · cases h
        next hleave =>
          cases h
          exact ⟨filled, hleave⟩

theorem emit_leaves {paths : List String} {f : Flushed}
    (h : emit store sink paths = (sink', .ok f)) :
    sink' = sink ∨ ∃ filled path, Sink.leave filled path = (sink', .ok ()) := by
  induction paths generalizing sink f with
  | nil =>
    cases h
    exact Or.inl rfl
  | cons path paths ih =>
    rw [emit] at h
    split at h
    · cases h
    next hfirst =>
      split at h
      · cases h
      next hrest =>
        cases h
        obtain rfl | hleft := ih hrest
        · obtain ⟨filled, hleave⟩ := emitPartition_leaves hfirst
          exact Or.inr ⟨filled, path, hleave⟩
        · exact Or.inr hleft

theorem drain_leaves {f : Flushed} (h : b.drain sink = (b', sink', .ok f)) :
    sink' = sink ∨ ∃ filled path, Sink.leave filled path = (sink', .ok ()) := by
  unfold drain at h
  split at h
  · cases h
    exact Or.inl rfl
  · split at h
    · cases h
    next hemit =>
      split at h
      · cases h
      · cases h
        exact emit_leaves hemit

end Buffer

/-- A sink with what it has been asked to do so far. -/
structure Recorded (τ : Type) where
  sink : τ
  calls : List SinkCall

namespace Recorded

variable {σ τ α : Type}

def note (s : Recorded τ) (call : SinkCall) (done : τ × Except SinkError Unit) :
    Recorded τ × Except SinkError Unit := (⟨done.1, s.calls ++ [call]⟩, done.2)

instance [Sink τ] : Sink (Recorded τ) where
  enter s path := s.note (.enter path) (Sink.enter s.sink path)
  accept s row := s.note (.accept row) (Sink.accept s.sink row)
  leave s path := s.note (.leave path) (Sink.leave s.sink path)

def erase (r : Recorded τ × α) : τ × α := (r.1.sink, r.2)

@[simp] theorem erase_mk (s : Recorded τ) (result : α) : erase (s, result) = (s.sink, result) := rfl

variable [Store σ] [Sink τ] (store : σ)

theorem enter_eq (s : Recorded τ) (path : String) :
    Sink.enter s path = s.note (.enter path) (Sink.enter s.sink path) := rfl

theorem accept_eq (s : Recorded τ) (row : Row) :
    Sink.accept s row = s.note (.accept row) (Sink.accept s.sink row) := rfl

theorem leave_eq (s : Recorded τ) (path : String) :
    Sink.leave s path = s.note (.leave path) (Sink.leave s.sink path) := rfl

theorem erase_handOver (s : Recorded τ) (items : List (Except StoreError (Bytes × Row))) :
    erase (Buffer.handOver s items) = Buffer.handOver s.sink items := by
  induction items generalizing s with
  | nil => rfl
  | cons item items ih =>
    rcases item with e | ⟨key, row⟩
    · rfl
    · rcases haccept : Sink.accept s.sink row with ⟨next, e | ⟨⟩⟩
      · simp [Buffer.handOver, accept_eq, note, haccept]
      · have hlater := ih ⟨next, s.calls ++ [.accept row]⟩
        rcases hrest : Buffer.handOver (Recorded.mk next (s.calls ++ [.accept row])) items with
          ⟨last, e | n⟩
        all_goals
          rw [hrest, erase_mk] at hlater
          simp [Buffer.handOver, accept_eq, note, haccept, hrest, ← hlater]

theorem erase_emitPartition (s : Recorded τ) (path : String) :
    erase (Buffer.emitPartition store s path) = Buffer.emitPartition store s.sink path := by
  rcases henter : Sink.enter s.sink path with ⟨entered, e | ⟨⟩⟩
  · simp [Buffer.emitPartition, enter_eq, note, henter]
  · rcases hrows : Buffer.partitionRows store path with e | items
    · simp [Buffer.emitPartition, enter_eq, note, henter, hrows]
    · have hfilled := erase_handOver ⟨entered, s.calls ++ [.enter path]⟩ items
      rcases hgiven : Buffer.handOver (Recorded.mk entered (s.calls ++ [.enter path])) items with
        ⟨filled, e | n⟩
      all_goals rw [hgiven, erase_mk] at hfilled
      · simp [Buffer.emitPartition, enter_eq, note, henter, hrows, hgiven, ← hfilled]
      · rcases hleave : Sink.leave filled.sink path with ⟨left, e | ⟨⟩⟩
        all_goals
          simp [Buffer.emitPartition, enter_eq, leave_eq, note, henter, hrows, hgiven, ← hfilled,
            hleave]

theorem erase_emit (s : Recorded τ) (paths : List String) :
    erase (Buffer.emit store s paths) = Buffer.emit store s.sink paths := by
  induction paths generalizing s with
  | nil => rfl
  | cons path paths ih =>
    have hfirst := erase_emitPartition store s path
    rcases hnext : Buffer.emitPartition store s path with ⟨next, e | n⟩
    all_goals rw [hnext, erase_mk] at hfirst
    · simp [Buffer.emit, hnext, ← hfirst]
    · have hlater := ih next
      rcases hrest : Buffer.emit store next paths with ⟨last, e | f⟩
      all_goals
        rw [hrest, erase_mk] at hlater
        simp [Buffer.emit, hnext, hrest, ← hfirst, ← hlater]

variable (b : Buffer σ) (s : Recorded τ)

theorem erase_drain : Prod.map id erase (b.drain s) = b.drain s.sink := by
  unfold Buffer.drain
  split
  · rfl
  · have hfilled := erase_emit b.store s b.touched
    rcases hemit : Buffer.emit b.store s b.touched with ⟨filled, e | f⟩
    all_goals rw [hemit, erase_mk] at hfilled
    · simp [← hfilled]
    · rcases hclear : Store.clear b.store with ⟨store, e | ⟨⟩⟩ <;> simp [← hfilled]

theorem erase_flush : Prod.map id erase (b.flush s) = b.flush s.sink := by
  unfold Buffer.flush
  split
  · rw [← erase_drain]
    rcases Buffer.drain { b with phase := .flushing } s with ⟨left, filled, e | f⟩ <;> rfl
  · rfl

theorem erase_close : Prod.map id erase (b.close s) = b.close s.sink := by
  unfold Buffer.close
  rw [← erase_flush]
  split
  · rfl
  · rfl
  · rcases b.flush s with ⟨left, filled, e | f⟩ <;> rfl
  all_goals rcases b.abandon with ⟨left, e | ⟨⟩⟩ <;> rfl

end Recorded

end ChangeBuffer
