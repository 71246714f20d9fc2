import ChangeBuffer.Proofs.Buffer.Phases
import ChangeBuffer.Proofs.Buffer.Plan
import ChangeBuffer.Proofs.Store.Undisturbed

/-! # Requests of buffers

What a buffer asks of its store.  A store may be watched: a buffer does the same with it as without
the record, and the store that a call leaves comes of the requests that were recorded.
-/

namespace ChangeBuffer

/-- A store with what it has been asked to do to its rows so far. -/
structure Watched (σ : Type) where
  store : σ
  requests : List StoreOp

namespace Watched

variable {σ : Type}

def note (w : Watched σ) (op : StoreOp) (done : σ × Except StoreError Unit) :
    Watched σ × Except StoreError Unit := (⟨done.1, w.requests ++ [op]⟩, done.2)

instance [Store σ] : Store (Watched σ) where
  put w key row := w.note (.put key row) (Store.put w.store key row)
  remove w key := w.note (.remove key) (Store.remove w.store key)
  scan w := Store.scan w.store
  clear w := w.note .clear (Store.clear w.store)
  sizeHint w := Store.sizeHint w.store
  tally w := Store.tally w.store

variable [Store σ]

theorem put_eq (w : Watched σ) (key : Bytes) (row : Row) :
    Store.put w key row = w.note (.put key row) (Store.put w.store key row) := rfl

theorem remove_eq (w : Watched σ) (key : Bytes) :
    Store.remove w key = w.note (.remove key) (Store.remove w.store key) := rfl

theorem clear_eq (w : Watched σ) : Store.clear w = w.note .clear (Store.clear w.store) := rfl

theorem apply_eq (w : Watched σ) (op : StoreOp) : op.apply w = w.note op (op.apply w.store) := by
  cases op <;> rfl

theorem plan_eq (w : Watched σ) (paths : List String) :
    Buffer.plan w paths = Buffer.plan w.store paths := by
  induction paths with
  | nil => rfl
  | cons path paths ih =>
    have hfirst : Buffer.partitionPlan w path = Buffer.partitionPlan w.store path := rfl
    rw [Buffer.plan, Buffer.plan, hfirst, ih]

end Watched

namespace Buffer

variable {σ τ : Type}

def watched (b : Buffer σ) : Buffer (Watched σ) := { b with store := ⟨b.store, []⟩ }

def unwatched (b : Buffer (Watched σ)) : Buffer σ := { b with store := b.store.store }

theorem unwatched_phase (b : Buffer (Watched σ)) : b.unwatched.phase = b.phase := rfl

theorem unwatched_touched (b : Buffer (Watched σ)) : b.unwatched.touched = b.touched := rfl

theorem unwatched_store (b : Buffer (Watched σ)) : b.unwatched.store = b.store.store := rfl

variable [Store σ] [Sink τ]

section Erasure

variable (b : Buffer (Watched σ)) (sink : τ)

omit [Store σ] in
theorem unwatched_start : Prod.map unwatched id b.start = b.unwatched.start := by
  unfold start
  rw [unwatched_phase]
  split <;> rfl

theorem unwatched_apply (row : Row) :
    Prod.map unwatched id (b.apply row) = b.unwatched.apply row := by
  have hfault : b.unwatched.fault? row = b.fault? row := rfl
  have hlocate : b.unwatched.locate row = b.locate row := rfl
  unfold apply
  rw [hfault, hlocate]
  cases b.fault? row with
  | some fault => rfl
  | none =>
    rcases b.locate row with e | ⟨path, key⟩
    · rfl
    simp only [Watched.put_eq, Watched.remove_eq, Watched.note, unwatched]
    by_cases hadds : row.change.adds
    · simp only [hadds, if_true]
      rcases Store.put b.store.store key row with ⟨store, e | ⟨⟩⟩ <;> rfl
    · simp only [hadds]
      rcases Store.remove b.store.store key with ⟨store, e | ⟨⟩⟩ <;> rfl

theorem unwatched_drain : Prod.map unwatched id (b.drain sink) = b.unwatched.drain sink := by
  unfold drain
  rw [unwatched_touched, unwatched_store, emit_eq_carryOut, emit_eq_carryOut, Watched.plan_eq]
  split
  · rfl
  · rcases (plan b.store.store b.touched).carryOut sink with ⟨filled, e | f⟩
    · rfl
    · simp only [Watched.clear_eq, Watched.note]
      rcases Store.clear b.store.store with ⟨store, e | ⟨⟩⟩ <;> rfl

theorem unwatched_process (row : Row) :
    Prod.map unwatched id (b.process row) = b.unwatched.process row := by
  unfold process
  rw [← unwatched_apply, unwatched_phase]
  split
  · rcases b.apply row with ⟨taken, e | ⟨⟩⟩ <;> rfl
  · rfl

theorem unwatched_flush : Prod.map unwatched id (b.flush sink) = b.unwatched.flush sink := by
  have hdrain := unwatched_drain { b with phase := .flushing } sink
  unfold flush
  rw [show { b.unwatched with phase := .flushing } =
    unwatched { b with phase := .flushing } from rfl, ← hdrain, unwatched_phase]
  split
  · rcases drain { b with phase := .flushing } sink with ⟨left, filled, e | f⟩ <;> rfl
  · rfl

theorem unwatched_abandon : Prod.map unwatched id b.abandon = b.unwatched.abandon := by
  unfold abandon
  simp only [Watched.clear_eq, Watched.note, unwatched]
  rcases Store.clear b.store.store with ⟨store, e | ⟨⟩⟩ <;> rfl

theorem unwatched_close : Prod.map unwatched id (b.close sink) = b.unwatched.close sink := by
  unfold close
  rw [← unwatched_flush, ← unwatched_abandon, unwatched_phase]
  split
  · rfl
  · rfl
  · rcases b.flush sink with ⟨left, filled, e | f⟩ <;> rfl
  all_goals rcases b.abandon with ⟨left, e | ⟨⟩⟩ <;> rfl

/-- The record of the store has no part in a call. -/
theorem unwatched_callOn (call : Call) :
    Prod.map unwatched id (b.callOn sink call) = b.unwatched.callOn sink call := by
  cases call with
  | start =>
    rw [callOn, callOn, ← unwatched_start]
    rfl
  | process row =>
    rw [callOn, callOn, ← unwatched_process]
    rfl
  | flush => exact unwatched_flush b sink
  | close => exact unwatched_close b sink

end Erasure

section Invariance

variable {P : σ → Prop} {b : Buffer σ} (hP : ∀ (op : StoreOp) (s : σ), P s → P (op.apply s).1)

omit [Store σ] in
theorem store_start (h : P b.store) : P b.start.1.store := by
  unfold start
  split <;> exact h

include hP

theorem store_apply (h : P b.store) (row : Row) : P (b.apply row).1.store := by
  unfold apply
  split
  · exact h
  split
  · exact h
  next path key _ =>
    have hstored : P (if row.change.adds then Store.put b.store key row
        else Store.remove b.store key).1 := by
      split
      · exact hP (.put key row) _ h
      · exact hP (.remove key) _ h
    simp only
    split
    all_goals
      next heq =>
        rw [heq] at hstored
        exact hstored

theorem store_drain (h : P b.store) (sink : τ) : P (b.drain sink).1.store := by
  have hclear : P (Store.clear b.store).1 := hP .clear _ h
  unfold drain
  split
  · exact h
  split
  · exact h
  split
  all_goals
    next heq =>
      rw [heq] at hclear
      exact hclear

theorem store_process (h : P b.store) (row : Row) : P (b.process row).1.store := by
  have happly := store_apply hP h row
  unfold process
  split
  · split
    all_goals
      next heq =>
        rw [heq] at happly
        exact happly
  · exact h

theorem store_flush (h : P b.store) (sink : τ) : P (b.flush sink).1.store := by
  have hdrain := store_drain hP (b := { b with phase := .flushing }) h sink
  unfold flush
  split
  · split
    all_goals
      next heq =>
        rw [heq] at hdrain
        exact hdrain
  · exact h

theorem store_close (h : P b.store) (sink : τ) : P (b.close sink).1.store := by
  have hflush := store_flush hP h sink
  have hclear : P (Store.clear b.store).1 := hP .clear _ h
  unfold close
  split
  · exact h
  · exact h
  · split
    all_goals
      next heq =>
        rw [heq] at hflush
        exact hflush
  all_goals
    rw [abandon]
    rcases hstore : Store.clear b.store with ⟨store, e | ⟨⟩⟩
    all_goals
      rw [hstore] at hclear
      exact hclear

theorem store_callOn (h : P b.store) (sink : τ) (call : Call) :
    P (b.callOn sink call).1.store := by
  cases call with
  | start => exact store_start h
  | process row => exact store_process hP h row
  | flush => exact store_flush hP h sink
  | close => exact store_close hP h sink

end Invariance

/-- What a call asks of the store. -/
def requests (b : Buffer σ) (sink : τ) (call : Call) : List StoreOp :=
  (b.watched.callOn sink call).1.store.requests

/-- The store that a call leaves comes of what the call has asked of it. -/
theorem store_callOn_eq (b : Buffer σ) (sink : τ) (call : Call) :
    (b.callOn sink call).1.store = Store.performAll b.store (b.requests sink call) := by
  have hwatched : (b.watched.callOn sink call).1.store.store =
      Store.performAll b.store (b.watched.callOn sink call).1.store.requests := by
    refine store_callOn (P := fun w : Watched σ => w.store = Store.performAll b.store w.requests) ?_
      rfl sink call
    intro op w hw
    rw [Watched.apply_eq, Watched.note, Store.performAll_append]
    exact congrArg (fun s => (op.apply s).1) hw
  have herased := congrArg (·.1.store) (unwatched_callOn b.watched sink call)
  exact herased.symm.trans hwatched

end Buffer

end ChangeBuffer
