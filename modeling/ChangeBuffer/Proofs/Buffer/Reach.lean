import ChangeBuffer.Proofs.Buffer.Phases
import ChangeBuffer.Proofs.Store.Recovery

/-! # States of buffers

The states that calls lead a buffer to, whether they go well or fail, while the files of its store
may be disturbed from outside.  What a call can do to the store and the touched paths is said once,
and what holds of every state follows from it.
-/

namespace ChangeBuffer

def Call.Sized (call : Call) : Prop := ∀ row, call.row? = some row → row.Sized

def Call.flushes : Call → Bool
  | flush | close => true
  | start | process _ => false

namespace Backend

def inFolder (folder : Folder) : Backend → Backend
  | memory s => memory s
  | disk s => disk (s.inFolder folder)

/-- The files of the backend `s` have been damaged, removed or blocked, and `t` is left. -/
def Disturbed (s t : Backend) : Prop := ∃ folder, t = s.inFolder folder

theorem create_plain :
    create ⟨.disk, ⟨"/tmp", 1, 3, 1⟩, 8⟩ Host.plain "/tmp/store" =
      .ok (.disk ⟨⟨"/tmp", 1, 3, 1⟩, "/tmp/store", ∅, ∅, 0, [], 0, .zero⟩) := by cbv

end Backend

namespace Buffer

theorem create_of_numbers {σ : Type} (store : σ) :
    create [⟨0, .long⟩] ⟨[⟨1, "id", .long, true⟩]⟩ ⟨[⟨1, "id", .long, true⟩]⟩ ⟨⟨[]⟩, []⟩ store =
      .ok ⟨[⟨0, .long⟩], [0], ⟨[⟨1, "id", .long, true⟩]⟩, ⟨⟨[]⟩, []⟩, store, [], .created,
        .zero⟩ := by
  cbv

variable {σ τ : Type} [Store σ] [Sink τ] {b b' first : Buffer σ} {sink sink' : τ} {call : Call}
  {result : Except BufferError Flushed} {may : Call → Prop} {others : σ → σ → Prop}

/-- Calls for which `may` holds lead from a buffer to others, with any sinks, and in between
`others` may be done to the store.  The order of the touched paths means nothing. -/
inductive Reached (may : Call → Prop) (others : σ → σ → Prop) (first : Buffer σ) : Buffer σ → Prop
  | start : Reached may others first first
  | called {τ : Type} [Sink τ] {b b' : Buffer σ} {call : Call} {sink sink' : τ}
      {result : Except BufferError Flushed} :
      Reached may others first b → may call → b.callOn sink call = (b', sink', result) →
      Reached may others first b'
  | disturbed {b : Buffer σ} {store : σ} :
      Reached may others first b → others b.store store → Reached may others first { b with store }
  | reordered {b : Buffer σ} {touched : List String} :
      Reached may others first b → b.touched.Perm touched →
      Reached may others first { b with touched }

inductive Outcome (b : Buffer σ) (call : Call) : Buffer σ → Except BufferError Flushed → Prop
  | takes {row : Row} {path : String} {key : Bytes} {store : σ} :
      call = .process row → b.fault? row = none → b.locate row = .ok (path, key) →
      (if row.change.adds then Store.put b.store key row else Store.remove b.store key) =
        (store, .ok ()) →
      Outcome b call { b with store, touched := b.touch path, tally := b.tally.event row.change }
        (.ok .nothing)
  | loses {row : Row} {e : BufferError} (store : σ) :
      call = .process row → Outcome b call { b with store, phase := .failed } (.error e)
  | flushes {τ : Type} [Sink τ] {sink sink' : τ} {f : Flushed} {store : σ} {phase : Phase} :
      call.flushes → b.phase = .opened → b.touched ≠ [] →
      emit b.store sink b.touched = (sink', .ok f) → Store.clear b.store = (store, .ok ()) →
      Outcome b call { b with store, touched := [], tally := b.tally.flush f, phase } (.ok f)
  | idles {phase : Phase} :
      call.flushes → b.phase = .opened → b.touched = [] →
      Outcome b call { b with phase } (.ok .nothing)
  | abandons {store : σ} :
      call.row? = none → b.phase.isOver → Store.clear b.store = (store, .ok ()) →
      Outcome b call { b with store, touched := [], phase := .terminated } (.ok .nothing)
  | clearsPartly {store : σ} {e : StoreError} {touched : List String} {phase : Phase} :
      Store.clear b.store = (store, .error e) → touched = b.touched ∨ touched = [] →
      phase.isOver → Outcome b call { b with store, touched, phase } (.error (.store e))
  | passes {f : Flushed} (phase : Phase) :
      call.row? = none → ¬ (b.phase = .opened ∧ call.flushes) →
      Outcome b call { b with phase } (.ok f)
  | refuses {e : BufferError} (phase : Phase) : Outcome b call { b with phase } (.error e)

/-- What a call can do to what a buffer holds. -/
inductive Effect (b : Buffer σ) (call : Call) : Buffer σ → Prop
  | none (phase : Phase) : Effect b call { b with phase }
  | takes {row : Row} {path : String} {key : Bytes} {store : σ} :
      call = .process row → b.fault? row = .none → b.locate row = .ok (path, key) →
      (if row.change.adds then Store.put b.store key row else Store.remove b.store key) =
        (store, .ok ()) →
      Effect b call
        { b with store, touched := b.touch path, tally := b.tally.event row.change }
  | loses {row : Row} (store : σ) :
      call = .process row → Effect b call { b with store, phase := .failed }
  | clears {store : σ} (tally : Tally) (phase : Phase) :
      Store.clear b.store = (store, .ok ()) →
      Effect b call { b with store, touched := [], tally, phase }
  | clearsPartly {store : σ} {e : StoreError} {touched : List String} {phase : Phase} :
      Store.clear b.store = (store, .error e) → touched = b.touched ∨ touched = [] →
      phase.isOver → Effect b call { b with store, touched, phase }

/-- A buffer is cleared once everything has been handed over, and keeps its rows otherwise. -/
theorem drain_cases (h : b.drain sink = (b', sink', result)) :
    b.touched = [] ∧ b' = b ∧ sink' = sink ∧ result = .ok .nothing ∨
      b.touched ≠ [] ∧
        ((∃ e, emit b.store sink b.touched = (sink', .error e) ∧ b' = b ∧ result = .error e) ∨
          ∃ f, emit b.store sink b.touched = (sink', .ok f) ∧
            ((∃ store, Store.clear b.store = (store, .ok ()) ∧ result = .ok f ∧
                b' = { b with store, touched := [], tally := b.tally.flush f }) ∨
              ∃ store e, Store.clear b.store = (store, .error e) ∧ result = .error (.store e) ∧
                b' = { b with store })) := by
  unfold drain at h
  split at h
  next hempty =>
    cases h
    exact .inl ⟨List.isEmpty_iff.mp hempty, rfl, rfl, rfl⟩
  next hne =>
    refine .inr ⟨fun hempty => hne (List.isEmpty_iff.mpr hempty), ?_⟩
    split at h
    next hemit =>
      cases h
      exact .inl ⟨_, hemit, rfl, rfl⟩
    next f hemit =>
      refine .inr ?_
      split at h
      next hclear =>
        cases h
        exact ⟨f, hemit, .inr ⟨_, _, hclear, rfl, rfl⟩⟩
      next hclear =>
        cases h
        exact ⟨f, hemit, .inl ⟨_, hclear, rfl, rfl⟩⟩

theorem outcome_of_flush (phase : Phase) (hcall : call.flushes)
    (h : b.flush sink = (b', sink', result))
    (hphase : b.phase = .opened → ∀ e, result = .error e → phase.isOver) :
    b.Outcome call { b' with phase } result := by
  obtain ⟨-, rfl, -, rfl⟩ | ⟨hopened, left, hdrain, rfl⟩ := flush_cases h
  · exact .refuses phase
  obtain ⟨hempty, rfl, -, rfl⟩ | ⟨hne, ⟨e, -, rfl, rfl⟩ | ⟨f, hemit, ⟨store, hclear, rfl, rfl⟩ |
    ⟨store, e, hclear, rfl, rfl⟩⟩⟩ := drain_cases hdrain
  · exact .idles hcall hopened hempty
  · exact .refuses phase
  · exact .flushes hcall hopened hne hemit hclear
  · exact .clearsPartly hclear (.inl rfl) (hphase hopened _ rfl)

theorem outcome_of_abandon {result : Except BufferError Unit} (hb : b.phase.isOver)
    (h : b.abandon = (b', result)) :
    b.Outcome .close b' (result.map fun () => .nothing) := by
  unfold abandon at h
  split at h
  next hclear =>
    cases h
    exact .clearsPartly hclear (.inr rfl) hb
  next hclear =>
    cases h
    exact .abandons rfl hb hclear

theorem outcome_callOn (hb : b.phase ≠ .flushing) (h : b.callOn sink call = (b', sink', result)) :
    b.Outcome call b' result := by
  have hphase := phase_callOn hb h
  cases call with
  | start =>
    obtain ⟨-, started, hr, rfl⟩ := of_callOn_start h
    obtain ⟨-, rfl, rfl⟩ | ⟨-, rfl, rfl⟩ := start_cases hr
    · exact .refuses b'.phase
    · exact .passes .opened rfl fun h => by cases h.2
  | process row =>
    obtain ⟨-, taken, hr, rfl⟩ := of_callOn_process h
    obtain ⟨-, rfl, rfl⟩ | ⟨-, happly, rfl⟩ | ⟨-, left, e, happly, rfl, rfl⟩ := process_cases hr
    · exact .refuses b'.phase
    · have hfault : b.fault? row = none := by
        unfold apply at happly
        split at happly
        · cases happly
        next hfault => exact hfault
      obtain ⟨path, key, store, hlocate, hstore, rfl⟩ := apply_eq_ok happly
      exact .takes rfl hfault hlocate hstore
    · obtain ⟨rfl, -⟩ | ⟨store, fault, rfl, -⟩ := apply_error happly
      · exact .refuses .failed
      · exact .loses store rfl
  | flush =>
    refine outcome_of_flush b'.phase rfl h ?_
    rintro hopened e rfl
    rw [hphase, hopened]
    rfl
  | close =>
    rw [callOn, close] at h
    split at h
    next hterminated =>
      cases h
      exact .passes b.phase rfl fun h => by simp [hterminated] at h
    next hcreated =>
      cases h
      exact .passes .terminated rfl fun h => by simp [hcreated] at h
    next hopened =>
      have hover : ∀ e, result = .error e → b'.phase.isOver := by
        rintro e rfl
        rw [hphase, hopened]
        rfl
      split at h
      next hflush =>
        cases h
        exact outcome_of_flush b'.phase rfl hflush fun _ => hover
      next hflush =>
        cases h
        exact outcome_of_flush .terminated rfl hflush fun _ => hover
    next hflushing => exact absurd hflushing hb
    next hfailed =>
      have hover : b.phase.isOver := by rw [hfailed]; rfl
      split at h
      all_goals
        next habandon =>
          cases h
          exact outcome_of_abandon hover habandon

theorem Outcome.effect (h : b.Outcome call b' result) : b.Effect call b' := by
  cases h with
  | takes hcall hfault hlocate hstore => exact .takes hcall hfault hlocate hstore
  | loses store hcall => exact .loses store hcall
  | flushes _ _ _ _ hclear => exact .clears _ _ hclear
  | abandons _ _ hclear => exact .clears _ _ hclear
  | clearsPartly hclear htouched hover => exact .clearsPartly hclear htouched hover
  | idles | passes phase | refuses phase => exact .none _

theorem effect_callOn (hb : b.phase ≠ .flushing) (h : b.callOn sink call = (b', sink', result)) :
    b.Effect call b' := (outcome_callOn hb h).effect

theorem Effect.schema_eq (h : b.Effect call b') : b'.schema = b.schema := by
  cases h <;> rfl

theorem Effect.nodup (h : b.Effect call b') (hb : b.touched.Nodup) : b'.touched.Nodup := by
  cases h with
  | none phase => exact hb
  | @takes row path key store _ _ _ _ => exact nodup_touch hb path
  | loses store => exact hb
  | clears => exact .nil
  | @clearsPartly store e touched phase _ ht _ =>
    obtain rfl | rfl := ht
    · exact hb
    · exact .nil

namespace Reached

theorem after (h : first.Reached may others b) (call : Call) (hmay : may call) (sink : τ) :
    first.Reached may others (b.callOn sink call).1 := .called h hmay rfl

theorem phase_ne (h : first.Reached may others b) (hf : first.phase ≠ .flushing) :
    b.phase ≠ .flushing := by
  induction h with
  | start => exact hf
  | called _ _ hcall ih =>
    rw [phase_callOn ih hcall]
    exact Phase.next_ne_flushing ih
  | disturbed _ _ ih => exact ih
  | reordered _ _ ih => exact ih

theorem nodup (h : first.Reached may others b) (hphase : first.phase ≠ .flushing)
    (htouched : first.touched.Nodup) : b.touched.Nodup := by
  induction h with
  | start => exact htouched
  | called hreached _ hcall ih => exact (effect_callOn (hreached.phase_ne hphase) hcall).nodup ih
  | disturbed _ _ ih => exact ih
  | reordered _ hperm ih => exact hperm.nodup ih

end Reached

end Buffer

end ChangeBuffer
