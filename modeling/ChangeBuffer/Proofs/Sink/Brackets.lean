import ChangeBuffer.Proofs.Sink.Lawful
import ChangeBuffer.Sink.BatchBuilder

/-! # Sinks that know their partition

A sink that knows which partition it is receiving refuses the calls that do not belong there.  Calls
that hand over blocks always do, so whatever else it has against them, it does not find any of them
misplaced.
-/

namespace ChangeBuffer

def SinkError.isMisplaced : SinkError → Bool
  | stillOpen _ _ | outside | otherOpen _ _ => true
  | rejected _ _ | batch _ | refused _ => false

namespace Sink

variable {τ : Type} [Sink τ]

theorem callAll_append (s : τ) (cs ds : List SinkCall) :
    callAll s (cs ++ ds) =
      match callAll s cs with
      | (t, .error e) => (t, .error e)
      | (t, .ok ()) => callAll t ds := by
  induction cs generalizing s with
  | nil => rfl
  | cons c cs ih =>
    rw [List.cons_append, callAll, callAll]
    rcases call s c with ⟨t, e | ⟨⟩⟩
    · rfl
    · exact ih t

theorem callAll_of_prefix {s t : τ} {cs ds : List SinkCall} {e : SinkError} (h : cs <+: ds)
    (hcs : callAll s cs = (t, .error e)) : callAll s ds = (t, .error e) := by
  obtain ⟨rest, rfl⟩ := h
  rw [callAll_append, hcs]

end Sink

/-- A sink that knows which partition it is receiving.  Where a call belongs, the sink does not find
it misplaced. -/
class BracketedSink (τ : Type) [Sink τ] where
  current : τ → Option String
  enter {s t : τ} {path : String} {result : Except SinkError Unit} :
    current s = none → Sink.enter s path = (t, result) →
      (result = .ok () → current t = some path) ∧ ∀ e, result = .error e → ¬ e.isMisplaced
  accept {s t : τ} {path : String} {row : Row} {result : Except SinkError Unit} :
    current s = some path → Sink.accept s row = (t, result) →
      (result = .ok () → current t = some path) ∧ ∀ e, result = .error e → ¬ e.isMisplaced
  leave {s t : τ} {path : String} {result : Except SinkError Unit} :
    current s = some path → Sink.leave s path = (t, result) →
      (result = .ok () → current t = none) ∧ ∀ e, result = .error e → ¬ e.isMisplaced

namespace BracketedSink

variable {τ : Type} [Sink τ] [BracketedSink τ] {s t : τ} {path : String} {rows : List Row}
  {result : Except SinkError Unit} {e : SinkError}

theorem callAll_rows (h : current s = some path)
    (hr : Sink.callAll s (rows.map .accept) = (t, result)) :
    (result = .ok () → current t = some path) ∧ ∀ e, result = .error e → ¬ e.isMisplaced := by
  induction rows generalizing s with
  | nil =>
    cases hr
    exact ⟨fun _ => h, by simp⟩
  | cons row rows ih =>
    rcases hrow : Sink.accept s row with ⟨u, e | ⟨⟩⟩ <;>
      rw [List.map_cons, Sink.callAll, Sink.call, hrow] at hr
    · cases hr
      exact ⟨by simp, (accept h hrow).2⟩
    · exact ih ((accept h hrow).1 rfl) hr

theorem callAll_block {b : Block} (h : current s = none)
    (hr : Sink.callAll s b.calls = (t, result)) :
    (result = .ok () → current t = none) ∧ ∀ e, result = .error e → ¬ e.isMisplaced := by
  rw [Block.calls, Block.begun, List.cons_append, Sink.callAll, Sink.call] at hr
  rcases henter : Sink.enter s b.path with ⟨u, e | ⟨⟩⟩ <;> rw [henter] at hr
  · cases hr
    exact ⟨by simp, (enter h henter).2⟩
  · have hu := (enter h henter).1 rfl
    simp only [Sink.callAll_append] at hr
    rcases hrows : Sink.callAll u (b.rows.map .accept) with ⟨v, e | ⟨⟩⟩ <;> simp only [hrows] at hr
    · cases hr
      exact ⟨by simp, (callAll_rows hu hrows).2⟩
    · have hv := (callAll_rows hu hrows).1 rfl
      rw [Sink.callAll, Sink.call] at hr
      rcases hleave : Sink.leave v b.path with ⟨w, e | ⟨⟩⟩ <;> rw [hleave] at hr
      all_goals
        cases hr
        exact leave hv hleave

theorem not_isMisplaced_of_blocks {blocks : List Block} (h : current s = none)
    (hr : Sink.callAll s (blocks.flatMap Block.calls) = (t, .error e)) : ¬ e.isMisplaced := by
  induction blocks generalizing s with
  | nil => cases hr
  | cons b blocks ih =>
    rw [List.flatMap_cons, Sink.callAll_append] at hr
    rcases hblock : Sink.callAll s b.calls with ⟨u, e' | ⟨⟩⟩ <;> simp only [hblock] at hr
    · cases hr
      exact (callAll_block h hblock).2 _ rfl
    · exact ih ((callAll_block h hblock).1 rfl) hr

end BracketedSink

instance : BracketedSink RowLog where
  current := RowLog.current
  enter := by
    rintro ⟨current, rows⟩ t path result rfl h
    cases h
    exact ⟨fun _ => rfl, by simp⟩
  accept := by
    rintro ⟨current, rows⟩ t path row result rfl h
    cases h
    exact ⟨fun _ => rfl, by simp⟩
  leave := by
    rintro ⟨current, rows⟩ t path result rfl h
    obtain ⟨rfl, rfl⟩ := Prod.mk.inj h
    exact ⟨fun _ => rfl, by simp⟩

/-- A log refuses nothing but misplaced calls. -/
theorem RowLog.isMisplaced_of_callAll {l t : RowLog} {calls : List SinkCall} {e : SinkError}
    (h : Sink.callAll l calls = (t, .error e)) : e.isMisplaced := by
  induction calls generalizing l with
  | nil => cases h
  | cons c calls ih =>
    have hcall {u : RowLog} {e : SinkError} (hc : Sink.call l c = (u, .error e)) :
        e.isMisplaced := by
      obtain ⟨current, rows⟩ := l
      rcases c with path | row | path
      · cases current <;> cases hc
        rfl
      · cases current <;> cases hc
        rfl
      · simp only [Sink.call, Sink.leave, RowLog.leave] at hc
        split at hc <;> cases hc
        rfl
    rw [Sink.callAll] at h
    split at h
    next hc =>
      cases h
      exact hcall hc
    next => exact ih h

namespace BatchBuilder

variable {b t : BatchBuilder} {path : String} {row : Row} {result : Except SinkError Unit}

theorem sealPending_cases (h : b.sealPending path = (t, result)) :
    t.current = b.current ∧ (result = .ok () ∨ ∃ fault, result = .error (.batch fault)) := by
  unfold sealPending at h
  split at h
  · cases h
    exact ⟨rfl, .inl rfl⟩
  · split at h
    · cases h
      exact ⟨rfl, .inr ⟨_, rfl⟩⟩
    · cases h
      exact ⟨rfl, .inl rfl⟩

theorem sealPending_bracketed (h : b.sealPending path = (t, result)) :
    (result = .ok () → t.current = b.current) ∧ ∀ e, result = .error e → ¬ e.isMisplaced := by
  obtain ⟨hcurrent, rfl | ⟨fault, rfl⟩⟩ := sealPending_cases h
  · exact ⟨fun _ => hcurrent, by simp⟩
  · exact ⟨by simp, by simp [SinkError.isMisplaced]⟩

end BatchBuilder

instance : BracketedSink BatchBuilder where
  current := BatchBuilder.current
  enter := by
    rintro s t path result hs h
    simp only [Sink.enter, BatchBuilder.enter, hs] at h
    cases h
    exact ⟨fun _ => rfl, by simp⟩
  accept := by
    rintro s t path row result hs h
    simp only [Sink.accept, BatchBuilder.accept, hs] at h
    split at h
    · cases h
      exact ⟨by simp, by simp [SinkError.isMisplaced]⟩
    · split at h
      · exact BatchBuilder.sealPending_bracketed h
      · cases h
        exact ⟨fun _ => rfl, by simp⟩
  leave := by
    rintro s t path result hs h
    simp only [Sink.leave, BatchBuilder.leave, hs, if_true] at h
    split at h
    next hsealed =>
      cases h
      exact ⟨by simp, (BatchBuilder.sealPending_bracketed hsealed).2⟩
    next hsealed =>
      cases h
      exact ⟨fun _ => rfl, by simp⟩

end ChangeBuffer
