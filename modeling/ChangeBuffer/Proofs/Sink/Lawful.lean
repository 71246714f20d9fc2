import ChangeBuffer.Sink.RowLog

/-! # Sinks that keep blocks

A lawful sink receives the rows of each partition as one block, in the order in which they are
handed over.  It does not take calls in another order: what it has been asked to do hands over
blocks, one after the other.
-/

namespace ChangeBuffer

structure Block where
  path : String
  rows : List Row

def Block.labelled (b : Block) : List (String × Row) := b.rows.map (b.path, ·)

inductive SinkCall
  | enter (path : String)
  | accept (row : Row)
  | leave (path : String)
  deriving DecidableEq

namespace Block

/-- The calls that hand over the rows of a block and do not leave its partition. -/
def begun (b : Block) : List SinkCall := .enter b.path :: b.rows.map .accept

def calls (b : Block) : List SinkCall := b.begun ++ [.leave b.path]

end Block

namespace Sink

variable {σ : Type} [Sink σ]

def call (s : σ) : SinkCall → σ × Except SinkError Unit
  | .enter path => enter s path
  | .accept row => accept s row
  | .leave path => leave s path

def callAll (s : σ) : List SinkCall → σ × Except SinkError Unit
  | [] => (s, .ok ())
  | c :: cs =>
    match call s c with
    | (s, .error e) => (s, .error e)
    | (s, .ok ()) => callAll s cs

theorem callAll_cons_eq_ok {s u : σ} {c : SinkCall} {cs : List SinkCall}
    (h : callAll s (c :: cs) = (u, .ok ())) :
    ∃ t, call s c = (t, .ok ()) ∧ callAll t cs = (u, .ok ()) := by
  rw [callAll] at h
  split at h
  · cases h
  next t hcall => exact ⟨t, hcall, h⟩

end Sink

/-- A sink that puts the blocks that it receives behind what it has. -/
class LawfulSink (σ : Type) [Sink σ] where
  Received (s t : σ) (blocks : List Block) : Prop
  Receiving (s t : σ) (blocks : List Block) (path : String) (rows : List Row) : Prop
  enter {s t u : σ} {blocks : List Block} {path : String} :
    Received s t blocks → Sink.enter t path = (u, .ok ()) → Receiving s u blocks path []
  accept {s t u : σ} {blocks : List Block} {path : String} {rows : List Row} {row : Row} :
    Receiving s t blocks path rows → Sink.accept t row = (u, .ok ()) →
      Receiving s u blocks path (rows ++ [row])
  leave {s t u : σ} {blocks : List Block} {path : String} {rows : List Row} :
    Receiving s t blocks path rows → Sink.leave t path = (u, .ok ()) →
      Received s u (blocks ++ [⟨path, rows⟩])
  /-- Between partitions a sink can only be told that one follows. -/
  outside {s t u : σ} {blocks : List Block} {c : SinkCall} :
    Received s t blocks → Sink.call t c = (u, .ok ()) → ∃ path, c = .enter path
  /-- Within a partition a sink takes rows and the end of this partition. -/
  within {s t u : σ} {blocks : List Block} {path : String} {rows : List Row} {c : SinkCall} :
    Receiving s t blocks path rows → Sink.call t c = (u, .ok ()) →
      (∃ row, c = .accept row) ∨ c = .leave path

namespace LawfulSink

variable {σ : Type} [Sink σ] [LawfulSink σ] {s t u : σ} {blocks : List Block} {part : Option Block}

/-- The sink `t` is `s` with the blocks and, within a partition, with the rows of a part. -/
def Holding (s t : σ) (blocks : List Block) : Option Block → Prop
  | none => Received s t blocks
  | some part => Receiving s t blocks part.path part.rows

def callsOf (blocks : List Block) (part : Option Block) : List SinkCall :=
  blocks.flatMap Block.calls ++ part.elim [] Block.begun

theorem Holding.call {c : SinkCall} (h : Holding s t blocks part)
    (hc : Sink.call t c = (u, .ok ())) :
    ∃ blocks' part', Holding s u blocks' part' ∧
      callsOf blocks' part' = callsOf blocks part ++ [c] := by
  match part with
  | none =>
    obtain ⟨path, rfl⟩ := outside h hc
    exact ⟨blocks, some ⟨path, []⟩, enter h hc, by simp [callsOf, Block.begun]⟩
  | some ⟨path, rows⟩ =>
    obtain ⟨row, rfl⟩ | rfl := within h hc
    · exact ⟨blocks, some ⟨path, rows ++ [row]⟩, accept h hc, by simp [callsOf, Block.begun]⟩
    · exact ⟨blocks ++ [Block.mk path rows], none, leave h hc, by simp [callsOf, Block.calls]⟩

/-- Calls that all go well hand over blocks. -/
theorem Holding.callAll {cs : List SinkCall} (h : Holding s t blocks part)
    (hcs : Sink.callAll t cs = (u, .ok ())) :
    ∃ blocks' part', Holding s u blocks' part' ∧
      callsOf blocks' part' = callsOf blocks part ++ cs := by
  induction cs generalizing t blocks part with
  | nil =>
    obtain rfl := (Prod.mk.inj hcs).1
    exact ⟨blocks, part, h, by simp⟩
  | cons c cs ih =>
    obtain ⟨v, hc, hcs⟩ := Sink.callAll_cons_eq_ok hcs
    obtain ⟨blocks', part', hv, hcalls⟩ := h.call hc
    obtain ⟨blocks'', part'', hu, hcalls'⟩ := ih hv hcs
    exact ⟨blocks'', part'', hu, by rw [hcalls', hcalls, List.append_assoc, List.singleton_append]⟩

end LawfulSink

instance : LawfulSink RowLog where
  Received s t blocks := t = ⟨none, s.rows ++ blocks.flatMap Block.labelled⟩
  Receiving s t blocks path rows :=
    t = ⟨some path, s.rows ++ blocks.flatMap Block.labelled ++ Block.labelled ⟨path, rows⟩⟩
  enter := by
    rintro s t u blocks path rfl h
    obtain rfl := (Prod.mk.inj h).1
    simp [Block.labelled]
  accept := by
    rintro s t u blocks path rows row rfl h
    obtain rfl := (Prod.mk.inj h).1
    simp [Block.labelled]
  leave := by
    rintro s t u blocks path rows rfl h
    obtain rfl := (Prod.mk.inj h).1
    simp [Block.labelled]
  outside := by
    rintro s t u blocks (path | row | path) rfl h
    · exact ⟨path, rfl⟩
    · cases h
    · cases h
  within := by
    rintro s t u blocks path rows (path' | row | path') rfl h
    · cases h
    · exact Or.inl ⟨row, rfl⟩
    · by_cases hpath : path' = path
      · exact Or.inr (hpath ▸ rfl)
      · rw [Sink.call, Sink.leave] at h
        simp [instSinkRowLog, RowLog.leave, Ne.symm hpath] at h

theorem RowLog.received_empty : LawfulSink.Received RowLog.empty RowLog.empty [] := rfl

end ChangeBuffer
