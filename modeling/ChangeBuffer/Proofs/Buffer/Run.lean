import ChangeBuffer.Proofs.Buffer.Calls
import ChangeBuffer.Proofs.Store.Room
import Mathlib.Data.List.Forall2

/-! # Runs of buffers

A run is a series of calls that all succeed, in which each flush has a log of its own.  Each row
is due at exactly one flush, the first one behind it, and a flush hands over what survives of the
rows that are due.
-/

namespace ChangeBuffer

/-- What is done with a buffer.  It is flushed on demand, in front of a checkpoint and at the end
of input. -/
inductive Call
  | start
  | process (row : Row)
  | flush
  | close

structure Delivery where
  log : RowLog
  flushed : Flushed

namespace Call

variable (window : List Row)

def row? : Call → Option Row
  | process row => some row
  | start | flush | close => none

def waiting : Call → List Row
  | start => window
  | process row => window ++ [row]
  | flush | close => []

def due : Call → List (List Row)
  | start | process _ => []
  | flush | close => [window]

/-- The windows that are due at the calls. -/
def dueAll (window : List Row) : List Call → List (List Row)
  | [] => []
  | call :: calls => call.due window ++ dueAll (call.waiting window) calls

theorem flatten_dueAll (window : List Row) (calls : List Call) :
    (dueAll window calls).flatten ++ calls.foldl waiting window =
      window ++ calls.filterMap row? := by
  induction calls generalizing window with
  | nil => simp [dueAll]
  | cons call calls ih =>
    rw [dueAll, List.flatten_append, List.append_assoc, List.foldl_cons, ih]
    cases call <;> simp [due, waiting, row?, List.filterMap_cons]

end Call

namespace Buffer

variable {σ : Type} [Store σ]

def call (b : Buffer σ) : Call → Buffer σ × Except BufferError (List Delivery)
  | .start =>
    let (b, result) := b.start
    (b, result.map fun () => [])
  | .process row =>
    let (b, result) := b.process row
    (b, result.map fun () => [])
  | .flush =>
    let (b, log, result) := b.flush RowLog.empty
    (b, result.map fun flushed => [⟨log, flushed⟩])
  | .close =>
    let (b, log, result) := b.close RowLog.empty
    (b, result.map fun flushed => [⟨log, flushed⟩])

def callAll (b : Buffer σ) : List Call → Except BufferError (Buffer σ × List Delivery)
  | [] => .ok (b, [])
  | call :: calls =>
    match b.call call with
    | (_, .error e) => .error e
    | (b, .ok deliveries) =>
      (callAll b calls).map fun (b, later) => (b, deliveries ++ later)

/-- Calls that all succeed lead from one buffer to another.  The order of the touched paths means
nothing, so in front of each call they may come in any other. -/
inductive Runs : Buffer σ → List Call → Buffer σ → List Delivery → Prop
  | nil (b : Buffer σ) : Runs b [] b []
  | cons {b b' b'' : Buffer σ} {touched : List String} {c : Call} {calls : List Call}
      {deliveries later : List Delivery} :
      b.touched.Perm touched → call { b with touched } c = (b', .ok deliveries) →
      Runs b' calls b'' later → Runs b (c :: calls) b'' (deliveries ++ later)

theorem runs_of_callAll {b b' : Buffer σ} {calls : List Call} {deliveries : List Delivery}
    (h : b.callAll calls = .ok (b', deliveries)) : b.Runs calls b' deliveries := by
  induction calls generalizing b deliveries with
  | nil =>
    obtain ⟨rfl, rfl⟩ := Prod.mk.inj (Except.ok.inj h)
    exact .nil b
  | cons c calls ih =>
    rw [callAll] at h
    split at h
    · cases h
    next next first hfirst =>
      cases hlater : next.callAll calls with
      | error e => simp [hlater, Except.map] at h
      | ok later =>
        rw [hlater] at h
        obtain ⟨rfl, rfl⟩ := Prod.mk.inj (Except.ok.inj h)
        exact .cons (.refl _) hfirst (ih hlater)

end Buffer

/-- The delivery is what has to be delivered of a window. -/
def Keying.Meets (k : Keying) (window : List Row) (d : Delivery) : Prop :=
  ∃ blocks, k.Delivers window blocks ∧ d.log = ⟨none, blocks.flatMap Block.labelled⟩ ∧
    d.flushed = ⟨blocks.length, d.log.rows.length⟩

theorem Flushed.ofBlocks_eq (blocks : List Block) :
    Flushed.ofBlocks blocks = ⟨blocks.length, (blocks.flatMap Block.labelled).length⟩ := by
  simp [Flushed.ofBlocks, List.length_flatMap, Block.labelled]

theorem Keying.Delivers.meets {k : Keying} {window : List Row} {blocks : List Block} {log : RowLog}
    {f : Flushed} (h : k.Delivers window blocks)
    (hr : LawfulSink.Received RowLog.empty log blocks) (hf : f = .ofBlocks blocks) :
    k.Meets window ⟨log, f⟩ := by
  have hlog : log = ⟨none, blocks.flatMap Block.labelled⟩ := hr
  exact ⟨blocks, h, hlog, by rw [hf, hlog, Flushed.ofBlocks_eq]⟩

theorem Keying.Meets.eq_nothing {k : Keying} {d : Delivery} (h : k.Meets [] d) :
    d = ⟨.empty, .nothing⟩ := by
  obtain ⟨log, f⟩ := d
  obtain ⟨blocks, hdelivers, hlog, hf⟩ := h
  obtain rfl := hdelivers.eq_nil
  obtain rfl : log = RowLog.empty := hlog
  obtain rfl : f = Flushed.nothing := hf
  rfl

namespace Live

variable {σ : Type} [Store σ] [LawfulStore σ] {b b' : Buffer σ} {window : List Row} {c : Call}
  {calls : List Call} {deliveries : List Delivery}

/-- A call delivers the window that is due, and the buffer tracks the rows that wait. -/
theorem call (h : Live b window) (hsized : ∀ row, c.row? = some row → row.Sized)
    (hc : b.call c = (b', .ok deliveries)) :
    Live b' (c.waiting window) ∧ b'.keying = b.keying ∧
      List.Forall₂ b.keying.Meets (c.due window) deliveries := by
  cases c with
  | start =>
    rcases hr : b.start with ⟨t, e | ⟨⟩⟩ <;> rw [Buffer.call, hr] at hc
    · cases hc
    · obtain ⟨rfl, hd⟩ := Prod.mk.inj hc
      obtain rfl := Except.ok.inj hd
      obtain ⟨hlive, hkeying⟩ := h.start hr
      exact ⟨hlive, hkeying, .nil⟩
  | process row =>
    rcases hr : b.process row with ⟨t, e | ⟨⟩⟩ <;> rw [Buffer.call, hr] at hc
    · cases hc
    · obtain ⟨rfl, hd⟩ := Prod.mk.inj hc
      obtain rfl := Except.ok.inj hd
      obtain ⟨hlive, hkeying⟩ := h.process (hsized row rfl) hr
      exact ⟨hlive, hkeying, .nil⟩
  | flush =>
    rcases hr : b.flush RowLog.empty with ⟨t, log, e | f⟩ <;> rw [Buffer.call, hr] at hc
    · cases hc
    · obtain ⟨rfl, hd⟩ := Prod.mk.inj hc
      obtain rfl := Except.ok.inj hd
      obtain ⟨blocks, hdelivers, hreceived, hf, hlive, hkeying⟩ := h.flush RowLog.received_empty hr
      exact ⟨hlive, hkeying, .cons (hdelivers.meets hreceived hf) .nil⟩
  | close =>
    rcases hr : b.close RowLog.empty with ⟨t, log, e | f⟩ <;> rw [Buffer.call, hr] at hc
    · cases hc
    · obtain ⟨rfl, hd⟩ := Prod.mk.inj hc
      obtain rfl := Except.ok.inj hd
      obtain ⟨blocks, hdelivers, hreceived, hf, hlive, hkeying⟩ := h.close RowLog.received_empty hr
      exact ⟨hlive, hkeying, .cons (hdelivers.meets hreceived hf) .nil⟩

/-- Whatever the order of the partitions, each flush delivers the window that is due. -/
theorem runs (h : Live b window) (hsized : ∀ row ∈ calls.filterMap Call.row?, row.Sized)
    (hc : b.Runs calls b' deliveries) :
    List.Forall₂ b.keying.Meets (Call.dueAll window calls) deliveries := by
  induction hc generalizing window with
  | nil => exact .nil
  | @cons b next b' touched c calls first later hperm hfirst _ ih =>
    have hreordered : Live { b with touched } window := ⟨h.reordered hperm, h.phase⟩
    obtain ⟨hlive, hkeying, hmeets⟩ := hreordered.call (fun row hrow =>
      hsized row (List.mem_filterMap.mpr ⟨c, List.mem_cons_self, hrow⟩)) hfirst
    have hrest : next.keying = b.keying := hkeying
    refine List.rel_append hmeets (hrest ▸ ih hlive fun row hrow => ?_)
    obtain ⟨call, hcall, hrow⟩ := List.mem_filterMap.mp hrow
    exact hsized row (List.mem_filterMap.mpr ⟨call, List.mem_cons_of_mem _ hcall, hrow⟩)

end Live

/-- In a run of a new buffer each row is due at one flush or still waits for one, and each flush
delivers what survives of the rows that are due: nothing if there are none. -/
theorem run_delivers {settings : Settings} {host : Host} {path : String} {store : Backend}
    {accessors : List Accessor} {key schema : Schema} {scheme : Partition.Scheme}
    {b b' : Buffer Backend} {calls : List Call} {deliveries : List Delivery}
    (hs : Backend.create settings host path = .ok store)
    (hb : Buffer.create accessors key schema scheme store = .ok b)
    (hsized : ∀ row ∈ calls.filterMap Call.row?, row.Sized)
    (hc : b.callAll calls = .ok (b', deliveries)) :
    List.Forall₂ b.keying.Meets (Call.dueAll [] calls) deliveries ∧
      (Call.dueAll [] calls).flatten ++ calls.foldl Call.waiting [] =
        calls.filterMap Call.row? ∧
      List.Forall₂ (fun window d => window = [] → d = ⟨.empty, .nothing⟩) (Call.dueAll [] calls)
        deliveries := by
  have hmeets := (Live.create (Backend.Holds.create hs) hb).runs hsized (Buffer.runs_of_callAll hc)
  refine ⟨hmeets, Call.flatten_dueAll [] calls, hmeets.imp fun window d hd hw => ?_⟩
  subst hw
  exact hd.eq_nothing

theorem run_delivers_of_withdrawal :
    ∃ (store : Backend) (b b' : Buffer Backend) (calls : List Call) (deliveries : List Delivery),
      Backend.create ⟨.disk, ⟨"/tmp", 999, 2, 1⟩, 8⟩ Host.plain "/tmp/store" = .ok store ∧
      Buffer.create [⟨0, .long⟩] ⟨[⟨1, "id", .long, true⟩]⟩ ⟨[⟨1, "id", .long, true⟩]⟩ ⟨⟨[]⟩, []⟩
        store = .ok b ∧
      calls = [.start, .process ⟨.insert, [.long 1]⟩, .process ⟨.delete, [.long 1]⟩, .flush,
        .process ⟨.updateAfter, [.long 2]⟩, .close] ∧
      (∀ row ∈ calls.filterMap Call.row?, row.Sized) ∧
      b.callAll calls = .ok (b', deliveries) ∧
      List.Forall₂ b.keying.Meets (Call.dueAll [] calls) deliveries ∧
      (Call.dueAll [] calls).flatten ++ calls.foldl Call.waiting [] =
        calls.filterMap Call.row? ∧
      List.Forall₂ (fun window d => window = [] → d = ⟨.empty, .nothing⟩) (Call.dueAll [] calls)
        deliveries := by
  have hs : Backend.create ⟨.disk, ⟨"/tmp", 999, 2, 1⟩, 8⟩ Host.plain "/tmp/store" =
      .ok (.disk ⟨⟨"/tmp", 999, 2, 1⟩, "/tmp/store", ∅, ∅, 0, [], 0, .zero⟩) := by cbv
  have hb : Buffer.create [⟨0, .long⟩] ⟨[⟨1, "id", .long, true⟩]⟩ ⟨[⟨1, "id", .long, true⟩]⟩
      ⟨⟨[]⟩, []⟩ (Backend.disk ⟨⟨"/tmp", 999, 2, 1⟩, "/tmp/store", ∅, ∅, 0, [], 0, .zero⟩) =
      .ok ⟨[⟨0, .long⟩], [0], ⟨[⟨1, "id", .long, true⟩]⟩, ⟨⟨[]⟩, []⟩,
        .disk ⟨⟨"/tmp", 999, 2, 1⟩, "/tmp/store", ∅, ∅, 0, [], 0, .zero⟩, [], .created, .zero⟩ := by
    cbv
  obtain ⟨⟨b', deliveries⟩, hc⟩ : ∃ result, Buffer.callAll (σ := Backend)
      ⟨[⟨0, .long⟩], [0], ⟨[⟨1, "id", .long, true⟩]⟩, ⟨⟨[]⟩, []⟩,
        .disk ⟨⟨"/tmp", 999, 2, 1⟩, "/tmp/store", ∅, ∅, 0, [], 0, .zero⟩, [], .created, .zero⟩
      [.start, .process ⟨.insert, [.long 1]⟩, .process ⟨.delete, [.long 1]⟩, .flush,
        .process ⟨.updateAfter, [.long 2]⟩, .close] = .ok result := ⟨_, by cbv⟩
  have hsized : ∀ row ∈ [Row.mk .insert [.long 1], ⟨.delete, [.long 1]⟩,
      ⟨.updateAfter, [.long 2]⟩], row.Sized := by decide
  exact ⟨_, _, b', _, deliveries, hs, hb, rfl, hsized, hc, run_delivers hs hb hsized hc⟩

end ChangeBuffer
