import ChangeBuffer.Proofs.Buffer.Calls
import ChangeBuffer.Proofs.Sink.Batches
import ChangeBuffer.Proofs.Store.Lawful
import ChangeBuffer.Proofs.Store.Room
import ChangeBuffer.Stream.Basic

/-! # Answers of streams

Between messages a stream holds the rows since the last barrier or end of input, and no batch.  A
barrier, the end of input and the end of the stream release what survives of these rows, and a
batch that comes in leaves everything as it is.
-/

namespace ChangeBuffer

theorem Settings.maxBatchRows_pos {default settings : Settings} {job : List (String × Json)}
    (h : ofJob default job = .ok settings) : 0 < settings.maxBatchRows := by
  refine Nat.pos_of_ne_zero fun hzero => ?_
  simp only [ofJob] at h
  split at h
  · cases h
  next settings' hread =>
    split at h
    · cases h
    next hfault =>
      obtain rfl := Except.ok.inj h
      simp [fault?, hzero] at hfault

structure BatchBuilder.Idle (b : BatchBuilder) (maxRows : Nat) : Prop where
  current : b.current = none
  pending : b.pending = []
  batches : b.batches = []
  maxRows : b.maxRows = maxRows

namespace BatchBuilder

variable {b c : BatchBuilder} {maxRows : Nat} {blocks : List Block}

theorem Idle.create (schema : Schema) (h : 0 < maxRows) : (create schema maxRows).Idle maxRows :=
  ⟨rfl, rfl, rfl, Nat.max_eq_left h⟩

theorem Idle.received (h : b.Idle maxRows) : LawfulSink.Received b b [] :=
  Received.refl h.current h.pending

theorem Idle.take (h : b.Idle maxRows) (hr : LawfulSink.Received b c blocks) :
    c.take.1.Idle maxRows ∧ PacksAll maxRows blocks c.take.2 := by
  obtain ⟨groups, rfl, hall⟩ := hr
  have hpacks := PacksAll.of_fills hall b.maxRows_pos
  rw [h.maxRows] at hpacks
  exact ⟨⟨rfl, rfl, rfl, h.maxRows⟩, by simpa [BatchBuilder.take, h.batches] using hpacks⟩

end BatchBuilder

/-- The batches hold what has to be delivered of a window. -/
def Keying.Releases (k : Keying) (maxRows : Nat) (window : List Row) (batches : List Batch) :
    Prop :=
  ∃ blocks, k.Delivers window blocks ∧ PacksAll maxRows blocks batches

namespace Message

variable (k : Keying) (maxRows : Nat) (window : List Row)

def isBatch : Message → Bool
  | batch _ => true
  | event _ | barrier _ | endOfInput => false

theorem exists_eq_batch {message : Message} (h : message.isBatch) : ∃ b, message = .batch b := by
  cases message with
  | batch b => exact ⟨b, rfl⟩
  | event | barrier | endOfInput => cases h

def flushes : Message → Bool
  | barrier _ | endOfInput => true
  | event _ | batch _ => false

def waiting : Message → List Row
  | event row => window ++ [row]
  | batch _ => window
  | barrier _ | endOfInput => []

/-- The answer is the one to a message in front of which the rows of the window wait. -/
def Answered (answer : Except StreamError (List Message)) : Message → Prop
  | event _ => answer = .ok []
  | batch b => answer = .error (.unexpectedBatch b.path)
  | message => ∃ batches, k.Releases maxRows window batches ∧
      answer = .ok (batches.map .batch ++ [message])

end Message

inductive Answers (k : Keying) (maxRows : Nat) :
    List Row → List (Message × Except StreamError (List Message)) → Prop
  | nil {window} : Answers k maxRows window []
  | cons {window message answer exchanges} :
    message.Answered k maxRows window answer →
    Answers k maxRows (message.waiting window) exchanges →
    Answers k maxRows window ((message, answer) :: exchanges)

namespace Stream

def processAll (s : Stream) :
    List Message → Stream × List (Message × Except StreamError (List Message))
  | [] => (s, [])
  | message :: messages =>
    let (s, answer) := s.process message
    let (s, exchanges) := processAll s messages
    (s, (message, answer) :: exchanges)

/-- A stream that runs, of whose buffer the window is tracked. -/
def Holds (s : Stream) (k : Keying) (maxRows : Nat) (window : List Row) : Prop :=
  ∃ buffer builder, s.state = .running buffer builder ∧ Live buffer window ∧
    buffer.keying = k ∧ builder.Idle maxRows

variable {s t u : Stream} {k : Keying} {maxRows : Nat} {window : List Row} {message : Message}
  {messages : List Message} {answer : Except StreamError (List Message)} {out : List Message}

theorem start_eq_ok {accessors : List Accessor} {key schema : Schema} {scheme : Partition.Scheme}
    {task : Task} {path : String}
    (h : (create accessors key schema scheme).start task path = (s, .ok ())) :
    ∃ settings store fresh buffer, task.settings = .ok settings ∧
      Backend.create settings task.host path = .ok store ∧
      Buffer.create accessors key schema scheme store = .ok fresh ∧
      fresh.start = (buffer, .ok ()) ∧
      s.state = .running buffer (.create schema settings.maxBatchRows) := by
  unfold Stream.start at h
  simp only [create] at h
  split at h
  · cases h
  next buffer builder hassemble =>
    obtain rfl := (Prod.mk.inj h).1
    unfold assemble at hassemble
    split at hassemble
    · cases hassemble
    next settings hsettings =>
      split at hassemble
      · cases hassemble
      next store hstore =>
        split at hassemble
        · cases hassemble
        next fresh hfresh =>
          split at hassemble
          · cases hassemble
          next opened hopened =>
            obtain ⟨rfl, rfl⟩ := Prod.mk.inj (Except.ok.inj hassemble)
            exact ⟨settings, store, fresh, _, hsettings, hstore, hfresh, hopened, rfl⟩

theorem Holds.start {accessors : List Accessor} {key schema : Schema} {scheme : Partition.Scheme}
    {task : Task} {path : String}
    (h : (create accessors key schema scheme).start task path = (s, .ok ())) :
    ∃ settings places, task.settings = .ok settings ∧
      KeyColumns.resolve key schema accessors.length = .ok places ∧
      s.Holds ⟨accessors, places, scheme⟩ settings.maxBatchRows [] := by
  obtain ⟨settings, store, fresh, buffer, hsettings, hstore, hfresh, hopened, hstate⟩ :=
    start_eq_ok h
  obtain ⟨hlive, hkeying⟩ := (Live.create (Backend.Holds.create hstore) hfresh).start hopened
  obtain ⟨places, hplaces, rfl⟩ := Buffer.create_eq_ok hfresh
  exact ⟨settings, places, hsettings, hplaces, _, _, hstate, hlive, hkeying,
    .create schema (Settings.maxBatchRows_pos hsettings)⟩

variable {buffer left : Buffer Backend} {builder filled : BatchBuilder}
  {flushed : Except BufferError Flushed}

/-- What goes out after a flush that delivers the window. -/
theorem Holds.release {tail : List Message} (hidle : builder.Idle maxRows)
    (hflushed : ∀ f, flushed = .ok f → ∃ blocks, k.Delivers window blocks ∧
      LawfulSink.Received builder filled blocks ∧ f = .ofBlocks blocks ∧ Live left [] ∧
        left.keying = k)
    (h : s.release left filled flushed tail = (t, .ok out)) :
    t.Holds k maxRows [] ∧
      ∃ batches, k.Releases maxRows window batches ∧ out = batches.map .batch ++ tail := by
  cases flushed with
  | error e => cases h
  | ok f =>
    obtain ⟨blocks, hdelivers, hreceived, -, hlive, hkeying⟩ := hflushed f rfl
    obtain ⟨rfl, hout⟩ := Prod.mk.inj h
    obtain ⟨htaken, hall⟩ := hidle.take hreceived
    exact ⟨⟨_, _, rfl, hlive, hkeying, htaken⟩, _, ⟨blocks, hdelivers, hall⟩,
      (Except.ok.inj hout).symm⟩

theorem process_event (hs : s.state = .running buffer builder) {row : Row}
    {result : Except BufferError Unit} (hr : buffer.process row = (left, result)) :
    s.process (.event row) =
      ({ s with state := .running left builder },
        (result.mapError StreamError.buffer).map fun () => []) := by
  rw [process, hs]
  cases result <;> simp only [hr] <;> rfl

theorem process_of_flushes (hs : s.state = .running buffer builder) (hm : message.flushes)
    (hf : buffer.flush builder = (left, filled, flushed)) :
    s.process message = s.release left filled flushed [message] := by
  have hrelease := congrArg (fun r => s.release r.1 r.2.1 r.2.2 [message]) hf
  cases message with
  | event | batch => cases hm
  | barrier | endOfInput =>
    rw [process, hs]
    exact hrelease

theorem close_eq (hs : s.state = .running buffer builder)
    (hf : buffer.close builder = (left, filled, flushed)) :
    s.close = s.release left filled flushed [] := by
  have hrelease := congrArg (fun r => s.release r.1 r.2.1 r.2.2 []) hf
  rw [Stream.close, hs]
  exact hrelease

theorem process_batch (h : s.Holds k maxRows window) (b : Batch) :
    s.process (.batch b) = (s, .error (.unexpectedBatch b.path)) := by
  obtain ⟨buffer, builder, hs, -⟩ := h
  rw [process, hs]

theorem Holds.process (h : s.Holds k maxRows window)
    (hsized : ∀ row, message = .event row → row.Sized)
    (hok : message.isBatch ∨ ∃ out, answer = .ok out)
    (hp : s.process message = (t, answer)) :
    t.Holds k maxRows (message.waiting window) ∧ message.Answered k maxRows window answer := by
  cases message with
  | batch b =>
    obtain ⟨rfl, rfl⟩ := Prod.mk.inj ((process_batch h b).symm.trans hp)
    exact ⟨h, rfl⟩
  | event row =>
    obtain ⟨out, rfl⟩ := hok.resolve_left Bool.false_ne_true
    obtain ⟨buffer, builder, hs, hlive, hkeying, hidle⟩ := h
    rcases hrow : buffer.process row with ⟨left, e | ⟨⟩⟩
    · rw [process_event hs hrow] at hp
      cases hp
    · rw [process_event hs hrow] at hp
      obtain ⟨rfl, ha⟩ := Prod.mk.inj hp
      obtain ⟨hlive, hkept⟩ := hlive.process (hsized row rfl) hrow
      exact ⟨⟨_, _, rfl, hlive, hkept.trans hkeying, hidle⟩, ha.symm⟩
  | barrier | endOfInput =>
    obtain ⟨out, rfl⟩ := hok.resolve_left Bool.false_ne_true
    obtain ⟨buffer, builder, hs, hlive, rfl, hidle⟩ := h
    rcases hflush : buffer.flush builder with ⟨left, filled, flushed⟩
    rw [process_of_flushes hs rfl hflush] at hp
    obtain ⟨ht, batches, hreleases, rfl⟩ := Holds.release hidle
      (fun f hf => hlive.flush hidle.received (hf ▸ hflush)) hp
    exact ⟨ht, batches, hreleases, rfl⟩

theorem Holds.close (h : s.Holds k maxRows window) (hc : s.close = (t, .ok out)) :
    ∃ batches, k.Releases maxRows window batches ∧ out = batches.map .batch := by
  obtain ⟨buffer, builder, hs, hlive, rfl, hidle⟩ := h
  rcases hclose : buffer.close builder with ⟨left, filled, flushed⟩
  rw [close_eq hs hclose] at hc
  obtain ⟨-, batches, hreleases, rfl⟩ := Holds.release hidle
    (fun f hf => hlive.close hidle.received (hf ▸ hclose)) hc
  exact ⟨batches, hreleases, List.append_nil _⟩

variable {exchanges : List (Message × Except StreamError (List Message))}

/-- Every answer of a stream is the one to the rows that wait, and refused batches could as well
be missing. -/
theorem Holds.processAll (h : s.Holds k maxRows window)
    (hsized : ∀ row, .event row ∈ messages → row.Sized)
    (hp : s.processAll messages = (t, exchanges))
    (hok : ∀ e ∈ exchanges, e.1.isBatch ∨ ∃ out, e.2 = .ok out) :
    t.Holds k maxRows (messages.foldl Message.waiting window) ∧
      Answers k maxRows window exchanges ∧
      s.processAll (messages.filter (!·.isBatch)) = (t, exchanges.filter (!·.1.isBatch)) := by
  induction messages generalizing s window exchanges with
  | nil =>
    obtain ⟨rfl, rfl⟩ := Prod.mk.inj hp
    exact ⟨h, .nil, rfl⟩
  | cons message messages ih =>
    rcases hfirst : s.process message with ⟨next, answer⟩
    rcases hlater : next.processAll messages with ⟨last, later⟩
    simp only [Stream.processAll, hfirst, hlater] at hp
    obtain ⟨rfl, rfl⟩ := Prod.mk.inj hp
    obtain ⟨hnext, hanswered⟩ := h.process
      (fun row hrow => hsized row (hrow ▸ List.mem_cons_self))
      (hok (message, answer) List.mem_cons_self) hfirst
    obtain ⟨hlast, hanswers, hfiltered⟩ := ih hnext
      (fun row hrow => hsized row (List.mem_cons_of_mem _ hrow)) hlater
      fun e hmem => hok e (List.mem_cons_of_mem _ hmem)
    refine ⟨hlast, .cons hanswered hanswers, ?_⟩
    cases hbatch : message.isBatch with
    | true =>
      obtain ⟨b, rfl⟩ := Message.exists_eq_batch hbatch
      obtain ⟨rfl, -⟩ := Prod.mk.inj ((process_batch h b).symm.trans hfirst)
      simpa [Message.isBatch] using hfiltered
    | false => simp [hbatch, Stream.processAll, hfirst, hfiltered]

end Stream

/-- A stream that was started answers every message with regard to the rows since the last barrier
or end of input, and when it ends it releases what is left.  Refused batches could as well be
missing. -/
theorem stream_answers {accessors : List Accessor} {key schema : Schema}
    {scheme : Partition.Scheme} {task : Task} {path : String} {s t u : Stream}
    {messages out : List Message} {exchanges : List (Message × Except StreamError (List Message))}
    (hs : (Stream.create accessors key schema scheme).start task path = (s, .ok ()))
    (hsized : ∀ row, .event row ∈ messages → row.Sized)
    (hp : s.processAll messages = (t, exchanges))
    (hok : ∀ e ∈ exchanges, e.1.isBatch ∨ ∃ out, e.2 = .ok out)
    (hc : t.close = (u, .ok out)) :
    ∃ settings places, task.settings = .ok settings ∧
      KeyColumns.resolve key schema accessors.length = .ok places ∧
      Answers ⟨accessors, places, scheme⟩ settings.maxBatchRows [] exchanges ∧
      (∃ batches, Keying.Releases ⟨accessors, places, scheme⟩ settings.maxBatchRows
        (messages.foldl Message.waiting []) batches ∧ out = batches.map .batch) ∧
      s.processAll (messages.filter (!·.isBatch)) = (t, exchanges.filter (!·.1.isBatch)) := by
  obtain ⟨settings, places, hsettings, hplaces, hholds⟩ := Stream.Holds.start hs
  obtain ⟨hlast, hanswers, hfiltered⟩ := hholds.processAll hsized hp hok
  exact ⟨settings, places, hsettings, hplaces, hanswers, hlast.close hc, hfiltered⟩

theorem stream_answers_of_refused_batch :
    ∃ (task : Task) (s t u : Stream) (messages out : List Message)
      (exchanges : List (Message × Except StreamError (List Message))),
      (Stream.create [⟨0, .long⟩] ⟨[⟨1, "id", .long, true⟩]⟩ ⟨[⟨1, "id", .long, true⟩]⟩
        ⟨⟨[]⟩, []⟩).start task "/tmp/store" = (s, .ok ()) ∧
      messages = [.event ⟨.insert, [.long 1]⟩, .batch ⟨"", [], []⟩, .barrier 7,
        .event ⟨.updateAfter, [.long 2]⟩] ∧
      (∀ row, .event row ∈ messages → row.Sized) ∧
      s.processAll messages = (t, exchanges) ∧
      (∀ e ∈ exchanges, e.1.isBatch ∨ ∃ out, e.2 = .ok out) ∧
      t.close = (u, .ok out) ∧
      ∃ settings places, task.settings = .ok settings ∧
        KeyColumns.resolve ⟨[⟨1, "id", .long, true⟩]⟩ ⟨[⟨1, "id", .long, true⟩]⟩ 1 = .ok places ∧
        Answers ⟨[⟨0, .long⟩], places, ⟨⟨[]⟩, []⟩⟩ settings.maxBatchRows [] exchanges ∧
        (∃ batches, Keying.Releases ⟨[⟨0, .long⟩], places, ⟨⟨[]⟩, []⟩⟩ settings.maxBatchRows
          (messages.foldl Message.waiting []) batches ∧ out = batches.map .batch) ∧
        s.processAll (messages.filter (!·.isBatch)) = (t, exchanges.filter (!·.1.isBatch)) := by
  let s : Stream := ⟨[⟨0, .long⟩], ⟨[⟨1, "id", .long, true⟩]⟩, ⟨[⟨1, "id", .long, true⟩]⟩, ⟨⟨[]⟩, []⟩,
    .running ⟨[⟨0, .long⟩], [0], ⟨[⟨1, "id", .long, true⟩]⟩, ⟨⟨[]⟩, []⟩, .memory .empty, [], .opened,
      .zero⟩ (.create ⟨[⟨1, "id", .long, true⟩]⟩ 8192)⟩
  let messages : List Message := [.event ⟨.insert, [.long 1]⟩, .batch ⟨"", [], []⟩, .barrier 7,
    .event ⟨.updateAfter, [.long 2]⟩]
  have hs : (Stream.create [⟨0, .long⟩] ⟨[⟨1, "id", .long, true⟩]⟩ ⟨[⟨1, "id", .long, true⟩]⟩
      ⟨⟨[]⟩, []⟩).start
        ⟨"t", 0, 1, [("mini_batch", .object [("backend", .string "in_mem")])], Host.plain⟩
        "/tmp/store" = (s, .ok ()) := by
    cbv
  have hanswers : (s.processAll messages).2 =
      [(.event ⟨.insert, [.long 1]⟩, .ok []),
        (.batch ⟨"", [], []⟩, .error (.unexpectedBatch "")),
        (.barrier 7, .ok [.batch ⟨"", [.insert], [⟨.int64, [.long 1]⟩]⟩, .barrier 7]),
        (.event ⟨.updateAfter, [.long 2]⟩, .ok [])] := by
    cbv
  have hclose : (s.processAll messages).1.close.2 =
      .ok [.batch ⟨"", [.updateAfter], [⟨.int64, [.long 2]⟩]⟩] := by
    cbv
  have hok : ∀ e ∈ (s.processAll messages).2, e.1.isBatch ∨ ∃ out, e.2 = .ok out := by
    rw [hanswers]
    simp [Message.isBatch]
  have hsized : ∀ row, .event row ∈ messages → row.Sized := by
    simp [messages, Row.Sized]
    decide
  exact ⟨_, s, _, _, messages, _, _, hs, rfl, hsized, rfl, hok, Prod.ext rfl hclose,
    stream_answers hs hsized rfl hok (Prod.ext rfl hclose)⟩

end ChangeBuffer
