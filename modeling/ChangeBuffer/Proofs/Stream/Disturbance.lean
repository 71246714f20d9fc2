import ChangeBuffer.Proofs.Buffer.Phases
import ChangeBuffer.Proofs.Stream.Answers

/-! # Disturbed streams

The files of a stream may be damaged, removed or blocked from outside at any moment.  Between
requests its builder is empty all the same, and after the first failure no batch goes out any more.
-/

namespace ChangeBuffer

inductive Request
  | message (message : Message)
  | close

abbrev Reply := Except StreamError (List Message)

namespace BatchBuilder

variable {builder given filled : BatchBuilder} {path : String} {reply : Reply}

theorem leave_eq_ok (h : builder.leave path = (filled, .ok ())) :
    filled.current = none ∧ filled.pending = [] := by
  unfold leave at h
  split at h
  · split at h
    · cases h
    next hsealed =>
      cases h
      unfold sealPending at hsealed
      split at hsealed
      next hpending =>
        cases hsealed
        exact ⟨rfl, List.isEmpty_iff.mp hpending⟩
      · split at hsealed <;> cases hsealed
        exact ⟨rfl, rfl⟩
  · cases h

def release (builder : BatchBuilder) (flushed : Except BufferError Flushed)
    (tail : List Message) : BatchBuilder × Reply :=
  match flushed with
  | .error e => (builder.reset, .error (.buffer e))
  | .ok _ => (builder.take.1, .ok (builder.take.2.map .batch ++ tail))

theorem Idle.release {flushed : Except BufferError Flushed} {tail : List Message} {maxRows : Nat}
    (hb : builder.Idle maxRows) (h : ∀ f, flushed = .ok f →
      given = builder ∨ ∃ b path, Sink.leave b path = (given, .ok ()))
    (hr : given.release flushed tail = (filled, reply)) : filled.Idle filled.maxRows := by
  cases flushed with
  | error e =>
    cases hr
    exact ⟨rfl, rfl, rfl, rfl⟩
  | ok f =>
    cases hr
    obtain rfl | ⟨b, path, hleave⟩ := h f rfl
    · exact ⟨hb.current, hb.pending, rfl, rfl⟩
    · obtain ⟨hcurrent, hpending⟩ := leave_eq_ok hleave
      exact ⟨hcurrent, hpending, rfl, rfl⟩

end BatchBuilder

namespace Request

def isBatch : Request → Bool
  | message m => m.isBatch
  | close => false

variable {σ : Type} [Store σ]

/-- Serves a request with a buffer over some store, and with a builder. -/
def serve (buffer : Buffer σ) (builder : BatchBuilder) :
    Request → Buffer σ × BatchBuilder × Reply
  | message (.event row) =>
    let (buffer, result) := buffer.process row
    (buffer, builder, (result.mapError StreamError.buffer).map fun () => [])
  | message (.barrier checkpoint) =>
    let (buffer, builder, flushed) := buffer.flush builder
    (buffer, builder.release flushed [.barrier checkpoint])
  | message .endOfInput =>
    let (buffer, builder, flushed) := buffer.flush builder
    (buffer, builder.release flushed [.endOfInput])
  | message (.batch batch) => (buffer, builder, .error (.unexpectedBatch batch.path))
  | close =>
    let (buffer, builder, flushed) := buffer.close builder
    (buffer, builder.release flushed [])

variable {r : Request} {buffer left : Buffer σ} {builder filled : BatchBuilder} {reply : Reply}

/-- What it takes to serve each kind of request. -/
theorem serve_cases (h : r.serve buffer builder = (left, filled, reply)) :
    (∃ batch, r = .message (.batch batch) ∧ left = buffer ∧ filled = builder ∧
        reply = .error (.unexpectedBatch batch.path)) ∨
      (∃ row result, r = .message (.event row) ∧ buffer.process row = (left, result) ∧
        filled = builder ∧ reply = (result.mapError StreamError.buffer).map fun () => []) ∨
      (∃ tail given flushed, buffer.flush builder = (left, given, flushed) ∧
        given.release flushed tail = (filled, reply)) ∨
      r = .close ∧ ∃ given flushed, buffer.close builder = (left, given, flushed) ∧
        given.release flushed [] = (filled, reply) := by
  cases r with
  | message m =>
    cases m with
    | event row =>
      cases h
      exact Or.inr (Or.inl ⟨row, _, rfl, rfl, rfl, rfl⟩)
    | batch batch =>
      cases h
      exact Or.inl ⟨batch, rfl, rfl, rfl, rfl⟩
    | barrier | endOfInput =>
      rcases hf : buffer.flush builder with ⟨taken, given, flushed⟩
      simp only [serve, hf] at h
      obtain ⟨rfl, hrelease⟩ := Prod.mk.inj h
      exact Or.inr (Or.inr (Or.inl ⟨_, given, flushed, rfl, hrelease⟩))
  | close =>
    rcases hc : buffer.close builder with ⟨taken, given, flushed⟩
    simp only [serve, hc] at h
    obtain ⟨rfl, hrelease⟩ := Prod.mk.inj h
    exact Or.inr (Or.inr (Or.inr ⟨rfl, given, flushed, rfl, hrelease⟩))

theorem serve_callOn (hr : ¬ r.isBatch) (h : r.serve buffer builder = (left, filled, reply)) :
    ∃ call given result, call ≠ .start ∧ buffer.callOn builder call = (left, given, result) ∧
      result.isOk = reply.isOk := by
  have hrelease {given : BatchBuilder} {flushed : Except BufferError Flushed}
      {tail : List Message} (hg : given.release flushed tail = (filled, reply)) :
      flushed.isOk = reply.isOk := by
    cases flushed <;> cases hg <;> rfl
  obtain ⟨batch, rfl, -⟩ | ⟨row, result, -, hp, -, rfl⟩ | ⟨tail, given, flushed, hf, hg⟩ |
    ⟨-, given, flushed, hc, hg⟩ := serve_cases h
  · exact absurd rfl hr
  · refine ⟨.process row, builder, result.map fun () => .nothing, by simp, ?_, ?_⟩
    · rw [Buffer.callOn, hp]
    · cases result <;> rfl
  · exact ⟨.flush, given, flushed, by simp, hf, hrelease hg⟩
  · exact ⟨.close, given, flushed, by simp, hc, hrelease hg⟩

theorem phase_serve (hs : buffer.phase.isStarted) (hr : ¬ r.isBatch)
    (h : r.serve buffer builder = (left, filled, reply)) :
    ∃ call, call ≠ .start ∧ left.phase = buffer.phase.next call reply.isOk := by
  obtain ⟨call, given, result, hcall, hmade, hok⟩ := serve_callOn hr h
  exact ⟨call, hcall, hok ▸ Buffer.phase_callOn (Phase.ne_flushing hs) hmade⟩

theorem idle_serve (hs : buffer.phase.isStarted) (hb : builder.Idle builder.maxRows)
    (h : r.serve buffer builder = (left, filled, reply)) : filled.Idle filled.maxRows := by
  obtain ⟨-, -, -, rfl, -⟩ | ⟨-, -, -, -, rfl, -⟩ | ⟨tail, given, flushed, hf, hg⟩ |
    ⟨-, given, flushed, hc, hg⟩ := serve_cases h
  · exact hb
  · exact hb
  · exact hb.release (fun f hok => Buffer.flush_leaves (hok ▸ hf)) hg
  · exact hb.release (fun f hok => Buffer.close_leaves (Phase.ne_flushing hs) (hok ▸ hc)) hg

theorem serve_of_isOver {out : List Message} (hover : buffer.phase.isOver)
    (hb : builder.Idle builder.maxRows)
    (h : r.serve buffer builder = (left, filled, .ok out)) : r = .close ∧ out = [] := by
  have hopened := Phase.ne_opened hover
  obtain ⟨batch, -, -, -, hr⟩ | ⟨row, result, -, hp, -, hr⟩ | ⟨tail, given, flushed, hf, hg⟩ |
    ⟨rfl, given, flushed, hc, hg⟩ := serve_cases h
  · cases hr
  · obtain ⟨-, -, rfl⟩ | ⟨hphase, -⟩ | ⟨hphase, -⟩ := Buffer.process_cases hp
    · cases hr
    · exact absurd hphase hopened
    · exact absurd hphase hopened
  · obtain ⟨-, -, -, rfl⟩ | ⟨hphase, -⟩ := Buffer.flush_cases hf
    · cases hg
    · exact absurd hphase hopened
  · obtain ⟨hphase, -⟩ | ⟨-, rfl, ⟨rfl, -⟩ | ⟨-, -, fault, rfl⟩⟩ :=
      Buffer.close_cases (Phase.ne_flushing (Phase.isStarted_of_isOver hover)) hc
    · exact absurd hphase hopened
    · cases hg
      exact ⟨rfl, by simp [BatchBuilder.take, hb.batches]⟩
    · cases hg

end Request

def Buffer.over {σ ρ : Type} (b : Buffer σ) (view : σ → ρ) : Buffer ρ :=
  { b with store := view b.store }

@[simp] theorem Buffer.phase_over {σ ρ : Type} (b : Buffer σ) (view : σ → ρ) :
    (b.over view).phase = b.phase := rfl

namespace Stream

/-- The reply to a request, and the stream that it leaves behind. -/
def answer (s : Stream) : Request → Stream × Reply
  | .message m => s.process m
  | .close => s.close

/-- Whatever happens to its files meanwhile, the stream becomes such a `t` by serving the request
and gives such a reply.  Of the store that its buffer then runs on nothing is known but that it
looks like the stream's own in the beginning. -/
def Serves (s : Stream) (r : Request) (t : Stream) (reply : Reply) : Prop :=
  ∃ (σ : Type) (_ : Store σ) (view : σ → Backend) (buffer left : Buffer σ)
      (builder filled : BatchBuilder),
    s.state = .running (buffer.over view) builder ∧
      r.serve buffer builder = (left, filled, reply) ∧
      t = { s with state := .running (left.over view) filled }

/-- Requests that are served one after the other, with what happens to the store between them. -/
inductive Session : Stream → List (Request × Reply) → Stream → Prop
  | nil {s} : Session s [] s
  | disturbed {s t buffer builder exchanges} (store : Backend) :
    s.state = .running buffer builder →
    Session { s with state := .running { buffer with store } builder } exchanges t →
    Session s exchanges t
  | served {s t u r reply exchanges} :
    s.Serves r u reply → Session u exchanges t → Session s ((r, reply) :: exchanges) t

variable {s t u : Stream} {r : Request} {reply : Reply} {exchanges : List (Request × Reply)}
  {buffer left : Buffer Backend} {builder filled : BatchBuilder}

theorem answer_eq (hs : s.state = .running buffer builder)
    (h : r.serve buffer builder = (left, filled, reply)) :
    s.answer r = ({ s with state := .running left filled }, reply) := by
  have hrelease (b : Buffer Backend) (given : BatchBuilder) (flushed : Except BufferError Flushed)
      (tail : List Message) : s.release b given flushed tail =
        ({ s with state := .running b (given.release flushed tail).1 },
          (given.release flushed tail).2) := by
    cases flushed <;> rfl
  cases r with
  | message m =>
    cases m with
    | event row =>
      cases h
      exact process_event hs rfl
    | batch batch =>
      cases h
      have hsame : s = { s with state := .running buffer builder } := by rw [← hs]
      rw [answer, process, hs]
      exact Prod.ext hsame rfl
    | barrier | endOfInput =>
      rcases hf : buffer.flush builder with ⟨taken, given, flushed⟩
      simp only [Request.serve, hf] at h
      obtain ⟨rfl, hg⟩ := Prod.mk.inj h
      rw [answer, process_of_flushes hs rfl hf, hrelease, hg]
  | close =>
    rcases hc : buffer.close builder with ⟨taken, given, flushed⟩
    simp only [Request.serve, hc] at h
    obtain ⟨rfl, hg⟩ := Prod.mk.inj h
    rw [answer, close_eq hs hc, hrelease, hg]

theorem serves_of_answer (hs : s.state = .running buffer builder)
    (h : s.answer r = (t, reply)) : s.Serves r t reply := by
  rcases hserve : r.serve buffer builder with ⟨left, filled, given⟩
  rw [answer_eq hs hserve] at h
  obtain ⟨rfl, rfl⟩ := Prod.mk.inj h
  exact ⟨Backend, inferInstance, id, buffer, left, builder, filled, hs, hserve, rfl⟩

def Rests (s : Stream) (p : Phase → Bool) : Prop :=
  ∃ buffer builder, s.state = .running buffer builder ∧ p buffer.phase ∧
    builder.Idle builder.maxRows

theorem Rests.of_state {p : Phase → Bool} (hs : s.Rests p)
    (h : s.state = .running buffer builder) :
    p buffer.phase ∧ builder.Idle builder.maxRows := by
  obtain ⟨_, _, hstate, hrests⟩ := hs
  obtain ⟨rfl, rfl⟩ := StreamState.running.inj (h.symm.trans hstate)
  exact hrests

theorem Rests.start {accessors : List Accessor} {key schema : Schema} {scheme : Partition.Scheme}
    {task : Task} {path : String}
    (h : (create accessors key schema scheme).start task path = (s, .ok ())) :
    s.Rests Phase.isStarted := by
  obtain ⟨settings, store, fresh, buffer, -, -, -, hopened, hstate⟩ := start_eq_ok h
  refine ⟨buffer, _, hstate, ?_, ⟨rfl, rfl, rfl, rfl⟩⟩
  obtain ⟨-, -, hr⟩ | ⟨-, rfl, -⟩ := Buffer.start_cases hopened
  · cases hr
  · rfl

variable {p q : Phase → Bool}

theorem Serves.batch {b : Batch} (h : s.Serves (.message (.batch b)) t reply) :
    t = s ∧ reply = .error (.unexpectedBatch b.path) := by
  obtain ⟨σ, _, view, buffer, left, builder, filled, hs, hserve, rfl⟩ := h
  cases hserve
  exact ⟨by rw [← hs], rfl⟩

theorem Serves.eq_of_isBatch (h : s.Serves r t reply) (hr : r.isBatch) : t = s := by
  cases r with
  | message m =>
    obtain ⟨b, rfl⟩ := Message.exists_eq_batch hr
    exact h.batch.1
  | close => cases hr

theorem Serves.rests (h : s.Serves r t reply) (hs : s.Rests p) (hr : ¬ r.isBatch)
    (hp : ∀ phase, p phase → phase.isStarted)
    (hq : ∀ phase call, p phase → call ≠ .start → q (phase.next call reply.isOk)) :
    t.Rests q := by
  obtain ⟨σ, _, view, buffer, left, builder, filled, hstate, hserve, rfl⟩ := h
  obtain ⟨hphase, hidle⟩ := hs.of_state hstate
  rw [Buffer.phase_over] at hphase
  obtain ⟨call, hcall, hleft⟩ := Request.phase_serve (hp _ hphase) hr hserve
  exact ⟨_, _, rfl, hleft ▸ hq _ call hphase hcall, Request.idle_serve (hp _ hphase) hidle hserve⟩

theorem Serves.started (h : s.Serves r t reply) (hs : s.Rests Phase.isStarted) :
    t.Rests Phase.isStarted := by
  by_cases hr : r.isBatch
  · rwa [h.eq_of_isBatch hr]
  · exact h.rests hs hr (fun _ => id) fun _ _ hphase _ => Phase.isStarted_next hphase

theorem Serves.over (h : s.Serves r t reply) (hs : s.Rests Phase.isOver) :
    t.Rests Phase.isOver := by
  by_cases hr : r.isBatch
  · rwa [h.eq_of_isBatch hr]
  · exact h.rests hs hr (fun _ => Phase.isStarted_of_isOver)
      fun _ _ hphase _ => Phase.isOver_next hphase

/-- A failure is the end of the stream. -/
theorem Serves.over_of_error {e : StreamError} (h : s.Serves r t (.error e))
    (hs : s.Rests Phase.isStarted) (hr : ¬ r.isBatch) : t.Rests Phase.isOver :=
  h.rests hs hr (fun _ => id) fun _ _ hphase hcall => Phase.isOver_next_false hphase hcall

theorem Serves.silent {out : List Message} (h : s.Serves r t (.ok out))
    (hs : s.Rests Phase.isOver) : r = .close ∧ out = [] := by
  obtain ⟨σ, _, view, buffer, left, builder, filled, hstate, hserve, rfl⟩ := h
  obtain ⟨hphase, hidle⟩ := hs.of_state hstate
  rw [Buffer.phase_over] at hphase
  exact Request.serve_of_isOver hphase hidle hserve

theorem Rests.disturbed (hs : s.Rests p) (h : s.state = .running buffer builder)
    (store : Backend) : Rests { s with state := .running { buffer with store } builder } p := by
  obtain ⟨hphase, hidle⟩ := hs.of_state h
  exact ⟨_, _, rfl, hphase, hidle⟩

namespace Session

theorem rests (h : s.Session exchanges t) (hs : s.Rests Phase.isStarted) :
    t.Rests Phase.isStarted := by
  induction h with
  | nil => exact hs
  | disturbed store hstate _ ih => exact ih (hs.disturbed hstate store)
  | served hserves _ ih => exact ih (hserves.started hs)

theorem silent (h : s.Session exchanges t) (hs : s.Rests Phase.isOver) :
    ∀ x ∈ exchanges, ∀ out, x.2 = .ok out → x.1 = .close ∧ out = [] := by
  induction h with
  | nil => simp
  | disturbed store hstate _ ih => exact ih (hs.disturbed hstate store)
  | served hserves _ ih =>
    intro x hx out hout
    rcases List.mem_cons.mp hx with rfl | hx
    · subst hout
      exact hserves.silent hs
    · exact ih (hserves.over hs) x hx out hout

theorem pairwise (h : s.Session exchanges t) (hs : s.Rests Phase.isStarted) :
    exchanges.Pairwise fun x y => ¬ x.1.isBatch → (∃ e, x.2 = .error e) →
      ∀ out, y.2 = .ok out → y.1 = .close ∧ out = [] := by
  induction h with
  | nil => exact .nil
  | disturbed store hstate _ ih => exact ih (hs.disturbed hstate store)
  | served hserves hsession ih =>
    refine .cons ?_ (ih (hserves.started hs))
    rintro y hy hr ⟨e, rfl⟩
    exact hsession.silent (hserves.over_of_error hs hr) y hy

theorem filter (h : s.Session exchanges t) : s.Session (exchanges.filter (!·.1.isBatch)) t := by
  induction h with
  | nil => exact .nil
  | disturbed store hstate _ ih => exact .disturbed store hstate ih
  | @served _ _ _ r _ _ hserves _ ih =>
    cases hbatch : r.isBatch with
    | true =>
      obtain rfl := hserves.eq_of_isBatch hbatch
      simpa [hbatch] using ih
    | false => simpa [hbatch] using Session.served hserves ih

end Session

end Stream

/-- Whatever happens to the files of a stream and whenever, between requests its builder is empty,
a batch that comes in changes nothing and could as well be missing, and behind the first other
request that fails nothing goes out any more. -/
theorem disturbed_stream_stops_at_failure {accessors : List Accessor} {key schema : Schema}
    {scheme : Partition.Scheme} {task : Task} {path : String} {s t : Stream}
    {exchanges : List (Request × Reply)}
    (hs : (Stream.create accessors key schema scheme).start task path = (s, .ok ()))
    (hr : s.Session exchanges t) :
    (∃ buffer builder, t.state = .running buffer builder ∧
        builder.current = none ∧ builder.pending = [] ∧ builder.batches = []) ∧
      (∀ r u reply, t.answer r = (u, reply) → t.Serves r u reply) ∧
      (∀ b u reply, t.Serves (.message (.batch b)) u reply →
        u = t ∧ reply = .error (.unexpectedBatch b.path)) ∧
      s.Session (exchanges.filter (!·.1.isBatch)) t ∧
      exchanges.Pairwise fun x y => ¬ x.1.isBatch → (∃ e, x.2 = .error e) →
        ∀ out, y.2 = .ok out → y.1 = .close ∧ out = [] := by
  have hstarted := Stream.Rests.start hs
  obtain ⟨buffer, builder, hstate, -, hidle⟩ := hr.rests hstarted
  exact ⟨⟨buffer, builder, hstate, hidle.current, hidle.pending, hidle.batches⟩,
    fun r u reply h => Stream.serves_of_answer hstate h, fun b u reply h => h.batch, hr.filter,
    hr.pairwise hstarted⟩

theorem disturbed_stream_stops_at_failure_of_missing_run :
    ∃ (task : Task) (s t : Stream) (exchanges : List (Request × Reply)),
      (Stream.create [⟨0, .long⟩] ⟨[⟨1, "id", .long, true⟩]⟩ ⟨[⟨1, "id", .long, true⟩]⟩
        ⟨⟨[]⟩, []⟩).start task "/tmp/store" = (s, .ok ()) ∧
      exchanges = [(.message (.event ⟨.insert, [.long 1]⟩), .ok []),
        (.message (.batch ⟨"", [], []⟩), .error (.unexpectedBatch "")),
        (.message (.barrier 7), .error (.buffer (.store (.file .missing)))),
        (.message .endOfInput, .error (.buffer (.wrongPhase .flush .failed))), (.close, .ok [])] ∧
      s.Session exchanges t ∧
      (∃ buffer builder, t.state = .running buffer builder ∧
        builder.current = none ∧ builder.pending = [] ∧ builder.batches = []) ∧
      (∀ r u reply, t.answer r = (u, reply) → t.Serves r u reply) ∧
      (∀ b u reply, t.Serves (.message (.batch b)) u reply →
        u = t ∧ reply = .error (.unexpectedBatch b.path)) ∧
      s.Session (exchanges.filter (!·.1.isBatch)) t ∧
      exchanges.Pairwise fun x y => ¬ x.1.isBatch → (∃ e, x.2 = .error e) →
        ∀ out, y.2 = .ok out → y.1 = .close ∧ out = [] := by
  have hs : (Stream.create [⟨0, .long⟩] ⟨[⟨1, "id", .long, true⟩]⟩ ⟨[⟨1, "id", .long, true⟩]⟩
      ⟨⟨[]⟩, []⟩).start ⟨"t", 0, 1, [("mini_batch", .object [("spill", .object
        [("memtable_limit_bytes", .integer 1), ("scratch_dir", .string "/tmp")])])], Host.plain⟩
        "/tmp/store" =
      (⟨[⟨0, .long⟩], ⟨[⟨1, "id", .long, true⟩]⟩, ⟨[⟨1, "id", .long, true⟩]⟩, ⟨⟨[]⟩, []⟩, .running
        ⟨[⟨0, .long⟩], [0], ⟨[⟨1, "id", .long, true⟩]⟩, ⟨⟨[]⟩, []⟩,
          .disk ⟨⟨"/tmp", 1, 8, 64⟩, "/tmp/store", ∅, ∅, 0, [], 0, .zero⟩, [], .opened, .zero⟩
        (.create ⟨[⟨1, "id", .long, true⟩]⟩ 8192)⟩, .ok ()) := by
    cbv
  obtain ⟨t, hsession⟩ : ∃ t, Stream.Session
      ⟨[⟨0, .long⟩], ⟨[⟨1, "id", .long, true⟩]⟩, ⟨[⟨1, "id", .long, true⟩]⟩, ⟨⟨[]⟩, []⟩, .running
        ⟨[⟨0, .long⟩], [0], ⟨[⟨1, "id", .long, true⟩]⟩, ⟨⟨[]⟩, []⟩,
          .disk ⟨⟨"/tmp", 1, 8, 64⟩, "/tmp/store", ∅, ∅, 0, [], 0, .zero⟩, [], .opened, .zero⟩
        (.create ⟨[⟨1, "id", .long, true⟩]⟩ 8192)⟩
      [(.message (.event ⟨.insert, [.long 1]⟩), .ok []),
        (.message (.batch ⟨"", [], []⟩), .error (.unexpectedBatch "")),
        (.message (.barrier 7), .error (.buffer (.store (.file .missing)))),
        (.message .endOfInput, .error (.buffer (.wrongPhase .flush .failed))), (.close, .ok [])]
      t := by
    exact ⟨_, .served (Stream.serves_of_answer rfl rfl) <|
      .served (Stream.serves_of_answer rfl rfl) <|
      .disturbed (.disk { (DiskStore.put
        ⟨⟨"/tmp", 1, 8, 64⟩, "/tmp/store", ∅, ∅, 0, [], 0, .zero⟩
        [0, 0, 0, 0, 1, 0, 0, 0, 0, 0, 0, 0, 3, 0, 0, 0, 1, 0, 0, 0, 0, 0, 0, 0]
        ⟨.insert, [.long 1]⟩).1 with folder := ∅ }) rfl <|
      .served (Stream.serves_of_answer rfl rfl) <|
      .served (Stream.serves_of_answer rfl rfl) <|
      .served (Stream.serves_of_answer rfl rfl) .nil⟩
  exact ⟨_, _, t, _, hs, rfl, hsession, disturbed_stream_stops_at_failure hs hsession⟩

end ChangeBuffer
