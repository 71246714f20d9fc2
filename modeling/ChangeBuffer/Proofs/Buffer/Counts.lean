import ChangeBuffer.Proofs.Buffer.Reach
import ChangeBuffer.Proofs.Buffer.Requests

/-! # Counts of buffers

What a buffer has counted is determined by the calls that were made on it and by what came of them:
rows that were taken, and flushes that went well with a row behind the one before.  This holds over
any store and with any sinks.
-/

namespace ChangeBuffer

theorem Call.row?_of_flushes {call : Call} (h : call.flushes) : call.row? = none := by
  cases call with
  | start | process _ => cases h
  | flush | close => rfl

/-- What is known of a call that was made on a buffer. -/
structure Report where
  call : Call
  phase : Phase
  result : Except BufferError Flushed
  requests : List StoreOp

namespace Report

variable (r : Report)

def taken? : Option Row := if r.result.isOk then r.call.row? else none

def flushed? : Option Flushed :=
  if r.phase = .opened ∧ r.call.flushes then r.result.toOption else none

variable {r}

theorem of_flushes {f : Flushed} (hphase : r.phase = .opened) (hcall : r.call.flushes)
    (h : r.result = .ok f) : r.taken? = none ∧ r.flushed? = some f := by
  constructor
  · rw [taken?, Call.row?_of_flushes hcall, ite_self]
  · rw [flushed?, if_pos ⟨hphase, hcall⟩, h]
    rfl

theorem of_passes (hrow : r.call.row? = none) (hclosed : ¬ (r.phase = .opened ∧ r.call.flushes)) :
    r.taken? = none ∧ r.flushed? = none := by
  constructor
  · rw [taken?, hrow, ite_self]
  · rw [flushed?, if_neg hclosed]

theorem of_error {e : BufferError} (h : r.result = .error e) :
    r.taken? = none ∧ r.flushed? = none := by
  constructor
  · rw [taken?, h]
    rfl
  · rw [flushed?, h]
    exact ite_self none

theorem taken?_of_flushed {f : Flushed} (h : r.flushed? = some f) : r.taken? = none := by
  unfold flushed? at h
  split at h
  next hflush => rw [taken?, Call.row?_of_flushes hflush.2, ite_self]
  next => cases h

end Report

/-- The flushes that went well, each with the rows that were taken since the one before, and the
rows since the last one. -/
structure Ledger where
  flushes : List (List Row × Flushed)
  window : List Row

namespace Ledger

def enter (l : Ledger) (r : Report) : Ledger :=
  match r.flushed? with
  | some f => ⟨l.flushes ++ [(l.window, f)], []⟩
  | none => ⟨l.flushes, l.window ++ r.taken?.toList⟩

def ofReports (reports : List Report) : Ledger := reports.foldl enter ⟨[], []⟩

def due (l : Ledger) : List Flushed := (l.flushes.filter (!·.1.isEmpty)).map Prod.snd

variable {l : Ledger} {r : Report} {f : Flushed}

theorem ofReports_append_singleton (reports : List Report) (r : Report) :
    ofReports (reports ++ [r]) = (ofReports reports).enter r := by
  rw [ofReports, ofReports, List.foldl_append]
  rfl

theorem enter_of_flushed (h : r.flushed? = some f) :
    l.enter r = ⟨l.flushes ++ [(l.window, f)], []⟩ := by
  rw [enter, h]

theorem enter_of_taken {row : Row} (hf : r.flushed? = none) (ht : r.taken? = some row) :
    l.enter r = ⟨l.flushes, l.window ++ [row]⟩ := by
  rw [enter, hf, ht]
  rfl

theorem enter_of_none (hf : r.flushed? = none) (ht : r.taken? = none) : l.enter r = l := by
  rw [enter, hf, ht]
  exact congrArg (Ledger.mk l.flushes) (List.append_nil l.window)

theorem length_ofReports_le (reports : List Report) :
    (ofReports reports).flushes.length + (reports.filterMap Report.taken?).length ≤
      reports.length := by
  induction reports using List.reverseRecOn with
  | nil => exact Nat.le_refl _
  | append_singleton reports r ih =>
    rw [ofReports_append_singleton, List.filterMap_append, List.length_append, List.length_append,
      List.length_singleton]
    cases hf : r.flushed? with
    | some f =>
      rw [enter_of_flushed hf, List.length_append, List.length_singleton, List.filterMap_cons_none
        (Report.taken?_of_flushed hf), List.filterMap_nil, List.length_nil]
      omega
    | none =>
      have hsame : ((ofReports reports).enter r).flushes = (ofReports reports).flushes := by
        rw [enter, hf]
      have hone := List.length_filterMap_le Report.taken? [r]
      rw [List.length_singleton] at hone
      rw [hsame]
      omega

theorem length_due_le (l : Ledger) : l.due.length ≤ l.flushes.length := by
  rw [due, List.length_map]
  exact List.length_filter_le _ _

theorem due_append_singleton (flushes : List (List Row × Flushed)) (rows window : List Row)
    (f : Flushed) :
    due ⟨flushes ++ [(rows, f)], window⟩ =
      if rows = [] then due ⟨flushes, window⟩ else due ⟨flushes, window⟩ ++ [f] := by
  rw [due, due, List.filter_append, List.map_append]
  cases rows <;> simp

end Ledger

structure Tally.Counts (t : Tally) (taken : List Row) (due : List Flushed) : Prop where
  added : t.added = taken.countP (·.change.adds)
  withdrawn : t.withdrawn = taken.countP (·.change.withdraws)
  flushes : t.flushes = due.length
  partitions : t.partitions = (due.map Flushed.partitions).sum
  rows : t.rows = (due.map Flushed.rows).sum

namespace Tally

variable {t : Tally} {taken : List Row} {due : List Flushed}

theorem event_of_adds {change : Change} (h : change.adds) :
    t.event change = { t with added := t.added + 1 } := if_pos h

theorem event_of_not_adds {change : Change} (h : ¬ change.adds) :
    t.event change = { t with withdrawn := t.withdrawn + 1 } := if_neg h

theorem added_add_withdrawn_event (t : Tally) (change : Change) :
    (t.event change).added + (t.event change).withdrawn = t.added + t.withdrawn + 1 := by
  by_cases h : change.adds
  · rw [event_of_adds h]
    exact Nat.add_right_comm ..
  · rw [event_of_not_adds h]
    rfl

theorem partitions_event (t : Tally) (change : Change) :
    (t.event change).partitions = t.partitions := by
  by_cases h : change.adds
  · rw [event_of_adds h]
  · rw [event_of_not_adds h]

namespace Counts

theorem zero : Tally.zero.Counts [] [] := ⟨rfl, rfl, rfl, rfl, rfl⟩

theorem event (h : t.Counts taken due) (row : Row) :
    (t.event row.change).Counts (taken ++ [row]) due := by
  by_cases hadds : row.change.adds
  · rw [event_of_adds hadds]
    refine ⟨?_, ?_, h.flushes, h.partitions, h.rows⟩
    · simp [h.added, hadds]
    · simp [h.withdrawn, hadds, Change.withdraws]
  · rw [event_of_not_adds hadds]
    refine ⟨?_, ?_, h.flushes, h.partitions, h.rows⟩
    · simp [h.added, hadds]
    · simp [h.withdrawn, hadds, Change.withdraws]

theorem added_add_withdrawn (h : t.Counts taken due) : t.added + t.withdrawn = taken.length := by
  rw [h.added, h.withdrawn, List.length_eq_countP_add_countP (·.change.adds)]
  simp [Change.withdraws]

theorem flush (h : t.Counts taken due) (f : Flushed) :
    (t.flush f).Counts taken (due ++ [f]) where
  added := h.added
  withdrawn := h.withdrawn
  flushes := by simp [Tally.flush, h.flushes]
  partitions := by simp [Tally.flush, h.partitions]
  rows := by simp [Tally.flush, h.rows]

end Counts

end Tally

namespace Buffer

variable {σ τ : Type} {b b' first : Buffer σ}

structure Uncounted (b b' : Buffer σ) : Prop where
  tally : b'.tally = b.tally
  touched : b'.touched = b.touched ∨ b'.touched = []
  kept : b'.phase.isOver ∨ ∃ phase, b' = { b with phase }

structure Fresh (b : Buffer σ) : Prop where
  phase : b.phase = .created
  touched : b.touched = []
  tally : b.tally = .zero

theorem fresh_of_create {accessors : List Accessor} {key schema : Schema}
    {scheme : Partition.Scheme} {store : σ}
    (h : create accessors key schema scheme store = .ok b) : b.Fresh := by
  obtain ⟨places, -, rfl⟩ := create_eq_ok h
  exact ⟨rfl, rfl, rfl⟩

theorem Fresh.phase_ne (h : b.Fresh) : b.phase ≠ .flushing := by
  rw [h.phase]
  nofun

/-- What has been counted of a buffer agrees with the rows that were taken and with the ledger. -/
structure Accounts (b : Buffer σ) (taken : List Row) (l : Ledger) : Prop where
  counts : b.tally.Counts taken l.due
  /-- Each partition that was or can be handed over has been touched by a row of its own. -/
  partitions : b.tally.partitions + b.touched.length ≤ b.tally.added + b.tally.withdrawn
  window : b.phase.isOver = false → (b.touched = [] ↔ l.window = [])

theorem length_touch_le (b : Buffer σ) (path : String) :
    (b.touch path).length ≤ b.touched.length + 1 := by
  unfold touch
  split
  · exact Nat.le_succ _
  · rw [List.length_append, List.length_singleton]

theorem touch_ne_nil (b : Buffer σ) (path : String) : b.touch path ≠ [] :=
  List.ne_nil_of_mem (mem_touch.mpr (.inr rfl))

namespace Accounts

variable {taken : List Row} {l : Ledger}

theorem takes (h : b.Accounts taken l) (row : Row) (path : String) (store : σ) :
    Accounts { b with store, touched := b.touch path, tally := b.tally.event row.change }
      (taken ++ [row]) ⟨l.flushes, l.window ++ [row]⟩ := by
  refine ⟨h.counts.event row, ?_, fun _ => ?_⟩
  · have hle := length_touch_le b path
    have hmore := b.tally.added_add_withdrawn_event row.change
    have hkept := b.tally.partitions_event row.change
    have hcounted := h.partitions
    simp only
    omega
  · exact iff_of_false (touch_ne_nil b path) (List.append_ne_nil_of_right_ne_nil _ nofun)

theorem flushes {f : Flushed} (h : b.Accounts taken l) (hopened : b.phase = .opened)
    (hne : b.touched ≠ []) (hf : f.partitions = b.touched.length) (store : σ) (phase : Phase) :
    Accounts { b with store, touched := [], tally := b.tally.flush f, phase } taken
      ⟨l.flushes ++ [(l.window, f)], []⟩ := by
  have hwindow : l.window ≠ [] := fun hempty => hne ((h.window (by rw [hopened]; rfl)).mpr hempty)
  refine ⟨?_, ?_, fun _ => iff_of_true rfl rfl⟩
  · rw [Ledger.due_append_singleton, if_neg hwindow]
    exact h.counts.flush f
  · have hcounted := h.partitions
    simp only [Tally.flush, List.length_nil]
    omega

theorem idles (h : b.Accounts taken l) (hopened : b.phase = .opened) (hempty : b.touched = [])
    (f : Flushed) (phase : Phase) :
    Accounts { b with phase } taken ⟨l.flushes ++ [(l.window, f)], []⟩ := by
  have hwindow : l.window = [] := (h.window (by rw [hopened]; rfl)).mp hempty
  refine ⟨?_, h.partitions, fun _ => iff_of_true hempty rfl⟩
  rw [Ledger.due_append_singleton, if_pos hwindow]
  exact h.counts

theorem uncounted (h : b.Accounts taken l) (hu : b.Uncounted b')
    (hbefore : b'.phase.isOver = false → b.phase.isOver = false) : b'.Accounts taken l := by
  refine ⟨hu.tally ▸ h.counts, ?_, fun hlive => ?_⟩
  · have hcounted := h.partitions
    rw [hu.tally]
    obtain hsame | hnone := hu.touched
    · rw [hsame]
      exact hcounted
    · rw [hnone, List.length_nil]
      omega
  · obtain hdone | ⟨phase, rfl⟩ := hu.kept
    · rw [hdone] at hlive
      cases hlive
    · exact h.window (hbefore hlive)

end Accounts

variable [Store σ] [Sink τ] {sink sink' : τ} {r : Report} {reports : List Report}

def report (b : Buffer σ) (sink : τ) (call : Call) : Report :=
  ⟨call, b.phase, (b.callOn sink call).2.2, b.requests sink call⟩

/-- The calls on a buffer so far, each with a sink of its own.  The order of the touched paths means
nothing. -/
inductive History (first : Buffer σ) : List Report → Buffer σ → Prop
  | start : History first [] first
  | called {τ : Type} [Sink τ] {b : Buffer σ} {reports : List Report} (sink : τ) (call : Call) :
      History first reports b →
      History first (reports ++ [b.report sink call]) (b.callOn sink call).1
  | reordered {b : Buffer σ} {reports : List Report} {touched : List String} :
      History first reports b → b.touched.Perm touched →
      History first reports { b with touched }

theorem not_isOver_of_callOn (hb : b.phase ≠ .flushing) (sink : τ) (call : Call)
    (h : (b.callOn sink call).1.phase.isOver = false) : b.phase.isOver = false := by
  have hnext : (b.callOn sink call).1.phase = b.phase.next call (b.callOn sink call).2.2.isOk :=
    phase_callOn hb rfl
  by_contra hover
  rw [hnext, Phase.isOver_next (eq_true_of_ne_false hover)] at h
  cases h

theorem History.reached (h : first.History reports b) :
    first.Reached (fun _ => True) (fun _ _ => False) b := by
  induction h with
  | start => exact .start
  | called sink call _ ih => exact ih.after call trivial sink
  | reordered _ hperm ih => exact ih.reordered hperm

theorem History.store_eq (h : first.History reports b) :
    b.store = Store.performAll first.store (reports.flatMap Report.requests) := by
  induction h with
  | start => rfl
  | called sink call _ ih =>
    rw [store_callOn_eq, ih, List.flatMap_append, List.flatMap_singleton, Store.performAll_append]
    rfl
  | reordered _ _ ih => exact ih

theorem eq_ofBlocks_of_emit {store : σ} {paths : List String} {f : Flushed}
    (h : emit store sink paths = (sink', .ok f)) : f = .ofBlocks (paths.map (readable store)) := by
  rw [emit_eq_carryOut] at h
  have hplan := Plan.outcome_of_carryOut h
  rw [plan_eq_of_ok (read_of_plan_eq_ok hplan)] at hplan
  exact (Except.ok.inj hplan).symm

inductive Tallied (b : Buffer σ) (r : Report) : Buffer σ → Prop
  | takes {row : Row} {path : String} {key : Bytes} {store : σ} :
      r.taken? = some row → r.flushed? = none →
      (if row.change.adds then Store.put b.store key row else Store.remove b.store key) =
        (store, .ok ()) →
      Tallied b r { b with store, touched := b.touch path, tally := b.tally.event row.change }
  | flushes {f : Flushed} {store : σ} {phase : Phase} :
      r.taken? = none → r.flushed? = some f → b.phase = .opened → b.touched ≠ [] →
      f = .ofBlocks (b.touched.map (readable b.store)) → Store.clear b.store = (store, .ok ()) →
      Tallied b r { b with store, touched := [], tally := b.tally.flush f, phase }
  | idles {f : Flushed} {phase : Phase} :
      r.taken? = none → r.flushed? = some f → b.phase = .opened → b.touched = [] →
      Tallied b r { b with phase }
  | uncounted {b' : Buffer σ} :
      r.taken? = none → r.flushed? = none → b.Uncounted b' → Tallied b r b'

theorem Outcome.tallied (h : b.Outcome r.call b' r.result) (hphase : r.phase = b.phase) :
    b.Tallied r b' := by
  generalize hresult : r.result = result at h
  cases h with
  | @takes row path key store hcall _ _ hstore =>
    have htaken : r.taken? = some row := by
      rw [Report.taken?, hresult, hcall]
      rfl
    have hflushed : r.flushed? = none := by simp [Report.flushed?, hcall, Call.flushes]
    exact .takes htaken hflushed hstore
  | flushes hcall hopened hne hemit hclear =>
    obtain ⟨htaken, hflushed⟩ := Report.of_flushes (hphase.trans hopened) hcall hresult
    exact .flushes htaken hflushed hopened hne (eq_ofBlocks_of_emit hemit) hclear
  | idles hcall hopened hempty =>
    obtain ⟨htaken, hflushed⟩ := Report.of_flushes (hphase.trans hopened) hcall hresult
    exact .idles htaken hflushed hopened hempty
  | abandons hrow hover hclear =>
    have hclosed : r.phase ≠ .opened := hphase ▸ Phase.ne_opened hover
    obtain ⟨htaken, hflushed⟩ := Report.of_passes hrow fun h => hclosed h.1
    exact .uncounted htaken hflushed ⟨rfl, .inr rfl, .inl rfl⟩
  | passes phase hrow hclosed =>
    obtain ⟨htaken, hflushed⟩ := Report.of_passes hrow (hphase ▸ hclosed)
    exact .uncounted htaken hflushed ⟨rfl, .inl rfl, .inr ⟨phase, rfl⟩⟩
  | loses store hcall =>
    obtain ⟨htaken, hflushed⟩ := Report.of_error hresult
    exact .uncounted htaken hflushed ⟨rfl, .inl rfl, .inl rfl⟩
  | clearsPartly hclear htouched hover =>
    obtain ⟨htaken, hflushed⟩ := Report.of_error hresult
    exact .uncounted htaken hflushed ⟨rfl, htouched, .inl hover⟩
  | refuses phase =>
    obtain ⟨htaken, hflushed⟩ := Report.of_error hresult
    exact .uncounted htaken hflushed ⟨rfl, .inl rfl, .inr ⟨phase, rfl⟩⟩

theorem tallied_callOn (hb : b.phase ≠ .flushing) (sink : τ) (call : Call) :
    b.Tallied (b.report sink call) (b.callOn sink call).1 := by
  have hout : b.Outcome call (b.callOn sink call).1 (b.callOn sink call).2.2 :=
    outcome_callOn hb rfl
  exact Outcome.tallied (r := b.report sink call) hout rfl

/-- A call and its report keep the accounts. -/
theorem Accounts.step {taken : List Row} {l : Ledger} (h : b.Accounts taken l)
    (ht : b.Tallied r b') (hbefore : b'.phase.isOver = false → b.phase.isOver = false) :
    b'.Accounts (taken ++ r.taken?.toList) (l.enter r) := by
  cases ht with
  | @takes row path key store htaken hflushed hstore =>
    rw [Ledger.enter_of_taken hflushed htaken, htaken]
    exact h.takes row path store
  | @flushes f store phase htaken hflushed hopened hne hf hclear =>
    have hpartitions : f.partitions = b.touched.length := by
      rw [hf, Flushed.ofBlocks, List.length_map]
    rw [Ledger.enter_of_flushed hflushed, htaken, Option.toList_none, List.append_nil]
    exact h.flushes hopened hne hpartitions store phase
  | @idles f phase htaken hflushed hopened hempty =>
    rw [Ledger.enter_of_flushed hflushed, htaken, Option.toList_none, List.append_nil]
    exact h.idles hopened hempty f phase
  | uncounted htaken hflushed hu =>
    rw [Ledger.enter_of_none hflushed htaken, htaken, Option.toList_none, List.append_nil]
    exact h.uncounted hu hbefore

/-- Whatever the store and the sinks do, what has been counted agrees with the reports. -/
theorem History.accounts (h : first.History reports b) (hf : first.Fresh) :
    b.Accounts (reports.filterMap Report.taken?) (.ofReports reports) := by
  induction h with
  | start =>
    refine ⟨?_, ?_, fun _ => ?_⟩
    · rw [hf.tally]
      exact .zero
    · rw [hf.tally, hf.touched]
      exact Nat.le_refl _
    · exact iff_of_true hf.touched rfl
  | @called _ _ b reports sink call hreports ih =>
    have hb := hreports.reached.phase_ne hf.phase_ne
    rw [Ledger.ofReports_append_singleton, List.filterMap_append]
    exact ih.step (tallied_callOn hb sink call) (not_isOver_of_callOn hb sink call)
  | reordered _ hperm ih =>
    refine ⟨ih.counts, ?_, fun hlive => ?_⟩
    · rw [← hperm.length_eq]
      exact ih.partitions
    · rw [← ih.window hlive, ← List.length_eq_zero_iff, ← hperm.length_eq,
        List.length_eq_zero_iff]

/-- There are no more events than calls, so where there are fewer than `2 ^ 64` calls, words of 64
bits hold what is counted. -/
theorem History.tally_le (h : first.History reports b) (hf : first.Fresh) :
    b.tally.added + b.tally.withdrawn + b.tally.flushes ≤ reports.length ∧
      b.tally.partitions ≤ reports.length := by
  have haccounts := h.accounts hf
  have htaken := haccounts.counts.added_add_withdrawn
  have hflushes := haccounts.counts.flushes
  have hdue := (Ledger.ofReports reports).length_due_le
  have hreports := Ledger.length_ofReports_le reports
  have hpartitions := haccounts.partitions
  omega

end Buffer

end ChangeBuffer
