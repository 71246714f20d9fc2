import ChangeBuffer.Proofs.Buffer.Emission
import ChangeBuffer.Proofs.Buffer.Window
import ChangeBuffer.Proofs.Sink.Brackets
import Mathlib.Algebra.BigOperators.Group.List.Basic

/-! # Plans of emissions

What an emission asks of its sink depends on the store alone, up to the first call that fails: every
sink is asked for the same calls, which hand over one block for each path, as far as the store can
be read.
-/

namespace ChangeBuffer

/-- Calls on a sink, and what comes of them if they all go well. -/
structure Plan (α : Type) where
  calls : List SinkCall
  outcome : Except StoreError α

def Plan.carryOut {τ α : Type} [Sink τ] (p : Plan α) (sink : τ) : τ × Except BufferError α :=
  match Sink.callAll sink p.calls with
  | (sink, .error e) => (sink, .error (.downstream e))
  | (sink, .ok ()) => (sink, p.outcome.mapError .store)

theorem Plan.outcome_of_carryOut {τ α : Type} [Sink τ] {p : Plan α} {sink sink' : τ} {a : α}
    (h : p.carryOut sink = (sink', .ok a)) : p.outcome = .ok a := by
  unfold carryOut at h
  split at h
  · cases h
  · rcases houtcome : p.outcome with e | a
    · rw [houtcome] at h
      cases h
    · rw [houtcome] at h
      cases h
      rfl

def readItems {α : Type} : List (Except StoreError α) → List α × Except StoreError Unit
  | [] => ([], .ok ())
  | .error e :: _ => ([], .error e)
  | .ok a :: items => (a :: (readItems items).1, (readItems items).2)

theorem readItems_map_ok {α : Type} (as : List α) :
    readItems (as.map Except.ok) = (as, .ok ()) := by
  induction as with
  | nil => rfl
  | cons a as ih => simp [readItems, ih]

theorem ok_mem_of_mem_readItems {α : Type} {items : List (Except StoreError α)} {a : α}
    (h : a ∈ (readItems items).1) : .ok a ∈ items := by
  induction items with
  | nil => cases h
  | cons item items ih =>
    rcases item with e | b
    · cases h
    · rcases List.mem_cons.mp h with rfl | h
      · exact List.mem_cons_self
      · exact List.mem_cons_of_mem _ (ih h)

theorem Flushed.ofBlocks_eq_of_perm {blocks blocks' : List Block} (h : blocks.Perm blocks') :
    ofBlocks blocks = ofBlocks blocks' := by
  rw [ofBlocks, ofBlocks, h.length_eq, (h.map _).sum_eq]

namespace Buffer

variable {σ τ : Type} [Store σ] [Sink τ]

def partitionRead (store : σ) (path : String) : List (Bytes × Row) × Except StoreError Unit :=
  match partitionRows store path with
  | .error e => ([], .error e)
  | .ok items => readItems items

def readable (store : σ) (path : String) : Block :=
  ⟨path, (partitionRead store path).1.map Prod.snd⟩

/-- What has to be done to hand over a partition.  It is not left if it cannot be read. -/
def partitionPlan (store : σ) (path : String) : Plan Nat :=
  match (partitionRead store path).2 with
  | .error e => ⟨(readable store path).begun, .error e⟩
  | .ok () => ⟨(readable store path).calls, .ok (readable store path).rows.length⟩

def plan (store : σ) : List String → Plan Flushed
  | [] => ⟨[], .ok .nothing⟩
  | path :: paths =>
    match (partitionPlan store path).outcome with
    | .error e => ⟨(partitionPlan store path).calls, .error e⟩
    | .ok n =>
      ⟨(partitionPlan store path).calls ++ (plan store paths).calls,
        (plan store paths).outcome.map fun f => ⟨f.partitions + 1, f.rows + n⟩⟩

variable {store : σ} {sink : τ} {path : String} {paths : List String}

theorem handOver_eq_carryOut (items : List (Except StoreError (Bytes × Row))) (sink : τ) :
    handOver sink items =
      Plan.carryOut ⟨((readItems items).1.map Prod.snd).map .accept,
        (readItems items).2.map fun _ => (readItems items).1.length⟩ sink := by
  induction items generalizing sink with
  | nil => rfl
  | cons item items ih =>
    rcases item with e | ⟨key, row⟩
    · rfl
    rw [handOver, readItems, List.map_cons, List.map_cons, Plan.carryOut, Sink.callAll, Sink.call]
    rcases Sink.accept sink row with ⟨next, e | ⟨⟩⟩
    · rfl
    simp only [ih next, Plan.carryOut]
    rcases Sink.callAll next (((readItems items).1.map Prod.snd).map .accept) with ⟨last, e | ⟨⟩⟩
    · rfl
    · rcases (readItems items).2 with e | ⟨⟩ <;> rfl

theorem emitPartition_eq_carryOut (store : σ) (path : String) (sink : τ) :
    emitPartition store sink path = (partitionPlan store path).carryOut sink := by
  unfold emitPartition partitionPlan readable partitionRead
  rcases partitionRows store path with e | items
  · simp only [Plan.carryOut, Block.begun, List.map_nil, Sink.callAll, Sink.call]
    rcases Sink.enter sink path with ⟨entered, e | ⟨⟩⟩ <;> rfl
  simp only [handOver_eq_carryOut]
  rcases (readItems items).2 with e | ⟨⟩
  · simp only [Plan.carryOut, Block.begun, Sink.callAll, Sink.call]
    rcases Sink.enter sink path with ⟨entered, e | ⟨⟩⟩
    · rfl
    · simp only
      rcases Sink.callAll entered (((readItems items).1.map Prod.snd).map .accept) with
        ⟨filled, e | ⟨⟩⟩ <;> rfl
  · simp only [Plan.carryOut, Block.calls, Block.begun, List.cons_append, Sink.callAll, Sink.call]
    rcases Sink.enter sink path with ⟨entered, e | ⟨⟩⟩
    · rfl
    · simp only [Sink.callAll_append]
      rcases Sink.callAll entered (((readItems items).1.map Prod.snd).map .accept) with
        ⟨filled, e | ⟨⟩⟩
      · rfl
      · rcases hleave : Sink.leave filled path with ⟨left, e | ⟨⟩⟩ <;>
          simp [Sink.callAll, Sink.call, Except.map, Except.mapError, hleave]

/-- An emission does what is planned. -/
theorem emit_eq_carryOut (store : σ) (paths : List String) (sink : τ) :
    emit store sink paths = (plan store paths).carryOut sink := by
  induction paths generalizing sink with
  | nil => rfl
  | cons path paths ih =>
    rw [emit, emitPartition_eq_carryOut, plan]
    generalize partitionPlan store path = first
    obtain ⟨calls, e | n⟩ := first
    · simp only [Plan.carryOut]
      rcases Sink.callAll sink calls with ⟨next, e' | ⟨⟩⟩ <;> rfl
    · simp only [Plan.carryOut, Sink.callAll_append]
      rcases Sink.callAll sink calls with ⟨next, e | ⟨⟩⟩
      · rfl
      simp only [Except.mapError, ih next, Plan.carryOut]
      rcases Sink.callAll next (plan store paths).calls with ⟨last, e | ⟨⟩⟩
      · rfl
      · rcases (plan store paths).outcome with e | f <;> rfl

theorem partitionPlan_of_error {e : StoreError} (h : (partitionRead store path).2 = .error e) :
    partitionPlan store path = ⟨(readable store path).begun, .error e⟩ := by
  simp only [partitionPlan, h]

theorem partitionPlan_of_ok (h : (partitionRead store path).2 = .ok ()) :
    partitionPlan store path =
      ⟨(readable store path).calls, .ok (readable store path).rows.length⟩ := by
  simp only [partitionPlan, h]

theorem plan_cons_of_error {e : StoreError} (h : (partitionRead store path).2 = .error e) :
    plan store (path :: paths) = ⟨(readable store path).begun, .error e⟩ := by
  rw [plan, partitionPlan_of_error h]

theorem plan_cons_of_ok (h : (partitionRead store path).2 = .ok ()) :
    plan store (path :: paths) =
      ⟨(readable store path).calls ++ (plan store paths).calls,
        (plan store paths).outcome.map fun f =>
          ⟨f.partitions + 1, f.rows + (readable store path).rows.length⟩⟩ := by
  rw [plan, partitionPlan_of_ok h]

theorem calls_plan_prefix :
    (plan store paths).calls <+: (paths.map (readable store)).flatMap Block.calls := by
  induction paths with
  | nil => exact List.prefix_rfl
  | cons path paths ih =>
    rw [List.map_cons, List.flatMap_cons]
    cases hread : (partitionRead store path).2 with
    | error e =>
      rw [plan_cons_of_error hread, Block.calls, List.append_assoc]
      exact List.prefix_append _ _
    | ok _ =>
      rw [plan_cons_of_ok hread]
      exact (List.prefix_append_right_inj _).mpr ih

theorem calls_plan_of_error {front back : List String} {e : StoreError}
    (h : (partitionRead store path).2 = .error e) :
    (plan store (front ++ path :: back)).calls <+:
      (front.map (readable store)).flatMap Block.calls ++ (readable store path).begun := by
  induction front with
  | nil =>
    rw [List.nil_append, plan_cons_of_error h]
    exact List.prefix_rfl
  | cons p front ih =>
    rw [List.cons_append, List.map_cons, List.flatMap_cons, List.append_assoc]
    cases hread : (partitionRead store p).2 with
    | error e =>
      rw [plan_cons_of_error hread, Block.calls, List.append_assoc]
      exact List.prefix_append _ _
    | ok _ =>
      rw [plan_cons_of_ok hread]
      exact (List.prefix_append_right_inj _).mpr ih

theorem plan_eq_of_ok (h : ∀ path ∈ paths, (partitionRead store path).2 = .ok ()) :
    plan store paths =
      ⟨(paths.map (readable store)).flatMap Block.calls,
        .ok (.ofBlocks (paths.map (readable store)))⟩ := by
  induction paths with
  | nil => rfl
  | cons path paths ih =>
    rw [plan_cons_of_ok (h path List.mem_cons_self),
      ih fun p hp => h p (List.mem_cons_of_mem _ hp)]
    simp [Except.map, Flushed.ofBlocks, Nat.add_comm]

theorem read_of_plan_eq_ok {f : Flushed} (h : (plan store paths).outcome = .ok f) :
    ∀ path ∈ paths, (partitionRead store path).2 = .ok () := by
  induction paths generalizing f with
  | nil => exact List.forall_mem_nil _
  | cons path paths ih =>
    cases hread : (partitionRead store path).2 with
    | error e =>
      rw [plan_cons_of_error hread] at h
      cases h
    | ok _ =>
      rw [plan_cons_of_ok hread] at h
      obtain ⟨f', hf'⟩ := exists_map_eq_ok_iff.mp ⟨f, h⟩
      exact List.forall_mem_cons.mpr ⟨hread, ih hf'⟩

theorem plan_eq_of_perm {paths' : List String} {f : Flushed} (hperm : paths.Perm paths')
    (h : (plan store paths).outcome = .ok f) :
    plan store paths' = ⟨(paths'.map (readable store)).flatMap Block.calls, .ok f⟩ := by
  have hread := read_of_plan_eq_ok h
  rw [plan_eq_of_ok hread] at h
  rw [plan_eq_of_ok fun path hpath => hread path (hperm.mem_iff.mpr hpath), ← h,
    Flushed.ofBlocks_eq_of_perm (hperm.map _)]

/-- What an emission has handed over does not depend on the order of the partitions. -/
theorem flushed_eq_of_perm {τ' : Type} [Sink τ'] {sink' : τ} {other other' : τ'}
    {paths' : List String} {f f' : Flushed} (hperm : paths.Perm paths')
    (h : emit store sink paths = (sink', .ok f)) (h' : emit store other paths' = (other', .ok f')) :
    f = f' := by
  rw [emit_eq_carryOut] at h h'
  have hplanned := Plan.outcome_of_carryOut h'
  rw [plan_eq_of_perm hperm (Plan.outcome_of_carryOut h)] at hplanned
  exact Except.ok.inj hplanned

theorem mem_scan_of_mem_readable {row : Row} (h : row ∈ (readable store path).rows) :
    ∃ key stem items, EntryKey.stem path = .ok stem ∧ Store.scan store stem = .ok items ∧
      (key, row) ∈ (readItems items).1 := by
  obtain ⟨⟨key, row⟩, hmem, rfl⟩ := List.mem_map.mp h
  unfold partitionRead at hmem
  split at hmem
  · cases hmem
  next items hitems =>
    unfold partitionRows at hitems
    split at hitems
    · cases hitems
    next stem hstem => exact ⟨key, stem, items, hstem, hitems, hmem⟩

end Buffer

namespace Recorded

variable {τ : Type} [Sink τ]

theorem callAll_eq (s : Recorded τ) (calls : List SinkCall) :
    ∃ made, made <+: calls ∧
      Sink.callAll s calls =
        (⟨(Sink.callAll s.sink made).1, s.calls ++ made⟩, (Sink.callAll s.sink made).2) ∧
      ((Sink.callAll s.sink made).2 = .ok () → made = calls) ∧
      (Sink.callAll s.sink made.dropLast).2 = .ok () := by
  induction calls generalizing s with
  | nil =>
    refine ⟨[], List.prefix_rfl, ?_, fun _ => rfl, rfl⟩
    rw [List.append_nil]
    rfl
  | cons c calls ih =>
    have hcall : Sink.call s c = s.note c (Sink.call s.sink c) := by cases c <;> rfl
    rcases hc : Sink.call s.sink c with ⟨next, e | ⟨⟩⟩
    · have honce : Sink.callAll s.sink [c] = (next, .error e) := by rw [Sink.callAll, hc]
      refine ⟨[c], ⟨calls, rfl⟩, ?_, ?_, rfl⟩
      · rw [Sink.callAll, hcall, honce, note, hc]
      · rw [honce]
        rintro ⟨⟩
    · obtain ⟨made, hbegins, heq, hall, hbut⟩ := ih ⟨next, s.calls ++ [c]⟩
      have honward (cs : List SinkCall) : Sink.callAll s.sink (c :: cs) = Sink.callAll next cs := by
        rw [Sink.callAll, hc]
      refine ⟨c :: made, (List.prefix_append_right_inj [c]).mpr hbegins, ?_, fun h => ?_, ?_⟩
      · rw [Sink.callAll, hcall, honward, note, hc]
        simp only [heq, List.append_assoc, List.singleton_append]
      · rw [honward] at h
        rw [hall h]
      · cases made with
        | nil => rfl
        | cons d made =>
          rw [List.dropLast_cons_cons, honward]
          exact hbut

end Recorded

end ChangeBuffer
