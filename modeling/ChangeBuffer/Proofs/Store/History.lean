import ChangeBuffer.Proofs.Latest
import ChangeBuffer.Proofs.Store.Lawful
import ChangeBuffer.Proofs.Store.Room

/-! # Histories of stores

What a store holds after a series of operations is determined by the latest operation that affects
each key.  A store on disk whose runs have room goes through every series, and no scan can tell it
from a store in memory.
-/

namespace ChangeBuffer

inductive StoreOp
  | put (key : Bytes) (row : Row)
  | remove (key : Bytes)
  | clear

namespace StoreOp

/-- The key and the row are short enough for the records of a run. -/
def Fits : StoreOp → Prop
  | put key row => key.length < 2 ^ 32 ∧ row.encode.length < removedMark
  | remove key => key.length < 2 ^ 32
  | clear => True

def Sized : StoreOp → Prop
  | put _ row => row.Sized
  | _ => True

def Affects (key : Bytes) : StoreOp → Prop
  | put k _ | remove k => k = key
  | clear => True

def apply {σ : Type} [Store σ] (s : σ) : StoreOp → σ × Except StoreError Unit
  | put key row => Store.put s key row
  | remove key => Store.remove s key
  | clear => Store.clear s

def onMap (m : SortedMap Bytes Row) : StoreOp → SortedMap Bytes Row
  | put key row => m.insert key row
  | remove key => m.erase key
  | clear => ∅

end StoreOp

def Store.applyAll {σ : Type} [Store σ] (s : σ) : List StoreOp → Except StoreError σ
  | [] => .ok s
  | op :: ops =>
    match op.apply s with
    | (_, .error e) => .error e
    | (s, .ok ()) => applyAll s ops

/-- The latest put of the key put the row, and neither a removal of the key nor a clearing came
after it. -/
def LatestPut (ops : List StoreOp) (key : Bytes) (row : Row) : Prop :=
  Latest (StoreOp.Affects key) ops (.put key row)

variable {ops : List StoreOp} {op : StoreOp} {key : Bytes} {row : Row}

theorem StoreOp.mem_onMap {m : SortedMap Bytes Row} :
    (key, row) ∈ (op.onMap m).entries ↔
      op = .put key row ∨ ¬ op.Affects key ∧ (key, row) ∈ m.entries := by
  cases op with
  | put k r =>
    simp only [onMap, SortedMap.mem_entries_insert, Affects, Prod.mk.injEq, put.injEq]
    constructor
    · rintro (⟨rfl, rfl⟩ | ⟨hmem, hne⟩)
      · exact Or.inl ⟨rfl, rfl⟩
      · exact Or.inr ⟨fun h => hne h.symm, hmem⟩
    · rintro (⟨rfl, rfl⟩ | ⟨hne, hmem⟩)
      · exact Or.inl ⟨rfl, rfl⟩
      · exact Or.inr ⟨hmem, fun h => hne h.symm⟩
  | remove k =>
    simp only [onMap, SortedMap.mem_entries_erase, Affects, reduceCtorEq, false_or]
    constructor
    · exact fun h => ⟨fun hk => h.2 hk.symm, h.1⟩
    · exact fun h => ⟨h.2, fun hk => h.1 hk.symm⟩
  | clear =>
    simp only [Affects, not_true_eq_false, false_and, reduceCtorEq, or_self, iff_false]
    exact SortedMap.not_mem_empty

/-- The rows that a series of operations leaves behind. -/
def contents (ops : List StoreOp) : SortedMap Bytes Row := ops.foldl StoreOp.onMap ∅

theorem contents_append (ops later : List StoreOp) :
    contents (ops ++ later) = later.foldl StoreOp.onMap (contents ops) := List.foldl_append

theorem contents_append_singleton (ops : List StoreOp) (op : StoreOp) :
    contents (ops ++ [op]) = op.onMap (contents ops) := contents_append ops [op]

/-- What is left under a key is what was put there last. -/
theorem mem_contents : (key, row) ∈ (contents ops).entries ↔ LatestPut ops key row := by
  induction ops using List.reverseRecOn with
  | nil => exact iff_of_false SortedMap.not_mem_empty not_latest_nil
  | append_singleton ops op ih =>
    rw [contents_append_singleton, StoreOp.mem_onMap, ih, LatestPut, LatestPut,
      latest_append_singleton]

section Lawful

variable {σ : Type} [Store σ]

variable [LawfulStore σ] {s t : σ} {m : SortedMap Bytes Row}

theorem LawfulStore.apply (h : Holds s m) (hop : op.Sized) (ht : op.apply s = (t, .ok ())) :
    Holds t (op.onMap m) := by
  cases op with
  | put key row => exact put h hop ht
  | remove key => exact remove h ht
  | clear => exact clear h ht

theorem LawfulStore.applyAll (h : Holds s m) (hops : ∀ op ∈ ops, op.Sized)
    (ht : Store.applyAll s ops = .ok t) : Holds t (ops.foldl StoreOp.onMap m) := by
  induction ops generalizing s m with
  | nil =>
    obtain rfl := Except.ok.inj ht
    exact h
  | cons op ops ih =>
    rw [Store.applyAll] at ht
    split at ht
    · cases ht
    next u hu =>
      exact ih (LawfulStore.apply h (hops op List.mem_cons_self) hu)
        (fun d hd => hops d (List.mem_cons_of_mem _ hd)) ht

end Lawful

namespace DiskStore

variable {s t : DiskStore} {m : SortedMap Bytes Row}

theorem sized_onMap (hm : AllSized m) (hop : op.Sized) : AllSized (op.onMap m) := by
  cases op with
  | put key row => exact hm.insert hop
  | remove key => exact hm.erase
  | clear => exact .empty

theorem sized_foldl_onMap (hm : AllSized m) (hops : ∀ op ∈ ops, op.Sized) :
    AllSized (ops.foldl StoreOp.onMap m) := by
  induction ops generalizing m with
  | nil => exact hm
  | cons op ops ih =>
    exact ih (sized_onMap hm (hops op List.mem_cons_self)) fun d hd =>
      hops d (List.mem_cons_of_mem _ hd)

theorem Keeps.apply (h : s.Keeps (encoded m)) (ht : op.apply s = (t, .ok ())) :
    t.Keeps (encoded (op.onMap m)) := by
  cases op with
  | put key row =>
    rw [StoreOp.onMap, encoded_insert]
    exact ((attempt_insert h key _).of_eq_ok ht).1
  | remove key =>
    rw [StoreOp.onMap, encoded_erase]
    exact ((attempt_remove h key).of_eq_ok ht).1
  | clear =>
    obtain ⟨u, hu, hkeeps, -⟩ := exists_clear h
    obtain rfl : u = t := (Prod.mk.inj (hu.symm.trans ht)).1
    exact hkeeps

theorem onward_apply (s : DiskStore) (op : StoreOp) : s.Onward (op.apply s).1 := by
  cases op with
  | put key row => exact onward_insert s key _
  | remove key => exact onward_remove s key
  | clear => exact onward_clear s

theorem Keeps.exists_apply (h : s.Keeps (encoded m)) (hs : s.Ready 2) (hu : s.Unobstructed)
    (hop : op.Fits) : ∃ t, op.apply s = (t, .ok ()) ∧ ∀ k, s.Ready (2 + k) → t.Ready k := by
  cases op with
  | put key row =>
    have hfits : (Entry.mk key (.present row.encode)).Fits := Entry.fits_iff.mpr hop
    obtain ⟨t, ⟨⟩, ht, -, hready⟩ := (attempt_insert h key _).exists_ok ⟨⟨hs, hfits⟩, hu⟩
    exact ⟨t, ht, fun k hs => hready k ⟨hs, hfits⟩⟩
  | remove key =>
    have hfits : (Entry.mk key .removed).Fits := Entry.fits_iff.mpr ⟨hop, (by decide : 0 < removedMark)⟩
    obtain ⟨t, ⟨⟩, ht, -, hready⟩ := (attempt_remove h key).exists_ok ⟨⟨hs, hfits⟩, hu⟩
    exact ⟨t, ht, fun k hs => hready k ⟨hs, hfits⟩⟩
  | clear =>
    obtain ⟨t, ht, -, hready⟩ := exists_clear h
    exact ⟨t, ht, fun k hs => hready k (hs.mono (Nat.le_add_left k 2))⟩

/-- Operations that fit all go well if nothing stands in the way of runs, two for each. -/
theorem Keeps.exists_applyAll (h : s.Keeps (encoded m)) (hs : s.Ready (2 * ops.length))
    (hu : s.Unobstructed) (hops : ∀ op ∈ ops, op.Fits) :
    ∃ t, Store.applyAll s ops = .ok t ∧ t.Keeps (encoded (ops.foldl StoreOp.onMap m)) ∧
      s.Onward t := by
  induction ops generalizing s m with
  | nil => exact ⟨s, rfl, h, .refl s⟩
  | cons op ops ih =>
    have hs : s.Ready (2 + 2 * ops.length) := hs.mono (by rw [List.length_cons]; omega)
    obtain ⟨t, ht, hready⟩ := h.exists_apply (hs.mono (Nat.le_add_right 2 _)) hu
      (hops op List.mem_cons_self)
    have hon := onward_apply s op
    rw [ht] at hon
    obtain ⟨u, hu, hkeeps, hon'⟩ := ih (h.apply ht) (hready _ hs) (hon.unobstructed hu)
      fun d hd => hops d (List.mem_cons_of_mem _ hd)
    exact ⟨u, by rw [Store.applyAll, ht]; exact hu, hkeeps, hon.trans hon'⟩

theorem exists_applyAll (h : s.Holds m) (hs : s.Ready (2 * ops.length))
    (hops : ∀ op ∈ ops, op.Fits) : ∃ t, Store.applyAll s ops = .ok t := by
  obtain ⟨t, ht, -⟩ := Keeps.exists_applyAll h.stores.keeps hs h.stores.unobstructed hops
  exact ⟨t, ht⟩

end DiskStore

theorem StoreOp.Fits.sized (h : op.Fits) : op.Sized := by
  cases op with
  | put key row => exact Nat.lt_trans h.2 (by decide)
  | remove key => trivial
  | clear => trivial

theorem MemoryStore.exists_applyAll (s : MemoryStore) (ops : List StoreOp) :
    ∃ t, Store.applyAll s ops = .ok t := by
  induction ops generalizing s with
  | nil => exact ⟨s, rfl⟩
  | cons op ops ih => cases op <;> exact ih _

/-- A store on disk goes through every series of operations that fit, if there is room for the runs
that they can write, two for each operation.  Its scans are those of a store in memory: each key
whose latest put still stands, once, with the row that was put. -/
theorem disk_scan_eq_memory_scan {settings : SpillSettings} {host : Host} {path : String}
    {s : DiskStore} (hs : DiskStore.create settings host path = .ok s)
    (hroom : ∀ n < 2 * ops.length, s.hasRoomFor n)
    (hops : ∀ op ∈ ops, op.Fits) :
    ∃ t m, Store.applyAll s ops = .ok t ∧ Store.applyAll MemoryStore.empty ops = .ok m ∧
      ∀ stem, ∃ rows : List (Bytes × Row),
        Store.scan t stem = .ok (rows.map .ok) ∧ Store.scan m stem = .ok (rows.map .ok) ∧
          rows.Pairwise (·.1 < ·.1) ∧
          ∀ key row, (key, row) ∈ rows ↔ stem <+: key ∧ LatestPut ops key row := by
  have hdisk : LawfulStore.Holds s ∅ := DiskStore.Holds.create hs
  have hmemory : LawfulStore.Holds MemoryStore.empty ∅ := rfl
  have hready : s.Ready (2 * ops.length) := by
    obtain rfl := DiskStore.eq_of_create hs
    refine ⟨fun n hn => ?_, by simp [DiskStore.layer_eq_nil]⟩
    rw [Nat.zero_add]
    exact hroom n hn
  have hsized : ∀ op ∈ ops, op.Sized := fun op hop => (hops op hop).sized
  obtain ⟨t, ht⟩ := DiskStore.exists_applyAll hdisk hready hops
  obtain ⟨m, hm⟩ := MemoryStore.exists_applyAll .empty ops
  have ht' : LawfulStore.Holds t (contents ops) := LawfulStore.applyAll hdisk hsized ht
  have hm' : LawfulStore.Holds m (contents ops) := LawfulStore.applyAll hmemory hsized hm
  refine ⟨t, m, ht, hm, fun stem => ⟨_, LawfulStore.scan stem ht', LawfulStore.scan stem hm',
    (contents ops).ascending.filter _, fun key row => ?_⟩⟩
  rw [List.mem_filter, mem_contents, List.isPrefixOf_iff_prefix, and_comm]

theorem disk_scan_eq_memory_scan_of_two_runs :
    ∃ s, DiskStore.create ⟨"/tmp", 1, 2, 1⟩ Host.plain "/tmp/store" = .ok s ∧
      (∀ n < 2 * [StoreOp.put [1] ⟨.insert, [.null]⟩, .remove [1]].length, s.hasRoomFor n) ∧
      (∀ op ∈ [.put [1] ⟨.insert, [.null]⟩, .remove [1]], StoreOp.Fits op) ∧
      ∃ t m,
        Store.applyAll s [.put [1] ⟨.insert, [.null]⟩, .remove [1]] = .ok t ∧
        Store.applyAll MemoryStore.empty [.put [1] ⟨.insert, [.null]⟩, .remove [1]] = .ok m ∧
        ∀ stem, ∃ rows : List (Bytes × Row),
          Store.scan t stem = .ok (rows.map .ok) ∧ Store.scan m stem = .ok (rows.map .ok) ∧
            rows.Pairwise (·.1 < ·.1) ∧
            ∀ key row, (key, row) ∈ rows ↔
              stem <+: key ∧ LatestPut [.put [1] ⟨.insert, [.null]⟩, .remove [1]] key row := by
  have hs : DiskStore.create ⟨"/tmp", 1, 2, 1⟩ Host.plain "/tmp/store" =
      .ok ⟨⟨"/tmp", 1, 2, 1⟩, "/tmp/store", ∅, ∅, 0, [], 0, .zero⟩ := by cbv
  have hroom : ∀ n < 4, DiskStore.hasRoomFor
      ⟨⟨"/tmp", 1, 2, 1⟩, "/tmp/store", ∅, ∅, 0, [], 0, .zero⟩ n := fun n hn =>
    DiskStore.hasRoomFor_plain rfl (Nat.lt_trans hn (by decide))
  have hops : ∀ op ∈ [.put [1] ⟨.insert, [.null]⟩, .remove [1]], StoreOp.Fits op := by
    intro op hop
    simp only [List.mem_cons, List.not_mem_nil, or_false] at hop
    rcases hop with rfl | rfl
    · exact ⟨by decide, by decide⟩
    · exact (by decide : [1].length < 2 ^ 32)
  exact ⟨_, hs, hroom, hops, disk_scan_eq_memory_scan hs hroom hops⟩

/-- Where there is no room for a run, a store on disk refuses what a store in memory takes. -/
theorem put_fails_in_deep_directory :
    ∃ s, DiskStore.create ⟨Path.deep 4026, 1, 2, 1⟩ Host.plain "/tmp/store" = .ok s ∧
      (StoreOp.put [0x61] ⟨.insert, [.long 1]⟩).Fits ∧
      Store.applyAll s [.put [0x61] ⟨.insert, [.long 1]⟩] = .error (.file .nameTooLong) := by
  obtain ⟨s, hs⟩ : ∃ s, DiskStore.create ⟨Path.deep 4026, 1, 2, 1⟩ Host.plain
      "/tmp/store" = .ok s := ⟨_, DiskStore.create_deep (by decide) (by decide) _⟩
  have hsettings : s.settings = ⟨Path.deep 4026, 1, 2, 1⟩ := by rw [DiskStore.eq_of_create hs]
  have ht := DiskStore.insert_deep (Nat.le_refl 4026) hsettings [0x61]
    (.present (Row.encode ⟨.insert, [.long 1]⟩))
  refine ⟨s, hs, ⟨by decide, by decide⟩, ?_⟩
  rw [Store.applyAll]
  simp only [StoreOp.apply, Store.put, DiskStore.put, ht]

end ChangeBuffer
