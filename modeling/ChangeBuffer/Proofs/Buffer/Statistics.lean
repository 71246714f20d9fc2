import ChangeBuffer.Proofs.Buffer.Counts
import ChangeBuffer.Proofs.Store.Balance
import ChangeBuffer.Proofs.Store.Lawful

/-! # Statistics of buffers on disk

What a buffer and its store on disk have counted agrees with the calls that were made, whatever the
rows and the sinks.  A buffer never hands over more rows than it has taken, since the store has each
key once and no key is in two partitions.
-/

namespace ChangeBuffer

theorem keys_readItems_prefix (pairs : List (Bytes × Bytes)) :
    (readItems (pairs.map fun p => DiskStore.decodeItem (.ok p))).1.map Prod.fst <+:
      pairs.map Prod.fst := by
  induction pairs with
  | nil => exact List.prefix_rfl
  | cons p pairs ih =>
    obtain ⟨key, bytes⟩ := p
    rw [List.map_cons, List.map_cons, DiskStore.decodeItem]
    cases Row.decode bytes with
    | error fault => exact List.nil_prefix
    | ok row => exact (List.prefix_append_right_inj [key]).mpr ih

namespace DiskStore

/-- The files of the store are there, and it has rows for so many keys at most. -/
def HoldsAtMost (s : DiskStore) (n : Nat) : Prop :=
  ∃ (rows : Bytes → Option Bytes) (keys : List Bytes),
    s.Keeps rows ∧ (∀ key, rows key ≠ none → key ∈ keys) ∧ keys.length ≤ n

variable {s t : DiskStore} {n : Nat} {key : Bytes} {row : Row} {rows : Bytes → Option Bytes}
  {path : String} {paths : List String}

def keysRead (s : DiskStore) (path : String) : List Bytes :=
  (Buffer.partitionRead s path).1.map Prod.fst

theorem keysRead_of_error {fault : OverlongPath} (h : EntryKey.stem path = .error fault) :
    s.keysRead path = [] := by
  rw [keysRead, Buffer.partitionRead, Buffer.partitionRows, h]
  rfl

namespace Keeps

theorem exists_keysRead_prefix {stem : Bytes} (h : s.Keeps rows)
    (hstem : EntryKey.stem path = .ok stem) :
    ∃ pairs : List (Bytes × Bytes), s.keysRead path <+: pairs.map Prod.fst ∧
      pairs.Pairwise (·.1 < ·.1) ∧
      ∀ key row, (key, row) ∈ pairs ↔ stem <+: key ∧ rows key = some row := by
  obtain ⟨pairs, hscan, hascending, hmem⟩ := h.exists_scan stem
  have hrows : Buffer.partitionRows s path = .ok (pairs.map fun p => decodeItem (.ok p)) := by
    rw [Buffer.partitionRows, hstem]
    exact hscan
  refine ⟨pairs, ?_, hascending, hmem⟩
  rw [keysRead, Buffer.partitionRead, hrows]
  exact keys_readItems_prefix pairs

theorem nodup_keysRead (h : s.Keeps rows) (path : String) : (s.keysRead path).Nodup := by
  cases hstem : EntryKey.stem path with
  | error fault =>
    rw [keysRead_of_error hstem]
    exact .nil
  | ok stem =>
    obtain ⟨pairs, hfront, hascending, -⟩ := h.exists_keysRead_prefix hstem
    exact (SortedMap.nodup_keys hascending).sublist hfront.sublist

theorem of_mem_keysRead (h : s.Keeps rows) (hkey : key ∈ s.keysRead path) :
    rows key ≠ none ∧ ∃ stem, EntryKey.stem path = .ok stem ∧ stem <+: key := by
  cases hstem : EntryKey.stem path with
  | error fault =>
    rw [keysRead_of_error hstem] at hkey
    cases hkey
  | ok stem =>
    obtain ⟨pairs, hfront, -, hmem⟩ := h.exists_keysRead_prefix hstem
    obtain ⟨⟨key, bytes⟩, hpair, rfl⟩ := List.mem_map.mp (hfront.subset hkey)
    obtain ⟨hbegins, hrow⟩ := (hmem key bytes).mp hpair
    exact ⟨hrow ▸ Option.some_ne_none bytes, stem, rfl, hbegins⟩

theorem disjoint_keysRead (h : s.Keeps rows) {path' : String} (hne : path ≠ path') :
    (s.keysRead path).Disjoint (s.keysRead path') := by
  intro key hkey hkey'
  obtain ⟨-, stem, hstem, hbegins⟩ := h.of_mem_keysRead hkey
  obtain ⟨-, stem', hstem', hbegins'⟩ := h.of_mem_keysRead hkey'
  exact hne (EntryKey.path_eq_of_stems_prefix hstem hstem' hbegins hbegins')

end Keeps

theorem rows_ofBlocks_eq (s : DiskStore) (paths : List String) :
    (Flushed.ofBlocks (paths.map (Buffer.readable s))).rows = (paths.flatMap s.keysRead).length := by
  simp [Flushed.ofBlocks, Buffer.readable, keysRead, List.length_flatMap, Function.comp_def]

namespace HoldsAtMost

theorem create {settings : SpillSettings} {host : Host} {path : String}
    (hs : create settings host path = .ok s) : s.HoldsAtMost 0 := by
  refine ⟨_, [], (Holds.create hs).stores.keeps, fun key hkey => ?_, Nat.le_refl _⟩
  rw [SortedMap.find?_empty] at hkey
  exact absurd rfl hkey

theorem put (h : s.HoldsAtMost n) (ht : Store.put s key row = (t, .ok ())) :
    t.HoldsAtMost (n + 1) := by
  obtain ⟨rows, keys, hkeeps, hkeys, hlength⟩ := h
  refine ⟨_, key :: keys, ((attempt_insert hkeeps key _).of_eq_ok ht).1, fun k hk => ?_,
    Nat.succ_le_succ hlength⟩
  by_cases he : k = key
  · exact he ▸ List.mem_cons_self
  · rw [if_neg he] at hk
    exact List.mem_cons_of_mem _ (hkeys k hk)

theorem remove (h : s.HoldsAtMost n) (ht : Store.remove s key = (t, .ok ())) :
    t.HoldsAtMost n := by
  obtain ⟨rows, keys, hkeeps, hkeys, hlength⟩ := h
  refine ⟨_, keys, ((attempt_remove hkeeps key).of_eq_ok ht).1, fun k hk => hkeys k ?_, hlength⟩
  split at hk
  · exact absurd rfl hk
  · exact hk

theorem clear (h : s.HoldsAtMost n) (ht : Store.clear s = (t, .ok ())) : t.HoldsAtMost 0 := by
  obtain ⟨rows, keys, hkeeps, -⟩ := h
  obtain ⟨u, hu, hempty, -⟩ := exists_clear hkeeps
  obtain rfl := (Prod.mk.inj (hu.symm.trans ht)).1
  exact ⟨_, [], hempty, fun _ hk => absurd rfl hk, Nat.le_refl _⟩

/-- No more rows are handed over than there are keys. -/
theorem rows_le (h : s.HoldsAtMost n) (hpaths : paths.Nodup) :
    (Flushed.ofBlocks (paths.map (Buffer.readable s))).rows ≤ n := by
  obtain ⟨rows, keys, hkeeps, hkeys, hlength⟩ := h
  have hnodup : (paths.flatMap s.keysRead).Nodup :=
    List.nodup_flatMap.mpr ⟨fun path _ => hkeeps.nodup_keysRead path,
      hpaths.imp hkeeps.disjoint_keysRead⟩
  have hsub : paths.flatMap s.keysRead ⊆ keys := by
    intro key hkey
    obtain ⟨path, -, hread⟩ := List.mem_flatMap.mp hkey
    exact hkeys key (hkeeps.of_mem_keysRead hread).1
  rw [rows_ofBlocks_eq]
  exact (hnodup.subperm hsub).length_le.trans hlength

end HoldsAtMost

end DiskStore

namespace Buffer

variable {b b' first : Buffer DiskStore} {reports : List Report} {s : DiskStore}

/-- The rows that were and can be handed over are covered by rows that were taken and add. -/
structure Covered (b : Buffer DiskStore) : Prop where
  rows_le : b.tally.rows ≤ b.tally.added
  room : b.phase.isOver = false → ∃ n, b.store.HoldsAtMost n ∧ b.tally.rows + n ≤ b.tally.added

theorem Covered.uncounted (h : b.Covered) (hu : b.Uncounted b')
    (hbefore : b'.phase.isOver = false → b.phase.isOver = false) : b'.Covered := by
  refine ⟨hu.tally ▸ h.rows_le, fun hlive => ?_⟩
  obtain hdone | ⟨phase, rfl⟩ := hu.kept
  · rw [hdone] at hlive
    cases hlive
  · exact h.room (hbefore hlive)

theorem Covered.step {r : Report} (h : b.Covered) (hnodup : b.touched.Nodup)
    (ht : b.Tallied r b') (hbefore : b'.phase.isOver = false → b.phase.isOver = false) :
    b'.Covered := by
  cases ht with
  | @takes row path key store _ _ hstore =>
    by_cases hadds : row.change.adds
    · rw [if_pos hadds] at hstore
      rw [Tally.event_of_adds hadds]
      refine ⟨Nat.le_succ_of_le h.rows_le, fun hlive => ?_⟩
      obtain ⟨n, hn, hle⟩ := h.room (hbefore hlive)
      exact ⟨n + 1, hn.put hstore, Nat.succ_le_succ hle⟩
    · rw [if_neg hadds] at hstore
      rw [Tally.event_of_not_adds hadds]
      refine ⟨h.rows_le, fun hlive => ?_⟩
      obtain ⟨n, hn, hle⟩ := h.room (hbefore hlive)
      exact ⟨n, hn.remove hstore, hle⟩
  | @flushes f store phase _ _ hopened _ hf hclear =>
    obtain ⟨n, hn, hle⟩ := h.room (by rw [hopened]; rfl)
    have hfew := hn.rows_le hnodup
    rw [← hf] at hfew
    have htotal : b.tally.rows + f.rows ≤ b.tally.added :=
      Nat.le_trans (Nat.add_le_add_left hfew _) hle
    exact ⟨htotal, fun _ => ⟨0, hn.clear hclear, htotal⟩⟩
  | idles _ _ hopened _ => exact ⟨h.rows_le, fun _ => h.room (by rw [hopened]; rfl)⟩
  | uncounted _ _ hu => exact h.uncounted hu hbefore

theorem History.covered (h : first.History reports b) (hf : first.Fresh)
    (hstore : first.store.HoldsAtMost 0) : b.Covered := by
  have hnodup : first.touched.Nodup := hf.touched ▸ .nil
  induction h with
  | start =>
    refine ⟨?_, fun _ => ⟨0, hstore, ?_⟩⟩
    all_goals
      rw [hf.tally]
      exact Nat.le_refl _
  | @called _ _ b reports sink call hreports ih =>
    have hb := hreports.reached.phase_ne hf.phase_ne
    exact ih.step (hreports.reached.nodup hf.phase_ne hnodup) (tallied_callOn hb sink call)
      (not_isOver_of_callOn hb sink call)
  | reordered _ _ ih => exact ⟨ih.rows_le, ih.room⟩

/-- What a buffer and its store have counted agrees with the calls that were made: the rows that
were taken, the flushes that went well with a row behind the one before, and between two requests to
clear the store the runs that were spilled and merged. -/
theorem statistics_agree_with_history {settings : SpillSettings} {host : Host} {path : String}
    {accessors : List Accessor} {key schema : Schema} {scheme : Partition.Scheme}
    (hs : DiskStore.create settings host path = .ok s)
    (hfirst : create accessors key schema scheme s = .ok first)
    (hb : first.History reports b) :
    b.tally.Counts (reports.filterMap Report.taken?) (Ledger.ofReports reports).due ∧
      b.tally.rows ≤ b.tally.added ∧
      b.tally.partitions ≤ b.tally.added + b.tally.withdrawn ∧
      b.store = Store.performAll s (reports.flatMap Report.requests) ∧
      ∀ front between, front ++ between <+: reports.flatMap Report.requests →
        (front = [] ∨ front.getLast? = some .clear → (Store.performAll s front).runs = []) ∧
        (.clear ∉ between → DiskStore.Balances settings.maxRuns (Store.performAll s front)
          (Store.performAll s (front ++ between))) := by
  have hf := fresh_of_create hfirst
  have haccounts := hb.accounts hf
  obtain ⟨places, -, rfl⟩ := create_eq_ok hfirst
  have hcovered := hb.covered hf (DiskStore.HoldsAtMost.create hs)
  refine ⟨haccounts.counts, hcovered.rows_le,
    Nat.le_trans (Nat.le_add_right _ _) haccounts.partitions, hb.store_eq,
    fun front between _ => ⟨DiskStore.runs_performAll_eq_nil ?_, fun hkept => ?_⟩⟩
  · rw [DiskStore.eq_of_create hs]
  · have hfront := (DiskStore.Undisturbed.create hs).performAll front
    have hsettings : (Store.performAll s front).settings = settings := by
      rw [(DiskStore.onward_performAll s front).settings, DiskStore.eq_of_create hs]
    rw [Store.performAll_append, ← hsettings]
    exact hfront.balances_performAll hkept

theorem statistics_agree_with_history_of_failing_flush :
    ∃ (s : DiskStore) (first b : Buffer DiskStore) (reports : List Report),
      DiskStore.create ⟨"/tmp", 1, 2, 1⟩ Host.plain "/tmp/store" = .ok s ∧
      create [⟨0, .long⟩] ⟨[⟨1, "id", .long, true⟩]⟩ ⟨[⟨1, "id", .long, true⟩]⟩ ⟨⟨[]⟩, []⟩ s =
        .ok first ∧
      first.History reports b ∧
      reports.map Report.call =
        [.start, .process ⟨.insert, [.long 1]⟩, .process ⟨.insert, [.long 2]⟩,
          .process ⟨.delete, [.long 1]⟩, .flush, .process ⟨.insert, [.long 3]⟩, .flush, .close] ∧
      (reports.map (·.result.isOk), b.tally, b.store.tally.runs, b.store.tally.merges) =
        ([true, true, true, true, true, true, false, true], ⟨3, 1, 1, 1, 1⟩, 4, 2) ∧
      b.tally.Counts (reports.filterMap Report.taken?) (Ledger.ofReports reports).due ∧
      b.tally.rows ≤ b.tally.added ∧
      b.tally.partitions ≤ b.tally.added + b.tally.withdrawn ∧
      b.store = Store.performAll s (reports.flatMap Report.requests) ∧
      ∀ front between, front ++ between <+: reports.flatMap Report.requests →
        (front = [] ∨ front.getLast? = some .clear → (Store.performAll s front).runs = []) ∧
        (.clear ∉ between → DiskStore.Balances 2 (Store.performAll s front)
          (Store.performAll s (front ++ between))) := by
  have hs : DiskStore.create ⟨"/tmp", 1, 2, 1⟩ Host.plain "/tmp/store" =
      .ok ⟨⟨"/tmp", 1, 2, 1⟩, "/tmp/store", ∅, ∅, 0, [], 0, .zero⟩ := by cbv
  have hfirst := create_of_numbers
    (⟨⟨"/tmp", 1, 2, 1⟩, "/tmp/store", ∅, ∅, 0, [], 0, .zero⟩ : DiskStore)
  have hb : History ⟨[⟨0, .long⟩], [0], ⟨[⟨1, "id", .long, true⟩]⟩, ⟨⟨[]⟩, []⟩,
      (⟨⟨"/tmp", 1, 2, 1⟩, "/tmp/store", ∅, ∅, 0, [], 0, .zero⟩ : DiskStore), [], .created, .zero⟩
      _ _ :=
    .called RowLog.empty .close <|
      .called (RowLog.mk (some "x") []) .flush <|
      .called RowLog.empty (.process ⟨.insert, [.long 3]⟩) <|
      .called RowLog.empty .flush <|
      .called RowLog.empty (.process ⟨.delete, [.long 1]⟩) <|
      .called RowLog.empty (.process ⟨.insert, [.long 2]⟩) <|
      .called RowLog.empty (.process ⟨.insert, [.long 1]⟩) <|
      .called RowLog.empty .start .start
  exact ⟨_, _, _, _, hs, hfirst, hb, rfl, by decide +kernel,
    statistics_agree_with_history hs hfirst hb⟩

end Buffer

end ChangeBuffer
