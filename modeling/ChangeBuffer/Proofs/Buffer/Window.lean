import ChangeBuffer.Proofs.Buffer.Survivors
import ChangeBuffer.Proofs.Store.Lawful

/-! # Windows of buffers

The store of a buffer holds the rows that survive of those since the last flush, each under its
bytes, and the touched paths are those of all rows since then.  A flush delivers these survivors
and begins with an empty window again.
-/

namespace ChangeBuffer

section Emission

variable {σ τ : Type} [Store σ] [LawfulStore σ] [Sink τ] [LawfulSink τ]
  {store : σ} {m : SortedMap Bytes Row} {first sink sink' : τ} {blocks : List Block}
  {path : String}

def SortedMap.block (m : SortedMap Bytes Row) (path : String) : Block where
  path := path
  rows :=
    match EntryKey.stem path with
    | .error _ => []
    | .ok stem => (m.entries.filter (stem.isPrefixOf ·.1)).map Prod.snd

def Flushed.ofBlocks (blocks : List Block) : Flushed :=
  ⟨blocks.length, (blocks.map (·.rows.length)).sum⟩

namespace Buffer

theorem handOver_eq_ok {rows : List Row} {pairs : List (Bytes × Row)} {n : Nat}
    (h : LawfulSink.Receiving first sink blocks path rows)
    (hr : handOver sink (pairs.map .ok) = (sink', .ok n)) :
    LawfulSink.Receiving first sink' blocks path (rows ++ pairs.map Prod.snd) ∧
      n = pairs.length := by
  induction pairs generalizing sink rows n with
  | nil =>
    obtain ⟨rfl, hn⟩ := Prod.mk.inj hr
    exact ⟨by simpa using h, (Except.ok.inj hn).symm⟩
  | cons p pairs ih =>
    rw [List.map_cons, handOver] at hr
    split at hr
    · cases hr
    next next haccept =>
      split at hr
      · cases hr
      next last k hlast =>
        obtain ⟨rfl, hn⟩ := Prod.mk.inj hr
        obtain ⟨hreceiving, rfl⟩ := ih (LawfulSink.accept h haccept) hlast
        refine ⟨by simpa using hreceiving, (Except.ok.inj hn).symm⟩

theorem emitPartition_eq_ok {n : Nat} (hm : LawfulStore.Holds store m)
    (h : LawfulSink.Received first sink blocks)
    (hr : emitPartition store sink path = (sink', .ok n)) :
    LawfulSink.Received first sink' (blocks ++ [m.block path]) ∧
      n = (m.block path).rows.length := by
  unfold emitPartition at hr
  split at hr
  · cases hr
  next entered henter =>
    split at hr
    · cases hr
    next items hitems =>
      obtain ⟨pairs, rfl, hrows⟩ : ∃ pairs : List (Bytes × Row),
          items = pairs.map .ok ∧ (m.block path).rows = pairs.map Prod.snd := by
        unfold partitionRows at hitems
        split at hitems
        · cases hitems
        next stem hstem =>
          rw [LawfulStore.scan stem hm] at hitems
          exact ⟨_, (Except.ok.inj hitems).symm, by rw [SortedMap.block, hstem]⟩
      split at hr
      · cases hr
      next filled k hfilled =>
        split at hr
        · cases hr
        next left hleave =>
          obtain ⟨rfl, hn⟩ := Prod.mk.inj hr
          obtain ⟨hreceiving, rfl⟩ := handOver_eq_ok (LawfulSink.enter h henter) hfilled
          have hreceived := LawfulSink.leave hreceiving hleave
          rw [List.nil_append, ← hrows] at hreceived
          exact ⟨hreceived, by rw [hrows, List.length_map, Except.ok.inj hn]⟩

theorem emit_eq_ok {paths : List String} {f : Flushed} (hm : LawfulStore.Holds store m)
    (h : LawfulSink.Received first sink blocks)
    (hr : emit store sink paths = (sink', .ok f)) :
    LawfulSink.Received first sink' (blocks ++ paths.map m.block) ∧
      f = .ofBlocks (paths.map m.block) := by
  induction paths generalizing sink blocks f with
  | nil =>
    obtain ⟨rfl, hf⟩ := Prod.mk.inj hr
    exact ⟨by simpa using h, (Except.ok.inj hf).symm⟩
  | cons path paths ih =>
    rw [emit] at hr
    split at hr
    · cases hr
    next next n hnext =>
      split at hr
      · cases hr
      next last f' hlast =>
        obtain ⟨rfl, hf⟩ := Prod.mk.inj hr
        obtain ⟨hreceived, rfl⟩ := emitPartition_eq_ok hm h hnext
        obtain ⟨hreceived, rfl⟩ := ih hreceived hlast
        refine ⟨by simpa using hreceived, ?_⟩
        rw [← Except.ok.inj hf]
        simp [Flushed.ofBlocks, Nat.add_comm]

end Buffer

end Emission

/-- What a buffer holds of the rows since the last flush. -/
structure Tracks {σ : Type} [Store σ] [LawfulStore σ] (b : Buffer σ) (window : List Row) :
    Prop where
  rows : ∃ m, LawfulStore.Holds b.store m ∧ ∀ key row,
    (key, row) ∈ m.entries ↔ b.keying.Under row key ∧ b.keying.Survives window row
  nodup : b.touched.Nodup
  touched : ∀ path, path ∈ b.touched ↔ ∃ row ∈ window, b.scheme.path row = .ok path
  located : ∀ row ∈ window, row.Sized ∧
    ∃ path bytes, b.scheme.path row = .ok path ∧ b.keying.Under row bytes

namespace Buffer

variable {σ : Type}

theorem apply_eq_ok [Store σ] {b b' : Buffer σ} {row : Row} (h : b.apply row = (b', .ok ())) :
    ∃ path key store, b.locate row = .ok (path, key) ∧
      (if row.change.adds then Store.put b.store key row else Store.remove b.store key) =
        (store, .ok ()) ∧
      b' = { b with
        store
        touched := b.touch path
        tally := b.tally.event row.change } := by
  unfold apply at h
  split at h
  · cases h
  split at h
  · cases h
  next path key hlocate =>
    simp only at h
    split at h
    · cases h
    next store hstore =>
      exact ⟨path, key, store, hlocate, hstore, (Prod.mk.inj h).1.symm⟩

theorem mem_touch {b : Buffer σ} {path path' : String} :
    path' ∈ b.touch path ↔ path' ∈ b.touched ∨ path' = path := by
  unfold touch
  split
  next hmem => exact ⟨Or.inl, fun h => h.elim id fun he => he ▸ hmem⟩
  next => simp

theorem nodup_touch {b : Buffer σ} (h : b.touched.Nodup) (path : String) :
    (b.touch path).Nodup := by
  unfold touch
  split
  · exact h
  next hmem =>
    refine List.nodup_append.mpr ⟨h, by simp, fun path' hp other ho => ?_⟩
    rintro rfl
    exact hmem (List.mem_singleton.mp ho ▸ hp)

end Buffer

namespace Tracks

variable {σ τ : Type} [Store σ] [LawfulStore σ] [Sink τ] [LawfulSink τ] {b b' : Buffer σ}
  {window : List Row} {row : Row} {m : SortedMap Bytes Row}

/-- The store holds what is left of the old rows, and the new row if it adds. -/
theorem rows_apply (h : Tracks b window) {key : Bytes} {store : σ} (hr : row.Sized)
    (hunder : b.keying.Under row key)
    (hstore : (if row.change.adds then Store.put b.store key row else Store.remove b.store key) =
      (store, .ok ())) :
    ∃ m, LawfulStore.Holds store m ∧ ∀ bytes r,
      (bytes, r) ∈ m.entries ↔ b.keying.Under r bytes ∧ b.keying.Survives (window ++ [row]) r := by
  obtain ⟨m, hm, hrows⟩ := h.rows
  obtain ⟨m', hm', hmem⟩ : ∃ m', LawfulStore.Holds store m' ∧ ∀ bytes r,
      (bytes, r) ∈ m'.entries ↔
        row.change.adds ∧ (bytes, r) = (key, row) ∨ (bytes, r) ∈ m.entries ∧ bytes ≠ key := by
    by_cases hadds : row.change.adds
    · rw [if_pos hadds] at hstore
      exact ⟨_, LawfulStore.put hm hr hstore, fun bytes r => by
        rw [SortedMap.mem_entries_insert, and_iff_right hadds]⟩
    · rw [if_neg hadds] at hstore
      exact ⟨_, LawfulStore.remove hm hstore, fun bytes r => by
        rw [SortedMap.mem_entries_erase, or_iff_right fun h => hadds h.1]⟩
  refine ⟨m', hm', fun bytes r => ?_⟩
  have heq (hsurvives : b.keying.Survives window r) (hbytes : b.keying.Under r bytes) :
      bytes ≠ key ↔ b.keying.entryKey row ≠ b.keying.entryKey r :=
    not_congr ((hbytes.eq_iff (h.located r hsurvives.mem).1 hr hunder).trans eq_comm)
  rw [hmem, hrows, Keying.survives_append_singleton]
  constructor
  · rintro (⟨hadds, he⟩ | ⟨⟨hbytes, hsurvives⟩, hne⟩)
    · obtain ⟨rfl, rfl⟩ := Prod.mk.inj he
      exact ⟨hunder, Or.inl ⟨rfl, hadds⟩⟩
    · exact ⟨hbytes, Or.inr ⟨(heq hsurvives hbytes).mp hne, hsurvives⟩⟩
  · rintro ⟨hbytes, ⟨rfl, hadds⟩ | ⟨hne, hsurvives⟩⟩
    · exact Or.inl ⟨hadds, by rw [hbytes.unique hunder]⟩
    · exact Or.inr ⟨⟨hbytes, hsurvives⟩, (heq hsurvives hbytes).mpr hne⟩

theorem apply (h : Tracks b window) (hr : row.Sized) (ha : b.apply row = (b', .ok ())) :
    Tracks b' (window ++ [row]) ∧ b'.keying = b.keying ∧ b'.phase = b.phase := by
  obtain ⟨path, key, store, hlocate, hstore, rfl⟩ := Buffer.apply_eq_ok ha
  obtain ⟨hpath, hunder⟩ := Buffer.locate_eq_ok hlocate
  refine ⟨⟨h.rows_apply hr hunder hstore, Buffer.nodup_touch h.nodup path, fun path' => ?_,
    fun r hmem => ?_⟩, rfl, rfl⟩
  · rw [Buffer.mem_touch, h.touched]
    constructor
    · rintro (⟨r, hmem, hp⟩ | rfl)
      · exact ⟨r, List.mem_append_left _ hmem, hp⟩
      · exact ⟨row, List.mem_append_right _ (List.mem_singleton.mpr rfl), hpath⟩
    · rintro ⟨r, hmem, hp⟩
      rcases List.mem_append.mp hmem with hmem | hmem
      · exact Or.inl ⟨r, hmem, hp⟩
      · rw [List.mem_singleton.mp hmem] at hp
        exact Or.inr (Except.ok.inj (hp.symm.trans hpath))
  · rcases List.mem_append.mp hmem with hmem | hmem
    · exact h.located r hmem
    · rw [List.mem_singleton.mp hmem]
      exact ⟨hr, path, key, hpath, hunder⟩

theorem exists_stem (h : Tracks b window) {path : String} (hp : path ∈ b.touched) :
    ∃ stem, EntryKey.stem path = .ok stem := by
  obtain ⟨row, hrow, hpath⟩ := (h.touched path).mp hp
  obtain ⟨-, -, bytes, -, e, he, hbytes⟩ := h.located row hrow
  obtain ⟨stem, hstem, -⟩ := EntryKey.encode_eq hbytes
  have he := (Keying.entryKey_eq_ok.mp he).1
  obtain rfl : path = e.path := Except.ok.inj (hpath.symm.trans he)
  exact ⟨stem, hstem⟩

theorem delivers (h : Tracks b window) (hrows : ∀ key row,
    (key, row) ∈ m.entries ↔ b.keying.Under row key ∧ b.keying.Survives window row) :
    b.keying.Delivers window (b.touched.map m.block) where
  nodup := by
    rw [List.map_map]
    exact (List.map_id b.touched).symm ▸ h.nodup
  paths path := by
    rw [List.map_map]
    exact (List.map_id b.touched).symm ▸ h.touched path
  rows block hblock row := by
    obtain ⟨path, hp, rfl⟩ := List.mem_map.mp hblock
    obtain ⟨stem, hstem⟩ := h.exists_stem hp
    simp only [SortedMap.block, hstem, List.mem_map, List.mem_filter, List.isPrefixOf_iff_prefix]
    constructor
    · rintro ⟨⟨bytes, row⟩, ⟨hmem, hprefix⟩, rfl⟩
      obtain ⟨hunder, hsurvives⟩ := (hrows bytes row).mp hmem
      exact ⟨(hunder.stem_prefix_iff hstem).mp hprefix, hsurvives⟩
    · rintro ⟨hpath, hsurvives⟩
      obtain ⟨-, -, bytes, -, hunder⟩ := h.located row hsurvives.mem
      exact ⟨(bytes, row), ⟨(hrows bytes row).mpr ⟨hunder, hsurvives⟩,
        (hunder.stem_prefix_iff hstem).mpr hpath⟩, rfl⟩
  ascending block hblock := by
    obtain ⟨path, hp, rfl⟩ := List.mem_map.mp hblock
    obtain ⟨stem, hstem⟩ := h.exists_stem hp
    simp only [SortedMap.block, hstem, List.pairwise_map]
    refine (m.ascending.filter _).imp_of_mem fun hd he hlt => ?_
    have hd := ((hrows _ _).mp (List.mem_filter.mp hd).1).1
    have he := ((hrows _ _).mp (List.mem_filter.mp he).1).1
    exact ⟨_, _, hd, he, hlt⟩

/-- Draining delivers the survivors and leaves an empty window. -/
theorem drain {first sink sink' : τ} {f : Flushed} (h : Tracks b window)
    (hs : LawfulSink.Received first sink []) (hd : b.drain sink = (b', sink', .ok f)) :
    ∃ blocks, b.keying.Delivers window blocks ∧ LawfulSink.Received first sink' blocks ∧
      f = .ofBlocks blocks ∧ Tracks b' [] ∧ b'.keying = b.keying ∧ b'.phase = b.phase := by
  obtain ⟨m, hm, hrows⟩ := h.rows
  have hdelivers := h.delivers hrows
  unfold Buffer.drain at hd
  split at hd
  next hempty =>
    simp only [Prod.mk.injEq, Except.ok.injEq] at hd
    obtain ⟨rfl, rfl, rfl⟩ := hd
    have htouched : b.touched = [] := List.isEmpty_iff.mp hempty
    have hwindow : window = [] := by
      refine List.eq_nil_iff_forall_not_mem.mpr fun row hrow => ?_
      obtain ⟨-, path, -, hpath, -⟩ := h.located row hrow
      have hmem := (h.touched path).mpr ⟨row, hrow, hpath⟩
      simp [htouched] at hmem
    rw [htouched] at hdelivers
    exact ⟨[], hdelivers, hs, rfl, hwindow ▸ h, rfl, rfl⟩
  next =>
    split at hd
    · cases hd
    next filled f' hemit =>
      split at hd
      · cases hd
      next store hclear =>
        simp only [Prod.mk.injEq, Except.ok.injEq] at hd
        obtain ⟨rfl, rfl, rfl⟩ := hd
        obtain ⟨hreceived, hf⟩ := Buffer.emit_eq_ok hm hs hemit
        refine ⟨_, hdelivers, hreceived, hf, ⟨?_, .nil, by simp, by simp⟩, rfl, rfl⟩
        refine ⟨∅, LawfulStore.clear hm hclear, fun key row => ?_⟩
        exact iff_of_false SortedMap.not_mem_empty fun h => Keying.not_survives_nil h.2

theorem reordered (h : Tracks b window) {touched : List String} (hperm : b.touched.Perm touched) :
    Tracks { b with touched } window :=
  ⟨h.rows, hperm.nodup h.nodup, fun path => hperm.mem_iff.symm.trans (h.touched path), h.located⟩

theorem withPhase (h : Tracks b window) (phase : Phase) : Tracks { b with phase } window :=
  ⟨h.rows, h.nodup, h.touched, h.located⟩

end Tracks

end ChangeBuffer
