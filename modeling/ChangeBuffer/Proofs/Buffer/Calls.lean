import ChangeBuffer.Proofs.Buffer.Window

/-! # Calls of buffers

A buffer that has not failed keeps track of its window through every call that succeeds.  Flushing
and closing deliver the survivors of the window and begin an empty one.
-/

namespace ChangeBuffer

theorem Buffer.create_eq_ok {σ : Type} {accessors : List Accessor} {key schema : Schema}
    {scheme : Partition.Scheme} {store : σ} {b : Buffer σ}
    (h : create accessors key schema scheme store = .ok b) :
    ∃ places, KeyColumns.resolve key schema accessors.length = .ok places ∧
      b = ⟨accessors, places, schema, scheme, store, [], .created, .zero⟩ := by
  unfold create at h
  cases hplaces : KeyColumns.resolve key schema accessors.length with
  | error e => simp [hplaces, Except.map] at h
  | ok places =>
    rw [hplaces] at h
    exact ⟨places, rfl, (Except.ok.inj h).symm⟩

/-- A buffer that has not failed and is between calls.  Only an open one has taken rows. -/
structure Live {σ : Type} [Store σ] [LawfulStore σ] (b : Buffer σ) (window : List Row) : Prop
    extends Tracks b window where
  phase : b.phase = .opened ∨ window = [] ∧ (b.phase = .created ∨ b.phase = .terminated)

namespace Live

variable {σ τ : Type} [Store σ] [LawfulStore σ] [Sink τ] [LawfulSink τ] {b b' : Buffer σ}
  {window : List Row} {row : Row} {first sink sink' : τ} {f : Flushed}

theorem create {accessors : List Accessor} {key schema : Schema} {scheme : Partition.Scheme}
    {store : σ} (hs : LawfulStore.Holds store ∅)
    (hb : Buffer.create accessors key schema scheme store = .ok b) : Live b [] := by
  obtain ⟨places, -, rfl⟩ := Buffer.create_eq_ok hb
  refine ⟨⟨⟨∅, hs, fun bytes row => ?_⟩, .nil, by simp, by simp⟩, Or.inr ⟨rfl, Or.inl rfl⟩⟩
  exact iff_of_false SortedMap.not_mem_empty fun h => Keying.not_survives_nil h.2

theorem start (h : Live b window) (hb : b.start = (b', .ok ())) :
    Live b' window ∧ b'.keying = b.keying := by
  unfold Buffer.start at hb
  split at hb
  · obtain rfl := (Prod.mk.inj hb).1
    exact ⟨⟨h.withPhase .opened, Or.inl rfl⟩, rfl⟩
  · cases hb

theorem process (h : Live b window) (hr : row.Sized) (hb : b.process row = (b', .ok ())) :
    Live b' (window ++ [row]) ∧ b'.keying = b.keying := by
  unfold Buffer.process at hb
  split at hb
  next hphase =>
    split at hb
    · cases hb
    next taken happly =>
      obtain rfl := (Prod.mk.inj hb).1
      obtain ⟨htracks, hkeying, hphase'⟩ := h.apply hr happly
      exact ⟨⟨htracks, Or.inl (hphase'.trans hphase)⟩, hkeying⟩
  · cases hb

/-- A flush delivers the survivors and leaves an empty window. -/
theorem flush (h : Live b window) (hs : LawfulSink.Received first sink [])
    (hb : b.flush sink = (b', sink', .ok f)) :
    ∃ blocks, b.keying.Delivers window blocks ∧ LawfulSink.Received first sink' blocks ∧
      f = .ofBlocks blocks ∧ Live b' [] ∧ b'.keying = b.keying := by
  unfold Buffer.flush at hb
  split at hb
  next hphase =>
    split at hb
    · cases hb
    next drained filled f' hdrain =>
      simp only [Prod.mk.injEq, Except.ok.injEq] at hb
      obtain ⟨rfl, rfl, rfl⟩ := hb
      obtain ⟨blocks, hdelivers, hreceived, hf, htracks, hkeying, -⟩ :=
        (h.withPhase .flushing).drain hs hdrain
      exact ⟨blocks, hdelivers, hreceived, hf, ⟨htracks.withPhase .opened, Or.inl rfl⟩, hkeying⟩
  · cases hb

theorem close (h : Live b window) (hs : LawfulSink.Received first sink [])
    (hb : b.close sink = (b', sink', .ok f)) :
    ∃ blocks, b.keying.Delivers window blocks ∧ LawfulSink.Received first sink' blocks ∧
      f = .ofBlocks blocks ∧ Live b' [] ∧ b'.keying = b.keying := by
  have hidle (hw : window = []) (hlive : Live b' []) (hk : b'.keying = b.keying)
      (hsink : sink = sink') (hf : Flushed.nothing = f) :
      ∃ blocks, b.keying.Delivers window blocks ∧ LawfulSink.Received first sink' blocks ∧
        f = .ofBlocks blocks ∧ Live b' [] ∧ b'.keying = b.keying := by
    subst hw hsink hf
    exact ⟨[], .nil, hs, rfl, hlive, hk⟩
  unfold Buffer.close at hb
  split at hb
  next hphase =>
    simp only [Prod.mk.injEq, Except.ok.injEq] at hb
    obtain ⟨rfl, hsink, hf⟩ := hb
    obtain ⟨hw, -⟩ := h.phase.resolve_left (by simp [hphase])
    exact hidle hw (hw ▸ h) rfl hsink hf
  next hphase =>
    simp only [Prod.mk.injEq, Except.ok.injEq] at hb
    obtain ⟨rfl, hsink, hf⟩ := hb
    obtain ⟨hw, -⟩ := h.phase.resolve_left (by simp [hphase])
    exact hidle hw ⟨hw ▸ h.withPhase .terminated, Or.inr ⟨rfl, Or.inr rfl⟩⟩ rfl hsink hf
  next hphase =>
    split at hb
    · cases hb
    next flushed filled f' hflush =>
      simp only [Prod.mk.injEq, Except.ok.injEq] at hb
      obtain ⟨rfl, rfl, rfl⟩ := hb
      obtain ⟨blocks, hdelivers, hreceived, hf, hlive, hkeying⟩ := h.flush hs hflush
      exact ⟨blocks, hdelivers, hreceived, hf,
        ⟨hlive.withPhase .terminated, Or.inr ⟨rfl, Or.inr rfl⟩⟩, hkeying⟩
  all_goals
    next hphase =>
      have hphase' := h.phase
      simp [hphase] at hphase'

end Live

end ChangeBuffer
