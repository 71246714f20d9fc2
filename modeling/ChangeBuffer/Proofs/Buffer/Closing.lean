import ChangeBuffer.Proofs.Buffer.Reach
import ChangeBuffer.Proofs.Buffer.Trace
import ChangeBuffer.Proofs.Store.Clearing

/-! # Closing

A buffer comes to its end after at most three attempts to close it, whatever happens to its files:
the first may fail to flush, and the second to remove the files of runs, but then there are no runs
left.  Only the first makes use of a sink.
-/

namespace ChangeBuffer

def Backend.runs : Backend → List Run
  | memory _ => []
  | disk s => s.runs

namespace Backend

variable {s t : Backend} {result : Except StoreError Unit}

theorem runs_inFolder (s : Backend) (folder : Folder) : (s.inFolder folder).runs = s.runs := by
  cases s <;> rfl

theorem runs_clear (h : Store.clear s = (t, result)) : t.runs = [] := by
  cases s <;> cases h <;> rfl

theorem clear_eq_ok (h : s.runs = []) : ∃ t, Store.clear s = (t, .ok ()) := by
  cases s with
  | memory s => exact ⟨_, rfl⟩
  | disk s =>
    have hclear : s.clear =
        ({ s with folder := s.folder, table := ∅, tableBytes := 0, runs := [] }, .ok ()) := by
      rw [DiskStore.clear, show s.runs = [] from h]
      rfl
    exact ⟨.disk _, congrArg (fun r => (Backend.disk r.1, r.2)) hclear⟩

end Backend

theorem Phase.isOver_next_close {phase : Phase} (h : phase ≠ .flushing) (ok : Bool) :
    (phase.next .close ok).isOver := by
  cases phase with
  | flushing => exact absurd rfl h
  | created | terminated => rfl
  | opened | failed => cases ok <;> rfl

namespace Buffer

variable {τ : Type} [Sink τ] {b b' : Buffer Backend} {sink sink' : τ}
  {result : Except BufferError Flushed}

def inFolder (b : Buffer Backend) (folder : Folder) : Buffer Backend :=
  { b with store := b.store.inFolder folder }

def closeAll (b : Buffer Backend) : List (Folder × τ) → List (Step Backend τ)
  | [] => []
  | (folder, sink) :: attempts =>
    let s := (b.inFolder folder).step .close sink
    s :: closeAll s.after attempts

/-- The buffer has come to its end, or nothing keeps it from it. -/
def Ending (b : Buffer Backend) : Prop :=
  b.phase = .terminated ∨ b.phase = .failed ∧ b.store.runs = []

theorem Ending.inFolder (h : b.Ending) (folder : Folder) : (b.inFolder folder).Ending := by
  obtain hphase | ⟨hphase, hruns⟩ := h
  · exact .inl hphase
  · exact .inr ⟨hphase, (Backend.runs_inFolder b.store folder).trans hruns⟩

theorem ending_of_close (hb : b.phase.isOver) (h : b.close sink = (b', sink', result)) :
    b'.Ending := by
  unfold close at h
  split at h
  next hterminated =>
    cases h
    exact .inl hterminated
  next hphase => simp [hphase, Phase.isOver] at hb
  next hphase => simp [hphase, Phase.isOver] at hb
  next hphase => simp [hphase, Phase.isOver] at hb
  next hfailed =>
    unfold abandon at h
    rcases hclear : Store.clear b.store with ⟨store, e | ⟨⟩⟩ <;> rw [hclear] at h
    · cases h
      exact .inr ⟨hfailed, Backend.runs_clear hclear⟩
    · cases h
      exact .inl rfl

theorem Ending.terminated_of_close (hb : b.Ending) (h : b.close sink = (b', sink', result)) :
    b'.phase = .terminated := by
  obtain hphase | ⟨hphase, hruns⟩ := hb
  · rw [close, hphase] at h
    cases h
    exact hphase
  · obtain ⟨store, hclear⟩ := Backend.clear_eq_ok hruns
    simp only [close, hphase, abandon, hclear] at h
    cases h
    rfl

variable {attempts : List (Folder × τ)}

theorem close_of_step (hb : b.phase ≠ .flushing) (sink : τ) :
    b.close sink =
      ((b.step .close sink).after, (b.step .close sink).left, (b.step .close sink).result) :=
  (orderly_step hb .close sink).made

theorem asked_of_mem_closeAll (hb : b.phase.isOver) :
    ∀ s ∈ b.closeAll attempts, s.asked = [] := by
  induction attempts generalizing b with
  | nil => simp [closeAll]
  | cons attempt attempts ih =>
    obtain ⟨folder, sink⟩ := attempt
    have hne := Phase.ne_flushing (Phase.isStarted_of_isOver hb)
    have hfirst := orderly_step (b := b.inFolder folder) hne .close sink
    intro s hs
    rcases List.mem_cons.mp hs with rfl | hs
    · exact hfirst.silent (Phase.ne_opened hb)
    · exact ih (hfirst.phase ▸ Phase.isOver_next_close hne _) s hs

theorem Ending.terminated_of_mem_closeAll (hb : b.Ending) :
    ∀ s ∈ b.closeAll attempts, s.after.phase = .terminated := by
  induction attempts generalizing b with
  | nil => simp [closeAll]
  | cons attempt attempts ih =>
    obtain ⟨folder, sink⟩ := attempt
    have hne : (b.inFolder folder).phase ≠ .flushing := by
      obtain hphase | ⟨hphase, -⟩ := hb.inFolder folder <;> simp [hphase]
    have hended := (hb.inFolder folder).terminated_of_close (close_of_step hne sink)
    intro s hs
    rcases List.mem_cons.mp hs with rfl | hs
    · exact hended
    · exact ih (.inl hended) s hs

/-- Only the first attempt to close a buffer makes use of a sink, and the third ends it at the
latest. -/
theorem closeAll_ends (hb : b.phase ≠ .flushing) (attempts : List (Folder × τ)) :
    (∀ s ∈ (b.closeAll attempts).drop 1, s.asked = []) ∧
      ∀ s ∈ (b.closeAll attempts).drop 2, s.after.phase = .terminated := by
  match attempts with
  | [] => simp [closeAll]
  | (folder, sink) :: rest =>
    have hover : ((b.inFolder folder).step .close sink).after.phase.isOver := by
      rw [(orderly_step (b := b.inFolder folder) hb .close sink).phase]
      exact Phase.isOver_next_close hb _
    refine ⟨asked_of_mem_closeAll hover, ?_⟩
    match rest with
    | [] => simp [closeAll]
    | (folder', sink') :: rest =>
      have hne := Phase.ne_flushing (Phase.isStarted_of_isOver hover)
      have hclose := close_of_step (b := Buffer.inFolder _ folder') hne sink'
      have hending := ending_of_close (b := Buffer.inFolder _ folder') hover hclose
      exact hending.terminated_of_mem_closeAll

end Buffer

/-- Whether it goes well or fails, clearing a store makes it as good as new, whatever has become of
its files.  So every buffer that can be reached over a store, with whatever sinks and whatever
happens to the files, comes to its end after at most three attempts to close it, and only the first
of them makes use of a sink. -/
theorem clear_begins_afresh_and_close_ends :
    (∀ (s t : DiskStore) (result : Except StoreError Unit), s.clear = (t, result) →
      t.Afresh ∧ t.nextRun = s.nextRun) ∧
    ∀ (store : Backend) (accessors : List Accessor) (key schema : Schema)
      (scheme : Partition.Scheme) (first b : Buffer Backend),
      Buffer.create accessors key schema scheme store = .ok first →
      first.Reached (fun _ => True) Backend.Disturbed b →
      ∀ (τ : Type) [Sink τ] (attempts : List (Folder × τ)),
        (∀ s ∈ (b.closeAll attempts).drop 1, s.asked = []) ∧
          ∀ s ∈ (b.closeAll attempts).drop 2, s.after.phase = .terminated := by
  refine ⟨fun s t result => DiskStore.afresh_of_clear, ?_⟩
  intro store accessors key schema scheme first b hfirst hb τ _ attempts
  obtain ⟨places, -, rfl⟩ := Buffer.create_eq_ok hfirst
  exact Buffer.closeAll_ends (hb.phase_ne (by simp)) attempts

theorem clear_begins_afresh_and_close_ends_of_directory :
    (∃ s t : DiskStore, s.folder.find? "run-00000000.spill" = some .directory ∧
      s.runs.map Run.name = ["run-00000000.spill"] ∧
      s.clear = (t, .error (.file .isDirectory)) ∧
      t.folder.find? "run-00000000.spill" = some .directory ∧ t.Afresh ∧ t.nextRun = s.nextRun) ∧
    ∃ (store : Backend) (first b : Buffer Backend) (blocked : Folder),
      Backend.create ⟨.disk, ⟨"/tmp", 1, 3, 1⟩, 8⟩ Host.plain "/tmp/store" = .ok store ∧
      Buffer.create [⟨0, .long⟩] ⟨[⟨1, "id", .long, true⟩]⟩ ⟨[⟨1, "id", .long, true⟩]⟩ ⟨⟨[]⟩, []⟩
        store = .ok first ∧
      first.Reached (fun _ => True) Backend.Disturbed b ∧
      (b.closeAll [(blocked, RowLog.empty), (blocked, .empty), (blocked, .empty)]).map
          (fun s => (s.after.phase, s.result, s.asked)) =
        [(.failed, .error (.store (.corrupted "/tmp/store/run-00000000.spill"
            (.unreadableHeader .isDirectory))), [.enter ""]),
          (.failed, .error (.store (.file .isDirectory)), []), (.terminated, .ok .nothing, [])] ∧
      (∀ s ∈ (b.closeAll [(blocked, RowLog.empty), (blocked, .empty), (blocked, .empty)]).drop 1,
        s.asked = []) ∧
      ∀ s ∈ (b.closeAll [(blocked, RowLog.empty), (blocked, .empty), (blocked, .empty)]).drop 2,
        s.after.phase = .terminated := by
  have hfirst := Buffer.create_of_numbers
    (Backend.disk ⟨⟨"/tmp", 1, 3, 1⟩, "/tmp/store", ∅, ∅, 0, [], 0, .zero⟩)
  obtain ⟨b, hb, hsteps⟩ : ∃ b : Buffer Backend,
      Buffer.Reached (fun _ => True) Backend.Disturbed ⟨[⟨0, .long⟩], [0],
        ⟨[⟨1, "id", .long, true⟩]⟩, ⟨⟨[]⟩, []⟩,
        .disk ⟨⟨"/tmp", 1, 3, 1⟩, "/tmp/store", ∅, ∅, 0, [], 0, .zero⟩, [], .created, .zero⟩ b ∧
      (b.closeAll [(SortedMap.insert ∅ "run-00000000.spill" Node.directory, RowLog.empty),
          (SortedMap.insert ∅ "run-00000000.spill" Node.directory, .empty),
          (SortedMap.insert ∅ "run-00000000.spill" Node.directory, .empty)]).map
          (fun s => (s.after.phase, s.result, s.asked)) =
        [(.failed, .error (.store (.corrupted "/tmp/store/run-00000000.spill"
            (.unreadableHeader .isDirectory))), [.enter ""]),
          (.failed, .error (.store (.file .isDirectory)), []), (.terminated, .ok .nothing, [])] := by
    refine ⟨_, .after (.after .start .start trivial RowLog.empty)
      (.process ⟨.insert, [.long 1]⟩) trivial RowLog.empty, ?_⟩
    rfl
  have hrun : (DiskStore.mk ⟨"/tmp", 1, 3, 1⟩ "/tmp/store"
      (SortedMap.insert ∅ "run-00000000.spill" Node.directory) ∅ 0
      [⟨"run-00000000.spill", 1, 32, []⟩] 1 ⟨1, 32, 0⟩).clear =
        (⟨⟨"/tmp", 1, 3, 1⟩, "/tmp/store",
          SortedMap.insert ∅ "run-00000000.spill" Node.directory, ∅, 0, [], 1, ⟨1, 32, 0⟩⟩,
          .error (.file .isDirectory)) := rfl
  exact ⟨⟨_, _, rfl, rfl, hrun, rfl, clear_begins_afresh_and_close_ends.1 _ _ _ hrun⟩, _, _, b, _,
    Backend.create_plain, hfirst, hb, hsteps,
    clear_begins_afresh_and_close_ends.2 _ _ _ _ _ _ _ hfirst hb _ _⟩

end ChangeBuffer
