import ChangeBuffer.Proofs.Decimal.Numeral
import ChangeBuffer.Proofs.Run.Writing
import ChangeBuffer.Store.Disk

/-! # Files of a store

Runs are written to files of their own and removed from them.  A run is written exactly if the store
has room, no directory stands in its way and the entries fit, and removing runs removes their files
and nothing else.
-/

namespace ChangeBuffer

namespace Folder

variable {f : Folder} {name : String}

theorem exists_discard (h : f.find? name ≠ some .directory) :
    ∃ g : Folder, f.discard name = .ok g ∧
      ∀ other, g.find? other = if other = name then none else f.find? other := by
  unfold discard remove
  match hn : f.find? name with
  | none =>
    refine ⟨f, rfl, fun other => ?_⟩
    split
    next he => rw [he, hn]
    next => rfl
  | some .directory => exact absurd hn h
  | some (.file content) => exact ⟨f.erase name, rfl, fun other => SortedMap.find?_erase⟩

end Folder

namespace DiskStore

theorem runName_inj {m n : Nat} (h : runName m = runName n) : m = n := by
  simp only [runName, String.append_left_inj, String.append_right_inj, String.ofList_inj] at h
  exact Numeral.padded_inj h

theorem hasRoomFor_congr {s t : DiskStore} (h : t.settings = s.settings) (n : Nat) :
    t.hasRoomFor n = s.hasRoomFor n := by
  rw [hasRoomFor, hasRoomFor, h]

theorem hasRoom_congr {s t : DiskStore} (h : t.settings = s.settings)
    (hnext : t.nextRun = s.nextRun) : t.hasRoom = s.hasRoom := by
  rw [hasRoom, hasRoomFor_congr h, hnext, hasRoom]

/-- What comes of an operation: `post` if it goes well, and it fails only if it is not
`possible`. -/
def Attempt {α : Type} (possible : Prop) (post : DiskStore → α → Prop) :
    DiskStore × Except StoreError α → Prop
  | (t, .ok a) => post t a
  | (_, .error _) => ¬ possible

variable {s t : DiskStore} {es : List Entry}

theorem Attempt.of_eq_ok {α : Type} {possible : Prop} {post : DiskStore → α → Prop}
    {result : DiskStore × Except StoreError α} {a : α} (h : Attempt possible post result)
    (hr : result = (t, .ok a)) : post t a := by
  rw [hr] at h
  exact h

theorem Attempt.exists_ok {α : Type} {possible : Prop} {post : DiskStore → α → Prop}
    {result : DiskStore × Except StoreError α} (h : Attempt possible post result)
    (hp : possible) : ∃ t a, result = (t, .ok a) ∧ post t a := by
  obtain ⟨t, error | a⟩ := result
  · exact absurd hp h
  · exact ⟨t, a, rfl, h⟩

/-- The folder is that of the store, but for a file under the name of the next run. -/
def Wrote (s : DiskStore) (folder : Folder) : Prop :=
  folder = s.folder ∨ ∃ content, folder = s.folder.insert (runName s.nextRun) (.file content)

theorem Wrote.find?_eq {folder : Folder} (h : s.Wrote folder) {name : String}
    (hne : name ≠ runName s.nextRun) : folder.find? name = s.folder.find? name := by
  rcases h with rfl | ⟨content, rfl⟩
  · rfl
  · rw [SortedMap.find?_insert, if_neg hne]

theorem Wrote.find?_ne_directory {folder : Folder} (h : s.Wrote folder) {name : String}
    (hdir : s.folder.find? name ≠ some .directory) : folder.find? name ≠ some .directory := by
  rcases h with rfl | ⟨content, rfl⟩
  · exact hdir
  · rw [SortedMap.find?_insert]
    split
    · simp
    · exact hdir

theorem writeRun_eq {items : List (Except StoreError Entry)} {w : RunWriter}
    {result : Except StoreError Unit} (hdir : s.folder.find? (runName s.nextRun) ≠ some .directory)
    (hw : (RunWriter.create (s.filePath (runName s.nextRun)) s.settings.indexInterval).appendAll
      items = (w, result)) :
    s.writeRun items =
      if s.hasRoom then
        ({ s with
            nextRun := s.nextRun + 1
            folder := s.folder.insert (runName s.nextRun) (.file w.content) },
          result.map fun _ => w.finish (runName s.nextRun))
      else ({ s with nextRun := s.nextRun + 1 }, .error (.file .nameTooLong)) := by
  simp only [writeRun, hw, Folder.write_eq hdir]

theorem writeRun_of_directory (hdir : s.folder.find? (runName s.nextRun) = some .directory)
    (items : List (Except StoreError Entry)) :
    ∃ e, s.writeRun items = ({ s with nextRun := s.nextRun + 1 }, .error e) := by
  simp only [writeRun, Folder.write, hdir]
  split
  · exact ⟨_, rfl⟩
  · exact ⟨_, rfl⟩

/-- Whatever becomes of a run, its number is used up, and no other file is touched. -/
theorem exists_writeRun (s : DiskStore) (items : List (Except StoreError Entry)) :
    ∃ folder result, s.writeRun items = ({ s with nextRun := s.nextRun + 1, folder }, result) ∧
      s.Wrote folder ∧ ∀ run, result = .ok run → run.name = runName s.nextRun := by
  by_cases hdir : s.folder.find? (runName s.nextRun) = some .directory
  · obtain ⟨e, he⟩ := writeRun_of_directory hdir items
    refine ⟨s.folder, .error e, he, .inl rfl, ?_⟩
    rintro run ⟨⟩
  generalize hw : (RunWriter.create (s.filePath (runName s.nextRun))
    s.settings.indexInterval).appendAll items = taken
  obtain ⟨w, result⟩ := taken
  rw [writeRun_eq hdir hw]
  split
  · refine ⟨_, _, rfl, .inr ⟨w.content, rfl⟩, fun run hrun => ?_⟩
    cases result with
    | error e => cases hrun
    | ok _ =>
      rw [← Except.ok.inj hrun]
      rfl
  · refine ⟨s.folder, _, rfl, .inl rfl, ?_⟩
    rintro run ⟨⟩

theorem exists_writeRun_error (s : DiskStore) (e : StoreError) :
    ∃ folder error, s.writeRun [.error e] =
      ({ s with nextRun := s.nextRun + 1, folder }, .error error) ∧ s.Wrote folder := by
  by_cases hdir : s.folder.find? (runName s.nextRun) = some .directory
  · obtain ⟨error, he⟩ := writeRun_of_directory hdir [.error e]
    exact ⟨s.folder, error, he, .inl rfl⟩
  have herror : (RunWriter.create (s.filePath (runName s.nextRun)) s.settings.indexInterval).appendAll
    [.error e] = (_, .error e) := rfl
  rw [writeRun_eq hdir herror]
  split
  · exact ⟨_, e, rfl, .inr ⟨_, rfl⟩⟩
  · exact ⟨s.folder, _, rfl, .inl rfl⟩

/-- The file of a run is made if its name is not too long and no directory stands in its way. -/
theorem folder_writeRun (s : DiskStore) (items : List (Except StoreError Entry)) :
    (∃ content, s.hasRoom ∧ s.folder.find? (runName s.nextRun) ≠ some .directory ∧
        (s.writeRun items).1.folder = s.folder.insert (runName s.nextRun) (.file content)) ∨
      ¬ (s.hasRoom ∧ s.folder.find? (runName s.nextRun) ≠ some .directory) ∧
        (s.writeRun items).1.folder = s.folder := by
  by_cases hdir : s.folder.find? (runName s.nextRun) = some .directory
  · obtain ⟨e, hwrite⟩ := writeRun_of_directory hdir items
    exact .inr ⟨fun h => h.2 hdir, by rw [hwrite]⟩
  generalize hw : (RunWriter.create (s.filePath (runName s.nextRun))
    s.settings.indexInterval).appendAll items = taken
  obtain ⟨w, result⟩ := taken
  rw [writeRun_eq hdir hw]
  split
  next hroom => exact .inl ⟨w.content, hroom, hdir, rfl⟩
  next hroom => exact .inr ⟨fun h => hroom h.1, rfl⟩

theorem attempt_writeRun (ha : Ascending es) :
    Attempt (s.hasRoom ∧ s.folder.find? (runName s.nextRun) ≠ some .directory ∧ ∀ e ∈ es, e.Fits)
      (fun t run => s.hasRoom ∧ run.Describes es ∧ run.name = runName s.nextRun ∧
        t = { s with
          nextRun := s.nextRun + 1
          folder := s.folder.insert (runName s.nextRun) (.file (Run.file es)) })
      (s.writeRun (es.map .ok)) := by
  by_cases hdir : s.folder.find? (runName s.nextRun) = some .directory
  · obtain ⟨e, he⟩ := writeRun_of_directory hdir (es.map .ok)
    rw [he]
    exact fun h => h.2.1 hdir
  have hw : Ascending ((RunWriter.create (s.filePath (runName s.nextRun))
    s.settings.indexInterval).entries ++ es) := ha
  rcases RunWriter.appendAll_cases hw with ⟨hfits, heq⟩ | ⟨⟨e, he, hfits⟩, w, error, heq⟩
  · generalize htaken : RunWriter.extend _ es = w at heq
    have hentries : w.entries = es := htaken ▸ RunWriter.entries_extend
    rw [writeRun_eq hdir heq]
    split
    next hroom =>
      have hdescribes : (w.finish (runName s.nextRun)).Describes w.entries :=
        RunWriter.describes_finish (hentries ▸ ha) (hentries ▸ hfits) _
      refine ⟨hroom, hentries ▸ hdescribes, rfl, ?_⟩
      rw [RunWriter.content, hentries, Run.file]
    next hroom => exact fun h => hroom h.1
  · rw [writeRun_eq hdir heq]
    split
    · exact fun h => hfits (h.2.2 e he)
    · exact fun h => hfits (h.2.2 e he)

theorem find?_discardRuns (folder : Folder) (runs : List Run) (name : String) :
    (discardRuns folder runs).1.find? name = folder.find? name ∨
      (discardRuns folder runs).1.find? name = none := by
  induction runs generalizing folder with
  | nil => exact .inl rfl
  | cons run runs ih =>
    by_cases hdir : folder.find? run.name = some .directory
    · have herror : folder.discard run.name = .error .isDirectory := by
        simp only [Folder.discard, Folder.remove, hdir]
      simp only [discardRuns, herror, true_or]
    · obtain ⟨f, hf, hfind⟩ := Folder.exists_discard hdir
      simp only [discardRuns, hf]
      rcases ih f with h | h
      · rw [h, hfind]
        split
        · exact .inr rfl
        · exact .inl rfl
      · exact .inr h

theorem exists_discardRuns {folder : Folder} {runs : List Run}
    (h : ∀ run ∈ runs, folder.find? run.name ≠ some .directory) :
    ∃ g : Folder, discardRuns folder runs = (g, .ok ()) ∧
      ∀ name, g.find? name = if name ∈ runs.map Run.name then none else folder.find? name := by
  induction runs generalizing folder with
  | nil => exact ⟨folder, rfl, by simp⟩
  | cons run runs ih =>
    obtain ⟨f, hf, hfind⟩ := Folder.exists_discard (h run List.mem_cons_self)
    have hdir : ∀ r ∈ runs, f.find? r.name ≠ some .directory := by
      intro r hr
      rw [hfind]
      split
      · simp
      · exact h r (List.mem_cons_of_mem _ hr)
    obtain ⟨g, hg, hgfind⟩ := ih hdir
    refine ⟨g, by simp only [discardRuns, hf, hg], fun name => ?_⟩
    rw [hgfind, hfind, List.map_cons]
    by_cases hn : name = run.name <;> simp [hn]

end DiskStore

end ChangeBuffer
