import ChangeBuffer.Proofs.Store.Recovery
import ChangeBuffer.Proofs.Store.Undisturbed

/-! # Clearing

A store that has been cleared is empty, whether all the files of its runs could be removed or not.
What is done to it later is seen as if it had always been empty: its runs have new numbers, so
nothing that was left behind is read again.
-/

namespace ChangeBuffer

theorem MemoryStore.performAll_eq (m : SortedMap Bytes Row) (ops : List StoreOp) :
    Store.performAll (MemoryStore.mk m) ops = ⟨ops.foldl StoreOp.onMap m⟩ := by
  induction ops generalizing m with
  | nil => rfl
  | cons op ops ih =>
    have hfirst : (op.apply (MemoryStore.mk m)).1 = ⟨op.onMap m⟩ := by cases op <;> rfl
    rw [Store.performAll, List.foldl_cons, hfirst]
    exact ih (op.onMap m)

namespace DiskStore

def SameFrom (n : Nat) (f g : Folder) : Prop :=
  ∀ m, n ≤ m → g.find? (runName m) = f.find? (runName m)

/-- Operations on `t₀`, with what came of them, lead to a store.  In between anything may happen to
the folder, but for the files of runs that are written behind `t₀`. -/
inductive Later (t₀ : DiskStore) : List (StoreOp × Except StoreError Unit) → DiskStore → Prop
  | start : Later t₀ [] t₀
  | disturbed {exchanges : List (StoreOp × Except StoreError Unit)} {t : DiskStore}
      {folder : Folder} :
      Later t₀ exchanges t → SameFrom t₀.nextRun t.folder folder →
      Later t₀ exchanges (t.inFolder folder)
  | applied {exchanges : List (StoreOp × Except StoreError Unit)} {t u : DiskStore} {op : StoreOp}
      {result : Except StoreError Unit} :
      Later t₀ exchanges t → op.Sized → op.apply t = (u, result) →
      Later t₀ (exchanges ++ [(op, result)]) u

/-- The store is empty, and nothing can be seen of what it was before. -/
structure Afresh (t : DiskStore) : Prop where
  runs : t.runs = []
  tableBytes : t.tableBytes = 0
  sizeHint : t.sizeHint = 0
  scan : ∀ stem, t.scan stem = .ok []
  /-- Later scans are those of a store in memory that was empty. -/
  scans : ∀ exchanges u, t.Later exchanges u → ∀ stem,
    Store.scan u stem =
      Store.scan (Store.performAll MemoryStore.empty (exchanges.map Prod.fst)) stem
  /-- Later runs have later numbers. -/
  numbers : ∀ exchanges u, t.Later exchanges u →
    ∀ run ∈ u.runs, ∃ n, t.nextRun ≤ n ∧ run.name = runName n
  /-- Later operations go well, as in memory, if runs can be written. -/
  results : ∀ exchanges u, t.Later exchanges u → t.RoomForRuns (2 * exchanges.length) →
    t.Unobstructed → (∀ x ∈ exchanges, x.1.Fits) → ∀ x ∈ exchanges, x.2 = .ok ()

variable {s t u : DiskStore} {m : SortedMap Bytes Row} {op : StoreOp} {folder : Folder}
  {exchanges : List (StoreOp × Except StoreError Unit)}

theorem Keeps.of_apply (h : s.Keeps (encoded m)) {result : Except StoreError Unit}
    (ht : op.apply s = (t, result)) : t.Keeps (encoded (op.onMap m)) := by
  cases result with
  | ok _ => exact h.apply ht
  | error e =>
    have hclear : op ≠ .clear := by
      rintro rfl
      obtain ⟨u, hu, -⟩ := exists_clear h
      cases hu.symm.trans ht
    obtain ⟨shelf, hshelf, hstock, hrows⟩ := h
    obtain ⟨added, htshelf, -, hadded, -, hrows'⟩ := hshelf.of_apply_error hrows hclear ht
    refine ⟨shelf ++ added, htshelf, fun p hp => ?_, hrows'⟩
    rcases List.mem_append.mp hp with hold | hnew
    · have hon := onward_apply s op
      rw [ht] at hon
      obtain ⟨n, hn, hname⟩ := hshelf.numbered p.1 (by
        rw [hshelf.runs]
        exact List.mem_map_of_mem hold)
      have hrun : p.1 ∈ t.runs := by
        rw [htshelf.runs]
        exact List.mem_map_of_mem hp
      exact (hon.files p.1 hrun n hn hname).trans (hstock p hold)
    · exact hadded p hnew

/-- What operations behind `t₀` keep, whatever happens to other files. -/
structure Regrown (t₀ : DiskStore) (ops : List StoreOp) (t : DiskStore) : Prop where
  nextRun : t₀.nextRun ≤ t.nextRun
  numbers : ∀ run ∈ t.runs, ∃ n, t₀.nextRun ≤ n ∧ run.name = runName n
  keeps : t.Keeps (encoded (contents ops))
  sized : AllSized (contents ops)

namespace Regrown

variable {t₀ : DiskStore} {ops : List StoreOp}

theorem start (hruns : t₀.runs = []) (htable : t₀.table = ∅) : t₀.Regrown [] t₀ where
  nextRun := Nat.le_refl _
  numbers := by simp [hruns]
  keeps := by
    refine ⟨[], ⟨by simp [hruns], by simp, by simp [hruns], by simp [hruns]⟩, by simp [Stocks],
      fun key => ?_⟩
    rw [stored?_layers, htable, SortedMap.find?_empty]
    rfl
  sized := .empty

theorem disturbed (h : t₀.Regrown ops t) (hf : SameFrom t₀.nextRun t.folder folder) :
    t₀.Regrown ops (t.inFolder folder) where
  nextRun := h.nextRun
  numbers := h.numbers
  keeps := by
    obtain ⟨shelf, hshelf, hstock, hrows⟩ := h.keeps
    refine ⟨shelf, hshelf.of_runs_eq rfl (Nat.le_refl _), fun p hp => ?_, hrows⟩
    obtain ⟨n, hn, hname⟩ := h.numbers p.1 (by
      rw [hshelf.runs]
      exact List.mem_map_of_mem hp)
    have hsame := hf n hn
    rw [← hname] at hsame
    exact hsame.trans (hstock p hp)
  sized := h.sized

theorem applied (h : t₀.Regrown ops t) (hop : op.Sized) {result : Except StoreError Unit}
    (hu : op.apply t = (u, result)) : t₀.Regrown (ops ++ [op]) u := by
  have hon := onward_apply t op
  rw [hu] at hon
  refine ⟨h.nextRun.trans hon.nextRun, fun run hrun => ?_, ?_, ?_⟩
  · obtain hold | ⟨n, hn, hname⟩ := hon.runs run hrun
    · exact h.numbers run hold
    · exact ⟨n, h.nextRun.trans hn, hname⟩
  · rw [contents_append_singleton]
    exact h.keeps.of_apply hu
  · rw [contents_append_singleton]
    exact sized_onMap h.sized hop

theorem scan_eq (h : t₀.Regrown ops t) (stem : Bytes) :
    Store.scan t stem = Store.scan (Store.performAll MemoryStore.empty ops) stem := by
  rw [MemoryStore.empty, MemoryStore.performAll_eq]
  exact h.keeps.scan_eq h.sized stem

end Regrown

namespace Later

variable {t₀ : DiskStore}

theorem regrown (h : t₀.Later exchanges t) (hruns : t₀.runs = []) (htable : t₀.table = ∅) :
    t₀.Regrown (exchanges.map Prod.fst) t := by
  induction h with
  | start => exact .start hruns htable
  | disturbed _ hf ih => exact ih.disturbed hf
  | applied _ hop hu ih =>
    rw [List.map_append]
    exact ih.applied hop hu

theorem goes_well (h : t₀.Later exchanges t) (hruns : t₀.runs = []) (htable : t₀.table = ∅)
    {k : Nat} (hroom : t₀.RoomForRuns (2 * exchanges.length + k)) (hfree : t₀.Unobstructed)
    (hfits : ∀ x ∈ exchanges, x.1.Fits) :
    (∀ x ∈ exchanges, x.2 = .ok ()) ∧ t.Ready k ∧ t.Unobstructed := by
  induction h generalizing k with
  | start =>
    rw [List.length_nil, Nat.mul_zero, Nat.zero_add] at hroom
    exact ⟨by simp, ⟨hroom, by simp [layer_eq_nil htable]⟩, hfree⟩
  | @disturbed exchanges t folder hlater hf ih =>
    obtain ⟨hall, hready, hopen⟩ := ih hroom hfits
    refine ⟨hall, ⟨hready.room.congr rfl rfl, hready.fits⟩, fun n hn => ?_⟩
    have hgrown := hlater.regrown hruns htable
    have hsame := hf n (hgrown.nextRun.trans hn)
    exact fun hdir => hopen n hn (hsame.symm.trans hdir)
  | @applied exchanges t u op result hlater hop hu ih =>
    have hroom : t₀.RoomForRuns (2 * exchanges.length + (2 + k)) := by
      rw [List.length_append, List.length_singleton] at hroom
      exact Nat.add_assoc _ 2 k ▸ hroom
    obtain ⟨hall, hready, hopen⟩ := ih hroom fun x hx => hfits x (List.mem_append_left _ hx)
    have hgrown := hlater.regrown hruns htable
    obtain ⟨v, hv, hready'⟩ := hgrown.keeps.exists_apply (hready.mono (Nat.le_add_right 2 k)) hopen
      (hfits (op, result) (by simp))
    obtain ⟨rfl, rfl⟩ := Prod.mk.inj (hu.symm.trans hv)
    have hon := onward_apply t op
    rw [hu] at hon
    refine ⟨fun x hx => ?_, hready' k hready, hon.unobstructed hopen⟩
    rcases List.mem_append.mp hx with hx | hx
    · exact hall x hx
    · rw [List.mem_singleton.mp hx]

end Later

theorem afresh_of_eq_empty (hruns : t.runs = []) (htable : t.table = ∅)
    (hbytes : t.tableBytes = 0) :
    t.Afresh where
  runs := hruns
  tableBytes := hbytes
  sizeHint := by
    rw [DiskStore.sizeHint, hruns, htable]
    rfl
  scan := (Regrown.start hruns htable).scan_eq
  scans _ _ h stem := (h.regrown hruns htable).scan_eq stem
  numbers _ _ h := (h.regrown hruns htable).numbers
  results _ _ h hroom hfree hfits :=
    (h.goes_well hruns htable (k := 0) hroom hfree hfits).1

theorem afresh_of_clear {result : Except StoreError Unit} (h : s.clear = (t, result)) :
    t.Afresh ∧ t.nextRun = s.nextRun := by
  obtain rfl : s.clear.1 = t := congrArg Prod.fst h
  exact ⟨afresh_of_eq_empty rfl rfl rfl, rfl⟩

end DiskStore

end ChangeBuffer
