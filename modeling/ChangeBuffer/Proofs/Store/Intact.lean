import ChangeBuffer.Proofs.Store.Onward
import ChangeBuffer.Proofs.Store.Operations

/-! # Intact stores

The runs of an intact store describe files that are there, the table is the last layer on top of
them, and no directory stands in the way of runs to come.  Every operation that goes well leaves an
intact store behind whose layers hold the rows that they should.
-/

namespace ChangeBuffer

structure Run.LiesIn (r : Run) (folder : Folder) (es : List Entry) : Prop where
  describes : r.Describes es
  file : folder.find? r.name = some (.file (Run.file es))

theorem Run.LiesIn.of_find?_eq {r : Run} {f g : Folder} {es : List Entry} (h : r.LiesIn f es)
    (hg : g.find? r.name = f.find? r.name) : r.LiesIn g es :=
  ⟨h.describes, hg.trans h.file⟩

namespace DiskStore

/-- The runs of the store, oldest first, describe the files beside them on the shelf. -/
structure Intact (s : DiskStore) (shelf : List (Run × List Entry)) : Prop where
  runs : s.runs = shelf.map Prod.fst
  lies : ∀ p ∈ shelf, p.1.LiesIn s.folder p.2
  names : (s.runs.map Run.name).Nodup
  numbered : ∀ run ∈ s.runs, ∃ n < s.nextRun, run.name = runName n
  noDirectory : ∀ name, s.folder.find? name ≠ some .directory

def Stores (s : DiskStore) (rows : Bytes → Option Bytes) : Prop :=
  ∃ shelf, s.Intact shelf ∧ ∀ key, stored? key (s.layers shelf) = rows key

variable {s t : DiskStore} {shelf : List (Run × List Entry)} {rows : Bytes → Option Bytes}
  {key : Bytes} {version : Version}

namespace Intact

theorem shelves (h : s.Intact shelf) : s.Shelves shelf where
  runs := h.runs
  describes p hp := (h.lies p hp).describes
  names := h.names
  numbered := h.numbered

theorem stocks (h : s.Intact shelf) : Stocks s.folder shelf := fun p hp => (h.lies p hp).file

theorem runSources_eq (h : s.Intact shelf) (stem : Bytes) :
    s.runSources stem = .ok (Merge.ofLayers ((shelf.map Prod.snd).map (matching stem))) :=
  h.shelves.runSources_eq h.stocks stem

theorem scan_eq (h : s.Intact shelf) (stem : Bytes) :
    s.scan stem =
      .ok ((Merge.merge (Merge.ofLayers ((s.layers shelf).map (matching stem)))).map
        decodeItem) :=
  h.shelves.scan_eq h.stocks stem

end Intact

theorem Keeps.stores (h : s.Keeps rows) (hdir : ∀ name, s.folder.find? name ≠ some .directory) :
    s.Stores rows := by
  obtain ⟨shelf, h, hstock, hrows⟩ := h
  have hlies : ∀ p ∈ shelf, p.1.LiesIn s.folder p.2 := fun p hp => ⟨h.describes p hp, hstock p hp⟩
  exact ⟨shelf, ⟨h.runs, hlies, h.names, h.numbered, hdir⟩, hrows⟩

namespace Stores

theorem keeps (h : s.Stores rows) : s.Keeps rows := by
  obtain ⟨shelf, h, hrows⟩ := h
  exact ⟨shelf, h.shelves, h.stocks, hrows⟩

theorem noDirectory (h : s.Stores rows) (name : String) : s.folder.find? name ≠ some .directory := by
  obtain ⟨shelf, h, -⟩ := h
  exact h.noDirectory name

theorem unobstructed (h : s.Stores rows) : s.Unobstructed := fun n _ => h.noDirectory (runName n)

/-- No operation makes a directory, so a store that keeps rows after one is intact. -/
theorem of_onward {rows' : Bytes → Option Bytes} (h : s.Stores rows) (ho : s.Onward t)
    (ht : t.Keeps rows') : t.Stores rows' :=
  ht.stores fun name => ho.noDirectory name (h.noDirectory name)

theorem of_insert (h : s.Stores rows) (ht : s.insert key version = (t, .ok ())) :
    t.Stores (fun k => if k = key then version.row? else rows k) := by
  have ho := onward_insert s key version
  rw [ht] at ho
  exact h.of_onward ho ((attempt_insert h.keeps key version).of_eq_ok ht).1

theorem of_remove (h : s.Stores rows) (ht : s.remove key = (t, .ok ())) :
    t.Stores (fun k => if k = key then none else rows k) := by
  have ho := onward_remove s key
  rw [ht] at ho
  exact h.of_onward ho ((attempt_remove h.keeps key).of_eq_ok ht).1

theorem of_clear (h : s.Stores rows) (ht : s.clear = (t, .ok ())) : t.Stores (fun _ => none) := by
  have ho := onward_clear s
  rw [ht] at ho
  obtain ⟨u, hu, hkeeps, -⟩ := exists_clear h.keeps
  obtain rfl : u = t := (Prod.mk.inj (hu.symm.trans ht)).1
  exact h.of_onward ho hkeeps

end Stores

theorem exists_scan (h : s.Stores rows) (stem : Bytes) :
    ∃ pairs : List (Bytes × Bytes), s.scan stem = .ok (pairs.map fun p => decodeItem (.ok p)) ∧
      pairs.Pairwise (·.1 < ·.1) ∧
      ∀ key row, (key, row) ∈ pairs ↔ stem <+: key ∧ rows key = some row :=
  h.keeps.exists_scan stem

end DiskStore

end ChangeBuffer
