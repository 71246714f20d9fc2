import ChangeBuffer.Buffer.Basic
import ChangeBuffer.Proofs.Key
import ChangeBuffer.Proofs.Latest
import ChangeBuffer.Proofs.Sink.Lawful

/-! # Survivors

Of the rows that a buffer takes, the last one of each key in each partition counts, and it survives
if it adds.  What a flush has to deliver is said here without the store, by the rows alone.
-/

namespace ChangeBuffer

theorem Change.adds_iff {c : Change} : c.adds ↔ c = .insert ∨ c = .updateAfter := by
  cases c <;> decide

/-- How a buffer tells rows apart. -/
structure Keying where
  accessors : List Accessor
  key : List (Fin accessors.length)
  scheme : Partition.Scheme

namespace Keying

variable (k : Keying)

def entryKey (row : Row) : Except Partition.PathError EntryKey :=
  (k.scheme.path row).map fun path => ⟨path, RowKey.project k.accessors k.key row⟩

/-- The row is kept under the bytes. -/
def Under (row : Row) (bytes : Bytes) : Prop :=
  ∃ e, k.entryKey row = .ok e ∧ e.encode = .ok bytes

/-- Of the rows with its partition and key, the row is the last in the window, and it adds. -/
def Survives (window : List Row) (row : Row) : Prop :=
  (row.change = .insert ∨ row.change = .updateAfter) ∧
    Latest (fun later => k.entryKey later = k.entryKey row) window row

/-- The blocks are the partitions of the rows in the window, each with the rows that survive, in
ascending order of the bytes under which they are kept. -/
structure Delivers (window : List Row) (blocks : List Block) : Prop where
  nodup : (blocks.map Block.path).Nodup
  paths : ∀ path, path ∈ blocks.map Block.path ↔ ∃ row ∈ window, k.scheme.path row = .ok path
  rows : ∀ block ∈ blocks, ∀ row,
    row ∈ block.rows ↔ k.scheme.path row = .ok block.path ∧ k.Survives window row
  ascending : ∀ block ∈ blocks,
    block.rows.Pairwise fun r s => ∃ bs cs, k.Under r bs ∧ k.Under s cs ∧ bs < cs

variable {k} {window : List Row} {r s row : Row} {bs cs : Bytes} {path : String}

theorem entryKey_eq_ok {e : EntryKey} :
    k.entryKey row = .ok e ↔
      k.scheme.path row = .ok e.path ∧ e.key = RowKey.project k.accessors k.key row := by
  unfold entryKey
  cases k.scheme.path row with
  | error fault => simp [Except.map]
  | ok path =>
    obtain ⟨path', key⟩ := e
    simp only [Except.map, Except.ok.injEq, EntryKey.mk.injEq]
    exact and_congr_right fun _ => eq_comm

theorem Under.unique (h : k.Under row bs) (h' : k.Under row cs) : bs = cs := by
  obtain ⟨e, he, hbs⟩ := h
  obtain ⟨e', he', hcs⟩ := h'
  obtain rfl := Except.ok.inj (he.symm.trans he')
  exact Except.ok.inj (hbs.symm.trans hcs)

theorem Under.eq_iff (hr : r.Sized) (hs : s.Sized) (hbs : k.Under r bs) (hcs : k.Under s cs) :
    bs = cs ↔ k.entryKey r = k.entryKey s := by
  obtain ⟨d, hd, hbs⟩ := hbs
  obtain ⟨e, he, hcs⟩ := hcs
  constructor
  · rintro rfl
    have hdk := (entryKey_eq_ok.mp hd).2
    have hek := (entryKey_eq_ok.mp he).2
    have hde : d = e := by
      refine EntryKey.encode_inj ?_ ?_ ?_ hbs hcs
      · exact hdk ▸ RowKey.sized_project hr
      · exact hek ▸ RowKey.sized_project hs
      · rw [hdk, hek, RowKey.length_project, RowKey.length_project]
    rw [hd, he, hde]
  · intro h
    obtain rfl := Except.ok.inj (hd.symm.trans (h.trans he))
    exact Except.ok.inj (hbs.symm.trans hcs)

theorem Under.stem_prefix_iff {stem : Bytes} (h : k.Under row bs)
    (hstem : EntryKey.stem path = .ok stem) : stem <+: bs ↔ k.scheme.path row = .ok path := by
  obtain ⟨e, he, hbs⟩ := h
  rw [EntryKey.stem_prefix_iff hstem hbs, (entryKey_eq_ok.mp he).1, Except.ok.injEq]

theorem Survives.mem (h : k.Survives window row) : row ∈ window := h.2.mem

theorem not_survives_nil : ¬ k.Survives [] row := fun h => not_latest_nil h.2

/-- One more row survives if it adds, and those survive that it does not replace. -/
theorem survives_append_singleton :
    k.Survives (window ++ [r]) row ↔
      r = row ∧ row.change.adds ∨ k.entryKey r ≠ k.entryKey row ∧ k.Survives window row := by
  rw [Survives, Survives, latest_append_singleton, Change.adds_iff]
  constructor
  · rintro ⟨hadds, rfl | ⟨hne, hlatest⟩⟩
    · exact Or.inl ⟨rfl, hadds⟩
    · exact Or.inr ⟨hne, hadds, hlatest⟩
  · rintro (⟨rfl, hadds⟩ | ⟨hne, hadds, hlatest⟩)
    · exact ⟨hadds, Or.inl rfl⟩
    · exact ⟨hadds, Or.inr ⟨hne, hlatest⟩⟩

theorem Delivers.nil : k.Delivers [] [] := ⟨.nil, by simp, by simp, by simp⟩

theorem Delivers.eq_nil {blocks : List Block} (h : k.Delivers [] blocks) : blocks = [] := by
  cases blocks with
  | nil => rfl
  | cons block blocks =>
    obtain ⟨row, hrow, -⟩ := (h.paths block.path).mp (by simp)
    cases hrow

end Keying

def Buffer.keying {σ : Type} (b : Buffer σ) : Keying := ⟨b.accessors, b.key, b.scheme⟩

theorem Buffer.locate_eq_ok {σ : Type} {b : Buffer σ} {row : Row} {path : String} {bytes : Bytes}
    (h : b.locate row = .ok (path, bytes)) :
    b.scheme.path row = .ok path ∧ b.keying.Under row bytes := by
  unfold locate at h
  split at h
  · cases h
  next path' hpath =>
    split at h
    · cases h
    next key hkey =>
      obtain ⟨rfl, rfl⟩ := Prod.mk.inj (Except.ok.inj h)
      exact ⟨hpath, ⟨path', RowKey.project b.accessors b.key row⟩,
        Keying.entryKey_eq_ok.mpr ⟨hpath, rfl⟩, hkey⟩

end ChangeBuffer
