import ChangeBuffer.Proofs.Codec.Row
import ChangeBuffer.Proofs.Store.Intact
import ChangeBuffer.Store.Backend

/-! # Stores that keep their rows

A lawful store holds what a sorted map would hold, as long as its operations go well.  Stores in
memory and on disk are lawful, so they cannot be told apart by scans.
-/

namespace ChangeBuffer

/-- A store that keeps rows as a sorted map does. -/
class LawfulStore (σ : Type) [Store σ] where
  Holds : σ → SortedMap Bytes Row → Prop
  put {s t : σ} {m : SortedMap Bytes Row} {key : Bytes} {row : Row} :
    Holds s m → row.Sized → Store.put s key row = (t, .ok ()) → Holds t (m.insert key row)
  remove {s t : σ} {m : SortedMap Bytes Row} {key : Bytes} :
    Holds s m → Store.remove s key = (t, .ok ()) → Holds t (m.erase key)
  clear {s t : σ} {m : SortedMap Bytes Row} :
    Holds s m → Store.clear s = (t, .ok ()) → Holds t ∅
  scan {s : σ} {m : SortedMap Bytes Row} (stem : Bytes) :
    Holds s m → Store.scan s stem = .ok ((m.entries.filter (stem.isPrefixOf ·.1)).map .ok)

instance : LawfulStore MemoryStore where
  Holds s m := s.rows = m
  put := by
    rintro s t m key row rfl - h
    rw [← (Prod.mk.inj h).1]
    rfl
  remove := by
    rintro s t m key rfl h
    rw [← (Prod.mk.inj h).1]
    rfl
  clear := by
    rintro s t m rfl h
    rw [← (Prod.mk.inj h).1]
    rfl
  scan := by
    rintro s m stem rfl
    rfl

namespace DiskStore

structure Holds (s : DiskStore) (m : SortedMap Bytes Row) : Prop where
  stores : s.Stores fun key => (m.find? key).map Row.encode
  sized : ∀ e ∈ m.entries, e.2.Sized

def encoded (m : SortedMap Bytes Row) (key : Bytes) : Option Bytes := (m.find? key).map Row.encode

def AllSized (m : SortedMap Bytes Row) : Prop := ∀ e ∈ m.entries, e.2.Sized

variable {s t : DiskStore} {m : SortedMap Bytes Row} {key : Bytes} {row : Row}

theorem encoded_insert (m : SortedMap Bytes Row) (key : Bytes) (row : Row) :
    encoded (m.insert key row) =
      fun k => if k = key then (Version.present row.encode).row? else encoded m k := by
  funext k
  rw [encoded, SortedMap.find?_insert]
  split <;> rfl

theorem encoded_erase (m : SortedMap Bytes Row) (key : Bytes) :
    encoded (m.erase key) = fun k => if k = key then none else encoded m k := by
  funext k
  rw [encoded, SortedMap.find?_erase]
  split <;> rfl

theorem AllSized.empty : AllSized ∅ := fun _ he => nomatch he

theorem AllSized.insert (h : AllSized m) (hr : row.Sized) : AllSized (m.insert key row) := by
  intro e he
  rcases SortedMap.mem_entries_insert.mp he with rfl | ⟨he, -⟩
  · exact hr
  · exact h e he

theorem AllSized.erase (h : AllSized m) : AllSized (m.erase key) :=
  fun e he => h e (SortedMap.mem_entries_erase.mp he).1

theorem Keeps.scan_eq (h : s.Keeps (encoded m)) (hm : AllSized m) (stem : Bytes) :
    s.scan stem = .ok ((m.entries.filter (stem.isPrefixOf ·.1)).map .ok) := by
  obtain ⟨pairs, hscan, hasc, hmem⟩ := h.exists_scan stem
  have hpairs : pairs =
      (m.entries.filter (stem.isPrefixOf ·.1)).map fun e => (e.1, e.2.encode) := by
    refine SortedMap.eq_of_ascending hasc ?_ fun (key, bytes) => ?_
    · exact List.Pairwise.map _ (fun _ _ h => h) (m.ascending.filter _)
    · rw [hmem, encoded, Option.map_eq_some_iff]
      simp only [List.mem_map, List.mem_filter, List.isPrefixOf_iff_prefix, Prod.mk.injEq,
        SortedMap.find?_eq_some_iff]
      constructor
      · rintro ⟨hp, row, hrow, rfl⟩
        exact ⟨(key, row), ⟨hrow, hp⟩, rfl, rfl⟩
      · rintro ⟨⟨k, row⟩, ⟨hrow, hp⟩, rfl, rfl⟩
        exact ⟨hp, row, hrow, rfl⟩
  rw [hscan, hpairs, List.map_map]
  refine congrArg Except.ok (List.map_congr_left fun e he => ?_)
  simp only [Function.comp_apply, decodeItem, Row.decode_encode (hm e (List.mem_filter.mp he).1)]

namespace Holds

theorem put (h : s.Holds m) (hr : row.Sized) (ht : s.put key row = (t, .ok ())) :
    t.Holds (m.insert key row) := by
  refine ⟨?_, AllSized.insert h.sized hr⟩
  change t.Stores (encoded (m.insert key row))
  rw [encoded_insert]
  exact h.stores.of_insert ht

theorem remove (h : s.Holds m) (ht : s.remove key = (t, .ok ())) : t.Holds (m.erase key) := by
  refine ⟨?_, AllSized.erase h.sized⟩
  change t.Stores (encoded (m.erase key))
  rw [encoded_erase]
  exact h.stores.of_remove ht

theorem clear (h : s.Holds m) (ht : s.clear = (t, .ok ())) : t.Holds ∅ :=
  ⟨h.stores.of_clear ht, AllSized.empty⟩

theorem scan (h : s.Holds m) (stem : Bytes) :
    s.scan stem = .ok ((m.entries.filter (stem.isPrefixOf ·.1)).map .ok) :=
  h.stores.keeps.scan_eq h.sized stem

end Holds

theorem eq_of_create {settings : SpillSettings} {host : Host} {path : String}
    (h : create settings host path = .ok s) : s = ⟨settings, path, ∅, ∅, 0, [], 0, .zero⟩ := by
  unfold create at h
  split at h
  · cases h
  split at h
  · cases h
  exact (Except.ok.inj h).symm

theorem Holds.create {settings : SpillSettings} {host : Host} {path : String}
    (h : create settings host path = .ok s) : s.Holds ∅ := by
  obtain rfl := eq_of_create h
  refine ⟨⟨[], ⟨rfl, by simp, by simp, by simp, fun name => ?_⟩, fun key => rfl⟩, ?_⟩
  · rw [SortedMap.find?_empty]
    simp
  · exact fun e he => nomatch he

end DiskStore

instance : LawfulStore DiskStore where
  Holds := DiskStore.Holds
  put h hr ht := h.put hr ht
  remove h ht := h.remove ht
  clear h ht := h.clear ht
  scan stem h := h.scan stem

namespace Backend

def Holds : Backend → SortedMap Bytes Row → Prop
  | memory s, m => LawfulStore.Holds s m
  | disk s, m => LawfulStore.Holds s m

theorem exists_of_eq_ok {σ : Type} {wrap : σ → Backend} {result : σ × Except StoreError Unit}
    {t : Backend} (h : (wrap result.1, result.2) = (t, .ok ())) :
    ∃ u, result = (u, .ok ()) ∧ t = wrap u := by
  obtain ⟨rfl, hr⟩ := Prod.mk.inj h
  exact ⟨result.1, Prod.ext rfl hr, rfl⟩

theorem Holds.create {settings : Settings} {host : Host} {path : String} {b : Backend}
    (h : create settings host path = .ok b) : b.Holds ∅ := by
  unfold Backend.create at h
  split at h
  · obtain rfl := Except.ok.inj h
    rfl
  · cases hs : DiskStore.create settings.spill host path with
    | error e =>
      rw [hs] at h
      cases h
    | ok s =>
      rw [hs] at h
      obtain rfl := Except.ok.inj h
      exact DiskStore.Holds.create hs

end Backend

instance : LawfulStore Backend where
  Holds := Backend.Holds
  put := by
    rintro (s | s) t m key row h hr ht
    · change (Backend.memory (Store.put s key row).1, (Store.put s key row).2) = (t, .ok ()) at ht
      obtain ⟨u, hu, rfl⟩ := Backend.exists_of_eq_ok ht
      have hu := LawfulStore.put (show LawfulStore.Holds s m from h) hr hu
      exact hu
    · change (Backend.disk (Store.put s key row).1, (Store.put s key row).2) = (t, .ok ()) at ht
      obtain ⟨u, hu, rfl⟩ := Backend.exists_of_eq_ok ht
      have hu := LawfulStore.put (show LawfulStore.Holds s m from h) hr hu
      exact hu
  remove := by
    rintro (s | s) t m key h ht
    · change (Backend.memory (Store.remove s key).1, (Store.remove s key).2) = (t, .ok ()) at ht
      obtain ⟨u, hu, rfl⟩ := Backend.exists_of_eq_ok ht
      have hu := LawfulStore.remove (show LawfulStore.Holds s m from h) hu
      exact hu
    · change (Backend.disk (Store.remove s key).1, (Store.remove s key).2) = (t, .ok ()) at ht
      obtain ⟨u, hu, rfl⟩ := Backend.exists_of_eq_ok ht
      have hu := LawfulStore.remove (show LawfulStore.Holds s m from h) hu
      exact hu
  clear := by
    rintro (s | s) t m h ht
    · change (Backend.memory (Store.clear s).1, (Store.clear s).2) = (t, .ok ()) at ht
      obtain ⟨u, hu, rfl⟩ := Backend.exists_of_eq_ok ht
      have hu := LawfulStore.clear (show LawfulStore.Holds s m from h) hu
      exact hu
    · change (Backend.disk (Store.clear s).1, (Store.clear s).2) = (t, .ok ()) at ht
      obtain ⟨u, hu, rfl⟩ := Backend.exists_of_eq_ok ht
      have hu := LawfulStore.clear (show LawfulStore.Holds s m from h) hu
      exact hu
  scan := by
    rintro (s | s) m stem h
    · have hscan := LawfulStore.scan stem (show LawfulStore.Holds s m from h)
      exact hscan
    · have hscan := LawfulStore.scan stem (show LawfulStore.Holds s m from h)
      exact hscan

end ChangeBuffer
