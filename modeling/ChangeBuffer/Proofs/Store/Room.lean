import ChangeBuffer.Proofs.SortedMap
import ChangeBuffer.Proofs.Store.Files
import Mathlib

/-! # Room for runs

The name of a run is as long as its number, from eight digits on, so there is room for every run if
there is room for a later one.  The path of a store can be short enough to make its directory and
too long to write a run in it.  Such a store fails as soon as its table is too large.
-/

namespace ChangeBuffer

/-- A host with a directory for temporary files and nothing else. -/
def Host.plain : Host := ⟨"/tmp", [], [(["tmp"], .directory)]⟩

namespace Path

def deep (n : Nat) : String := String.ofList (['/', 't', 'm', 'p'] ++ List.replicate n '/')

theorem toList_deep (n : Nat) : (deep n).toList = ['/', 't', 'm', 'p'] ++ List.replicate n '/' :=
  String.toList_ofList

theorem split_replicate (n : Nat) : split (List.replicate n '/') = List.replicate (n + 1) [] := by
  induction n with
  | zero => rfl
  | succ n ih =>
    rw [List.replicate_succ, split, if_pos rfl, ih]
    rfl

theorem names_deep (n : Nat) : names (deep n) = ["tmp"] := by
  have hsplit : split (deep n).toList = [] :: ['t', 'm', 'p'] :: List.replicate n [] := by
    rw [toList_deep]
    simp [split, split_replicate, List.replicate_succ]
  rw [names, hsplit]
  simp

theorem isAbsolute_deep (n : Nat) : isAbsolute (deep n) = true := by
  rw [isAbsolute, toList_deep]
  rfl

theorem not_mem_deep {c : Char} (h : c ∉ ['/', 't', 'm', 'p']) (n : Nat) : c ∉ (deep n).toList := by
  rw [toList_deep, List.mem_append, not_or]
  refine ⟨h, fun hc => h ?_⟩
  rw [(List.mem_replicate.mp hc).2]
  exact List.mem_cons_self

theorem utf8ByteSize_deep (n : Nat) : (deep n).utf8ByteSize = 4 + n := by
  have hslashes : (String.ofList (List.replicate n '/')).utf8ByteSize = n := by
    induction n with
    | zero => rfl
    | succ n ih =>
      rw [List.replicate_succ, ← List.singleton_append, String.ofList_append,
        String.utf8ByteSize_append, ih, Nat.add_comm]
      rfl
  rw [deep, String.ofList_append, String.utf8ByteSize_append, hslashes]
  rfl

theorem sizeWith_deep {n : Nat} (hn : n ≠ 0) (size : Nat) :
    sizeWith (deep n) size = 4 + n + size := by
  have hlast : (deep n).toList.getLast? = some '/' := by
    obtain ⟨n, rfl⟩ := Nat.exists_eq_succ_of_ne_zero hn
    rw [toList_deep, List.replicate_succ', ← List.append_assoc, List.getLast?_concat]
  rw [sizeWith, hlast, utf8ByteSize_deep, if_pos rfl, Nat.add_zero]

end Path

namespace Numeral

variable {width m n : Nat} {cs : List Char}

theorem length_padded_eq_max (width n : Nat) :
    (padded width n).length = max width (digits n).length := by
  rw [padded, List.length_append, List.length_replicate]
  omega

theorem length_digits_le (h : m ≤ n) : (digits m).length ≤ (digits n).length := by
  have hpos : 0 < (digits n).length := List.length_pos_iff.mpr Nat.toDigits_ne_nil
  have hn : n < 10 ^ (digits n).length :=
    (Nat.length_toDigits_le_iff (by decide) hpos).mp (Nat.le_refl _)
  exact (Nat.length_toDigits_le_iff (by decide) hpos).mpr (Nat.lt_of_le_of_lt h hn)

theorem utf8ByteSize_of_isDigit (h : ∀ c ∈ cs, c.isDigit) :
    (String.ofList cs).utf8ByteSize = cs.length := by
  induction cs with
  | nil => rfl
  | cons c cs ih =>
    have hdigit := Char.isDigit_iff_toNat.mp (h c List.mem_cons_self)
    have hone : c.utf8Size = 1 := by
      rw [Char.utf8Size_eq_one_iff, UInt32.le_iff_toNat_le]
      exact Nat.le_trans hdigit.2 (by decide)
    rw [← List.singleton_append, String.ofList_append, String.utf8ByteSize_append,
      ih fun d hd => h d (List.mem_cons_of_mem _ hd), ← String.singleton_eq_ofList,
      String.utf8ByteSize_singleton, hone, List.length_append, List.length_singleton]

end Numeral

namespace DiskStore

variable {s : DiskStore} {m n : Nat}

theorem utf8ByteSize_runName (n : Nat) :
    (runName n).utf8ByteSize = 10 + max 8 (Numeral.digits n).length := by
  have hname : (String.ofList (Numeral.padded 8 n)).utf8ByteSize = _ :=
    Numeral.utf8ByteSize_of_isDigit fun c hc => Numeral.isDigit_of_mem_padded hc
  have hfront : "run-".utf8ByteSize = 4 := rfl
  have hback : ".spill".utf8ByteSize = 6 := rfl
  rw [runName, String.utf8ByteSize_append, String.utf8ByteSize_append, hname, hfront, hback,
    Numeral.length_padded_eq_max]
  omega

theorem hasRoomFor_iff : s.hasRoomFor n ↔
    (runName n).utf8ByteSize + 1 + Path.sizeWith s.settings.scratchDirectory nameSize ≤
      Path.maxSize := decide_eq_true_iff

theorem hasRoomFor_of_le (hmn : m ≤ n) (h : s.hasRoomFor n) : s.hasRoomFor m := by
  have hdigits := Numeral.length_digits_le hmn
  rw [hasRoomFor_iff, utf8ByteSize_runName] at h ⊢
  omega

theorem writeRun_of_not_hasRoom (h : s.hasRoom = false) (items : List (Except StoreError Entry)) :
    s.writeRun items = ({ s with nextRun := s.nextRun + 1 }, .error (.file .nameTooLong)) := by
  simp only [writeRun, h, Bool.false_eq_true, if_false]

theorem spill_of_not_hasRoom (h : s.hasRoom = false) (hne : s.table.isEmpty = false) :
    s.spill = ({ s with nextRun := s.nextRun + 1 }, .error (.file .nameTooLong)) := by
  rw [spill, hne, if_neg Bool.false_ne_true]
  simp only [writeRun_of_not_hasRoom h]

/-- A store without room keeps a version that makes the table too large, and reports a failure. -/
theorem insert_of_not_hasRoom {key : Bytes} {version : Version} (h : s.hasRoom = false)
    (hlimit : s.settings.tableLimit < s.tableBytes - s.charged key + charge key version) :
    s.insert key version =
      ({ s with
          table := s.table.insert key version
          tableBytes := s.tableBytes - s.charged key + charge key version
          nextRun := s.nextRun + 1 }, .error (.file .nameTooLong)) := by
  have hroom : hasRoom { s with
      table := s.table.insert key version
      tableBytes := s.tableBytes - s.charged key + charge key version } = false := by
    rw [← h]
    exact hasRoom_congr rfl rfl
  simp only [DiskStore.insert, if_pos hlimit]
  exact spill_of_not_hasRoom hroom SortedMap.isEmpty_insert

theorem mergeRuns_of_not_hasRoom (h : s.hasRoom = false) :
    s.mergeRuns = ({ s with nextRun := s.nextRun + 1 }, .error (.file .nameTooLong)) := by
  simp only [mergeRuns, writeRun_of_not_hasRoom h]

theorem hasRoomFor_deep {k : Nat} (hk : k ≠ 0) (h : s.settings.scratchDirectory = Path.deep k) :
    s.hasRoomFor n ↔ k + max 8 (Numeral.digits n).length ≤ 4033 := by
  rw [hasRoomFor_iff, h, Path.sizeWith_deep hk, utf8ByteSize_runName]
  simp only [nameSize, Path.maxSize]
  omega

/-- One slash less, and there is room for runs whose numbers have eight digits. -/
theorem hasRoomFor_deep_iff_lt (h : s.settings.scratchDirectory = Path.deep 4025) :
    s.hasRoomFor n ↔ n < 10 ^ 8 := by
  have hdigits : (Numeral.digits n).length ≤ 8 ↔ n < 10 ^ 8 :=
    Nat.length_toDigits_le_iff (by decide) (by decide)
  rw [hasRoomFor_deep (by decide) h, ← hdigits]
  omega

theorem hasRoom_deep {k : Nat} (hk : 4026 ≤ k) (h : s.settings.scratchDirectory = Path.deep k) :
    s.hasRoom = false := by
  refine eq_false_of_ne_true fun hroom => ?_
  have hle := (hasRoomFor_deep (by omega) h).mp hroom
  omega

theorem insert_deep {n : Nat} (hn : 4026 ≤ n) (h : s.settings = ⟨Path.deep n, 1, 2, 1⟩)
    (key : Bytes) (version : Version) :
    s.insert key version =
      ({ s with
          table := s.table.insert key version
          tableBytes := s.tableBytes - s.charged key + charge key version
          nextRun := s.nextRun + 1 }, .error (.file .nameTooLong)) := by
  refine insert_of_not_hasRoom (hasRoom_deep hn (congrArg (·.scratchDirectory) h)) ?_
  rw [h]
  simp only [charge, overhead]
  omega

theorem hasRoomFor_plain (h : s.settings.scratchDirectory = "/tmp") (hn : n < 10 ^ 8) :
    s.hasRoomFor n := by
  have hdigits : (Numeral.digits n).length ≤ 8 :=
    (Nat.length_toDigits_le_iff (by decide) (by decide)).mpr hn
  have hpath : Path.sizeWith "/tmp" nameSize = 52 := by decide
  rw [hasRoomFor_iff, utf8ByteSize_runName, h, hpath, Path.maxSize]
  omega

theorem create_plain {limit : Nat} (h : limit ≠ 0) :
    create ⟨"/tmp", limit, 2, 1⟩ Host.plain "/tmp/store" =
      .ok ⟨⟨"/tmp", limit, 2, 1⟩, "/tmp/store", ∅, ∅, 0, [], 0, .zero⟩ := by
  have hsettings : SpillSettings.fault? ⟨"/tmp", limit, 2, 1⟩ = none := by
    simp [SpillSettings.fault?, h]
  have hhost : Host.plain.fault? "/tmp" nameSize = none := by cbv
  simp only [create, hsettings, hhost]

theorem create_deep {n : Nat} (hpos : 0 < n) (hn : n ≤ 4044) (path : String) :
    create ⟨Path.deep n, 1, 2, 1⟩ Host.plain path =
      .ok ⟨⟨Path.deep n, 1, 2, 1⟩, path, ∅, ∅, 0, [], 0, .zero⟩ := by
  have hne : Path.deep n ≠ "" := by
    intro h
    have hsize := Path.utf8ByteSize_deep n
    rw [h, String.utf8ByteSize_empty] at hsize
    omega
  have hshort : ¬ Path.maxSize < 4 + n + nameSize := by
    simp only [nameSize, Path.maxSize]
    omega
  have hfault : Host.plain.fault? (Path.deep n) nameSize = none := by
    rw [Host.fault?, if_neg (Path.not_mem_deep (by decide) _), Path.sizeWith_deep (by omega),
      if_neg hshort, Path.isAbsolute_deep, Path.names_deep]
    cbv
  rw [create, SpillSettings.fault?, if_neg hne]
  simp only [hfault]
  rfl

end DiskStore

end ChangeBuffer
