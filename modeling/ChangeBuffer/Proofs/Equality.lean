import ChangeBuffer.Proofs.Buffer.Trace
import ChangeBuffer.Proofs.Decimal.Binary
import ChangeBuffer.Proofs.Key

/-! # Keys of equal values

Values may be equal as numbers and yet differ in their bits.  For NaN the key makes up for it; for
zeros it does not, so rows whose key values are equal have the same key exactly if no zero of the
one meets a zero of the other sign in the other.
-/

namespace ChangeBuffer

open Binary (Format)

namespace Value

variable {v w : Value}

/-- The values are equal.  Floating-point numbers are equal as the numbers that they stand for, all
other values only if they are the same. -/
def Equals : Value → Value → Prop
  | float a, float b => (Format.single.read a.toNat).Equals (Format.single.read b.toNat)
  | double a, double b => (Format.double.read a.toNat).Equals (Format.double.read b.toNat)
  | v, w => v = w

/-- The values are equal, or NaN of the same width. -/
def Same (v w : Value) : Prop := v.Equals w ∨ BothNaN v w

def OppositeZeros : Value → Value → Prop
  | float a, float b => Format.single.isZero a.toNat ∧ Format.single.isZero b.toNat ∧ a ≠ b
  | double a, double b => Format.double.isZero a.toNat ∧ Format.double.isZero b.toNat ∧ a ≠ b
  | _, _ => False

theorem equals_or_isNaN_iff {f : Format} {n : Nat} (hf : 0 < f.exponentBits)
    (hn : n = f.fractionBits + f.exponentBits + 1) (a b : BitVec n) :
    (f.read a.toNat).Equals (f.read b.toNat) ∨ f.isNaN a.toNat ∧ f.isNaN b.toNat ↔
      (a = b ∨ f.isNaN a.toNat ∧ f.isNaN b.toNat) ∨
        f.isZero a.toNat ∧ f.isZero b.toNat ∧ a ≠ b := by
  subst hn
  rw [Format.read_equals_iff hf a.isLt b.isLt, BitVec.toNat_inj]
  by_cases hab : a = b
  · subst hab
    tauto
  · tauto

theorem same_iff : v.Same w ↔ v.Alike w ∨ v.OppositeZeros w := by
  unfold Same Alike
  cases v with
  | float a =>
    cases w with
    | float b =>
      rw [float.injEq]
      exact equals_or_isNaN_iff (f := .single) (by decide) (by decide) a b
    | _ => simp [Equals, BothNaN, OppositeZeros]
  | double a =>
    cases w with
    | double b =>
      rw [double.injEq]
      exact equals_or_isNaN_iff (f := .double) (by decide) (by decide) a b
    | _ => simp [Equals, BothNaN, OppositeZeros]
  | _ => simp [Equals, BothNaN, OppositeZeros]

theorem OppositeZeros.cases (h : v.OppositeZeros w) :
    (∃ a b, v = float a ∧ w = float b ∧ Format.single.isZero a.toNat ∧ a ≠ b) ∨
      ∃ a b, v = double a ∧ w = double b ∧ Format.double.isZero a.toNat ∧ a ≠ b := by
  cases v with
  | float a =>
    cases w with
    | float b => exact .inl ⟨a, b, rfl, rfl, h.1, h.2.2⟩
    | _ => exact h.elim
  | double a =>
    cases w with
    | double b => exact .inr ⟨a, b, rfl, rfl, h.1, h.2.2⟩
    | _ => exact h.elim
  | _ => exact h.elim

theorem OppositeZeros.not_alike (h : v.OppositeZeros w) : ¬ v.Alike w := by
  have hnan {f : Format} (hf : 0 < f.exponentBits) {n : Nat} (hzero : f.isZero n) : ¬ f.isNaN n :=
    fun hnan => Format.exponent_of_isZero hf hzero (Format.isNaN_iff.mp hnan).1
  obtain ⟨a, b, rfl, rfl, ha, hab⟩ | ⟨a, b, rfl, rfl, ha, hab⟩ := h.cases
  · simp [Alike, BothNaN, hab, hnan (by decide) ha]
  · simp [Alike, BothNaN, hab, hnan (by decide) ha]

theorem OppositeZeros.countable (h : v.OppositeZeros w) : v.Countable ∧ w.Countable := by
  obtain ⟨a, b, rfl, rfl, -⟩ | ⟨a, b, rfl, rfl, -⟩ := h.cases
  all_goals exact ⟨trivial, trivial⟩

theorem Same.length_encode_canonical_eq (h : v.Same w) :
    v.canonical.encode.length = w.canonical.encode.length := by
  obtain halike | hzeros := same_iff.mp h
  · rw [canonical_eq_iff.mpr halike]
  · rw [length_encode_canonical, length_encode_canonical]
    obtain ⟨a, b, rfl, rfl, -⟩ | ⟨a, b, rfl, rfl, -⟩ := hzeros.cases
    all_goals simp [encode]

/-- Equal values are written to the same bytes in a key, unless they are zeros of opposite signs. -/
theorem Same.encode_canonical_eq_iff (h : v.Same w) :
    v.canonical.encode = w.canonical.encode ↔ ¬ v.OppositeZeros w := by
  constructor
  · intro hencode hzeros
    obtain ⟨hv, hw⟩ := hzeros.countable
    have hread := reads_encode hv.canonical
    rw [hencode] at hread
    exact hzeros.not_alike (canonical_eq_iff.mp (hread.unique (reads_encode hw.canonical)))
  · intro hzeros
    rw [canonical_eq_iff.mpr ((same_iff.mp h).resolve_right hzeros)]

end Value

theorem flatMap_eq_flatMap_iff {α β : Type} {l : List α} {f g : α → List β}
    (h : ∀ a ∈ l, (f a).length = (g a).length) :
    l.flatMap f = l.flatMap g ↔ ∀ a ∈ l, f a = g a := by
  induction l with
  | nil => simp
  | cons a l ih =>
    obtain ⟨ha, hl⟩ := List.forall_mem_cons.mp h
    rw [List.flatMap_cons, List.flatMap_cons, List.forall_mem_cons, ← ih hl]
    exact ⟨fun heq => List.append_inj heq ha, fun ⟨hfa, hrest⟩ => by rw [hfa, hrest]⟩

namespace EntryKey

variable {path : String} {accessors : List Accessor} {places : List (Fin accessors.length)}
  {r r' : Row}

/-- Rows whose key values are equal have the same key in each partition, and no key at all where the
path is too long, exactly if no zero of the one meets a zero of the other sign in the other. -/
theorem encode_eq_of_same_iff
    (h : ∀ i ∈ places, ((accessors.get i).read r).Same ((accessors.get i).read r')) :
    encode ⟨path, .project accessors places r⟩ = encode ⟨path, .project accessors places r'⟩ ↔
      2 ^ 32 ≤ (Bytes.ofText path).length ∨
        ∀ i ∈ places, ¬ ((accessors.get i).read r).OppositeZeros ((accessors.get i).read r') := by
  have hlength : ∀ i ∈ places, ((accessors.get i).read r).canonical.encode.length =
      ((accessors.get i).read r').canonical.encode.length :=
    fun i hi => (h i hi).length_encode_canonical_eq
  have hvalues : Value.encodeAll (RowKey.project accessors places r).values =
        Value.encodeAll (RowKey.project accessors places r').values ↔
      ∀ i ∈ places, ¬ ((accessors.get i).read r).OppositeZeros ((accessors.get i).read r') := by
    rw [Value.encodeAll, Value.encodeAll, RowKey.length_project, RowKey.length_project,
      List.append_right_inj]
    simp only [RowKey.project, RowKey.ofValues, List.flatMap_map]
    exact (flatMap_eq_flatMap_iff hlength).trans
      (forall₂_congr fun i hi => (h i hi).encode_canonical_eq_iff)
  by_cases hpath : (Bytes.ofText path).length < 2 ^ 32
  · obtain ⟨stem, hstem⟩ := exists_stem hpath
    rw [encode_of_stem hstem, encode_of_stem hstem, Except.ok.injEq, List.append_right_inj, hvalues,
      or_iff_right (Nat.not_le_of_lt hpath)]
  · have hstem : EntryKey.stem path = .error ⟨(Bytes.ofText path).length⟩ := if_neg hpath
    simp [encode, hstem, Except.map, Nat.le_of_not_lt hpath]

theorem encode_eq_of_same_iff_of_nan :
    ∃ (accessors : List Accessor) (places : List (Fin accessors.length)) (r r' : Row),
      places.map Fin.val = [0, 1] ∧ r.values = [.double 0x7FF8000000000001, .float 0] ∧
      r'.values = [.double 0xFFF8000000000000, .float 0] ∧
      (∀ i ∈ places, ((accessors.get i).read r).Same ((accessors.get i).read r')) ∧
      encode ⟨"p=1", .project accessors places r⟩ =
        encode ⟨"p=1", .project accessors places r'⟩ := by
  let accessors : List Accessor := [⟨0, .double⟩, ⟨1, .float⟩]
  let places : List (Fin accessors.length) := [0, 1]
  let r : Row := ⟨.insert, [.double 0x7FF8000000000001, .float 0]⟩
  let r' : Row := ⟨.delete, [.double 0xFFF8000000000000, .float 0]⟩
  have hsame : ∀ i ∈ places, ((accessors.get i).read r).Same ((accessors.get i).read r') :=
    List.forall_mem_cons.mpr ⟨Value.same_iff.mpr (.inl (.inr (And.intro (by decide) (by decide)))),
      List.forall_mem_singleton.mpr (Value.same_iff.mpr (.inl (.inl rfl)))⟩
  have hzeros : ∀ i ∈ places,
      ¬ ((accessors.get i).read r).OppositeZeros ((accessors.get i).read r') :=
    List.forall_mem_cons.mpr ⟨fun h => absurd h.1 (by decide),
      List.forall_mem_singleton.mpr fun h => h.2.2 rfl⟩
  exact ⟨accessors, places, r, r', rfl, rfl, rfl, hsame,
    (encode_eq_of_same_iff hsame).mpr (.inr hzeros)⟩

end EntryKey

/-- Zeros of opposite signs are equal, but a row that withdraws the one leaves a row that adds the
other where it is. -/
theorem zeros_of_opposite_signs_have_two_keys :
    (Value.double 0).Equals (.double 0x8000000000000000) ∧
    EntryKey.encode ⟨"", .project [⟨0, .double⟩] [0] ⟨.insert, [.double 0]⟩⟩ ≠
      EntryKey.encode ⟨"", .project [⟨0, .double⟩] [0] ⟨.delete, [.double 0x8000000000000000]⟩⟩ ∧
    ∃ b : Buffer MemoryStore,
      Buffer.create [⟨0, .double⟩] ⟨[⟨1, "x", .double, true⟩]⟩ ⟨[⟨1, "x", .double, true⟩]⟩
        ⟨⟨[]⟩, []⟩ .empty = .ok b ∧
      (b.trace [(.start, RowLog.empty), (.process ⟨.insert, [.double 0]⟩, .empty),
          (.process ⟨.delete, [.double 0x8000000000000000]⟩, .empty), (.flush, .empty)]).map
          (fun s => (s.result, s.asked)) =
        [(.ok .nothing, []), (.ok .nothing, []), (.ok .nothing, []),
          (.ok ⟨1, 1⟩, [.enter "", .accept ⟨.insert, [.double 0]⟩, .leave ""])] := by
  refine ⟨?_, by decide, ⟨[⟨0, .double⟩], [0], ⟨[⟨1, "x", .double, true⟩]⟩, ⟨⟨[]⟩, []⟩, .empty, [],
    .created, .zero⟩, by cbv, by cbv⟩
  have hword (a : BitVec 64) : Format.double.IsWord a.toNat := a.isLt
  exact (Format.read_equals_iff (by decide) (hword 0) (hword 0x8000000000000000)).mpr
    (.inr ⟨by decide, by decide⟩)

end ChangeBuffer
