import ChangeBuffer.Key
import ChangeBuffer.Proofs.Codec.Row
import Mathlib.Data.List.Forall2

/-! # Keys of partitions

The bytes of a key begin with the stem of a path exactly if it is the path of the key.  They begin
with the bytes of another key only if both are the same key: of the same path, with the same values
up to NaN.
-/

namespace ChangeBuffer

theorem Bytes.ofText_inj {s t : String} (h : ofText s = ofText t) : s = t := by
  have hdecode := (Utf8.decode_ofText s).symm.trans (h ▸ Utf8.decode_ofText t)
  exact Except.ok.inj hdecode

theorem Word.encodeBig_inj {k m n : Nat} (hm : m < 256 ^ k) (hn : n < 256 ^ k)
    (h : encodeBig k m = encodeBig k n) : m = n := by
  have hencode : encode k m = encode k n := List.reverse_inj.mp h
  rw [← value_encode hm, hencode, value_encode hn]

namespace Value

theorem length_encode_canonical (v : Value) : v.canonical.encode.length = v.encode.length := by
  cases v with
  | float bits => rw [canonical]; split <;> simp [encode]
  | double bits => rw [canonical]; split <;> simp [encode]
  | _ => rfl

theorem Sized.canonical {v : Value} (h : v.Sized) : v.canonical.Sized := by
  rw [Sized, length_encode_canonical]
  exact h

def BothNaN : Value → Value → Prop
  | float a, float b =>
    Binary.Format.single.isNaN a.toNat ∧ Binary.Format.single.isNaN b.toNat
  | double a, double b =>
    Binary.Format.double.isNaN a.toNat ∧ Binary.Format.double.isNaN b.toNat
  | _, _ => False

/-- The values agree bit for bit, or both are NaN of the same width. -/
def Alike (v w : Value) : Prop := v = w ∨ BothNaN v w

theorem canonical_eq_iff {v w : Value} : v.canonical = w.canonical ↔ v.Alike w := by
  have hsingle : Binary.Format.single.isNaN (0x7FC00000#32).toNat := by decide
  have hdouble : Binary.Format.double.isNaN (0x7FF8000000000000#64).toNat := by decide
  unfold Alike
  cases v with
  | float a => cases w <;> simp only [canonical, BothNaN] <;> grind
  | double a => cases w <;> simp only [canonical, BothNaN] <;> grind
  | _ => cases w <;> simp only [canonical, BothNaN] <;> grind

theorem Countable.canonical {v : Value} (h : v.Countable) : v.canonical.Countable := by
  cases v with
  | float bits => rw [Value.canonical]; split <;> trivial
  | double bits => rw [Value.canonical]; split <;> trivial
  | _ => exact h

theorem encodeAll_inj {vs ws : List Value} (hvs : ∀ v ∈ vs, v.Sized) (hws : ∀ v ∈ ws, v.Sized)
    (hlen : vs.length = ws.length) (h : encodeAll vs = encodeAll ws) : vs = ws := by
  rw [encodeAll, encodeAll, hlen] at h
  have hvs := Decoder.reads_many fun v hv => reads_encode (hvs v hv).countable
  have hws := Decoder.reads_many fun v hv => reads_encode (hws v hv).countable
  rw [List.append_cancel_left h, hlen] at hvs
  exact hvs.unique hws

end Value

theorem RowKey.ext {k l : RowKey} (h : k.values = l.values) : k = l := by
  cases k
  cases l
  congr

namespace RowKey

variable {vs ws : List Value}

theorem ofValues_eq_iff : ofValues vs = ofValues ws ↔ List.Forall₂ Value.Alike vs ws := by
  have hmap : vs.map Value.canonical = ws.map Value.canonical ↔ List.Forall₂ Value.Alike vs ws := by
    rw [← List.forall₂_eq_eq_eq, List.forall₂_map_left_iff, List.forall₂_map_right_iff]
    simp only [Value.canonical_eq_iff]
  rw [← hmap]
  exact ⟨congrArg values, fun h => RowKey.ext h⟩

theorem allCountable_ofValues (h : Value.AllCountable vs) : Value.AllCountable (ofValues vs).values := by
  refine ⟨by simpa [ofValues] using h.1, fun v hv => ?_⟩
  obtain ⟨w, hw, rfl⟩ := List.mem_map.mp hv
  exact (h.2 w hw).canonical

end RowKey

section Project

variable {accessors : List Accessor} {places : List (Fin accessors.length)} {r : Row}

theorem RowKey.length_project : (project accessors places r).values.length = places.length := by
  simp [project, ofValues]

theorem RowKey.sized_project (h : r.Sized) : ∀ v ∈ (project accessors places r).values, v.Sized := by
  intro v hv
  obtain ⟨w, hw, rfl⟩ := List.mem_map.mp hv
  obtain ⟨i, -, rfl⟩ := List.mem_map.mp hw
  refine Value.Sized.canonical ?_
  rw [Accessor.read, List.getD_eq_getElem?_getD]
  cases hv : r.values[accessors[i].position]? with
  | none => exact (by decide : (Value.encode .null).length < 2 ^ 64)
  | some v => exact h.value (List.mem_of_getElem? hv)

end Project

namespace EntryKey

variable {path : String} {stem bytes : Bytes} {k l : EntryKey}

theorem exists_stem (h : (Bytes.ofText path).length < 2 ^ 32) :
    ∃ stem, EntryKey.stem path = .ok stem := ⟨_, if_pos h⟩

theorem stem_eq (h : EntryKey.stem path = .ok stem) :
    (Bytes.ofText path).length < 2 ^ 32 ∧
      stem = Word.encodeBig 4 (Bytes.ofText path).length ++ Bytes.ofText path := by
  simp only [EntryKey.stem] at h
  split at h
  next hlen => exact ⟨hlen, (Except.ok.inj h).symm⟩
  next => cases h

theorem encode_eq (h : k.encode = .ok bytes) :
    ∃ stem, EntryKey.stem k.path = .ok stem ∧ bytes = stem ++ Value.encodeAll k.key.values := by
  unfold encode at h
  cases hs : EntryKey.stem k.path with
  | error fault =>
    rw [hs] at h
    cases h
  | ok stem =>
    rw [hs] at h
    exact ⟨stem, rfl, (Except.ok.inj h).symm⟩

theorem encode_of_stem (h : EntryKey.stem k.path = .ok stem) :
    k.encode = .ok (stem ++ Value.encodeAll k.key.values) := by
  rw [encode, h]
  rfl

/-- A key begins with the stem of its own path and of no other. -/
theorem stem_prefix_iff (hp : EntryKey.stem path = .ok stem) (hk : k.encode = .ok bytes) :
    stem <+: bytes ↔ k.path = path := by
  obtain ⟨stem', hs, rfl⟩ := encode_eq hk
  constructor
  · intro hprefix
    obtain ⟨hlt, rfl⟩ := stem_eq hp
    obtain ⟨hlt', rfl⟩ := stem_eq hs
    obtain ⟨rest, hrest⟩ := hprefix
    rw [List.append_assoc, List.append_assoc] at hrest
    obtain ⟨hword, htail⟩ := List.append_inj hrest (by simp)
    have hlen := Word.encodeBig_inj hlt hlt' hword
    exact (Bytes.ofText_inj (List.append_inj htail hlen).1).symm
  · rintro rfl
    obtain rfl := Except.ok.inj (hs.symm.trans hp)
    exact List.prefix_append _ _

theorem path_eq_of_stems_prefix {path' : String} {stem' : Bytes}
    (hp : EntryKey.stem path = .ok stem) (hp' : EntryKey.stem path' = .ok stem')
    (h : stem <+: bytes) (h' : stem' <+: bytes) : path = path' := by
  rcases List.prefix_or_prefix_of_prefix h h' with hle | hle
  · have hkey := encode_of_stem (k := ⟨path', .ofValues []⟩) hp'
    exact ((stem_prefix_iff hp hkey).mp (hle.trans (List.prefix_append _ _))).symm
  · have hkey := encode_of_stem (k := ⟨path, .ofValues []⟩) hp
    exact (stem_prefix_iff hp' hkey).mp (hle.trans (List.prefix_append _ _))

theorem encode_inj (hk : ∀ v ∈ k.key.values, v.Sized) (hl : ∀ v ∈ l.key.values, v.Sized)
    (hlen : k.key.values.length = l.key.values.length) (hkb : k.encode = .ok bytes)
    (hlb : l.encode = .ok bytes) : k = l := by
  obtain ⟨stem, hs, rfl⟩ := encode_eq hkb
  have hpath : l.path = k.path := (stem_prefix_iff hs hlb).mp (List.prefix_append _ _)
  obtain ⟨stem', hs', hbytes⟩ := encode_eq hlb
  rw [hpath] at hs'
  obtain rfl := Except.ok.inj (hs.symm.trans hs')
  have hvalues := Value.encodeAll_inj hk hl hlen (List.append_cancel_left hbytes)
  obtain ⟨path, key⟩ := k
  obtain ⟨path', key'⟩ := l
  obtain rfl : path' = path := hpath
  exact congrArg _ (RowKey.ext hvalues)

theorem encode_prefix_iff {bytes' : Bytes} (hk : Value.AllCountable k.key.values)
    (hl : Value.AllCountable l.key.values) (hkb : k.encode = .ok bytes) (hlb : l.encode = .ok bytes') :
    bytes <+: bytes' ↔ k = l := by
  constructor
  · intro hprefix
    obtain ⟨stem, hs, rfl⟩ := encode_eq hkb
    have hpath : l.path = k.path :=
      (stem_prefix_iff hs hlb).mp ((List.prefix_append _ _).trans hprefix)
    rw [encode_of_stem (hpath ▸ hs)] at hlb
    obtain rfl := Except.ok.inj hlb
    have hvalues := (Value.reads_encodeAll hk).eq_of_begins (Value.reads_encodeAll hl)
      ((List.prefix_append_right_inj stem).mp hprefix)
    obtain ⟨path, key⟩ := k
    obtain ⟨path', key'⟩ := l
    obtain rfl : path' = path := hpath
    exact congrArg _ (RowKey.ext hvalues)
  · rintro rfl
    obtain rfl := Except.ok.inj (hkb.symm.trans hlb)
    exact List.prefix_refl _

/-- The stem of a path begins the keys of that path and no others, and the bytes of a key begin no
key but itself.  Keys are the same if their values are, up to NaN. -/
theorem stem_and_key_prefix_iff {p q : String} {vs ws : List Value}
    (hp : (Bytes.ofText p).length < 2 ^ 32) (hq : (Bytes.ofText q).length < 2 ^ 32)
    (hvs : Value.AllCountable vs) (hws : Value.AllCountable ws) :
    ∃ stem bytes bytes', EntryKey.stem p = .ok stem ∧
      encode ⟨p, .ofValues vs⟩ = .ok bytes ∧ encode ⟨q, .ofValues ws⟩ = .ok bytes' ∧
      (stem <+: bytes' ↔ p = q) ∧
      (bytes <+: bytes' ↔ p = q ∧ List.Forall₂ Value.Alike vs ws) := by
  obtain ⟨stem, hstem⟩ := exists_stem hp
  obtain ⟨stem', hstem'⟩ := exists_stem hq
  have hk := encode_of_stem (k := ⟨p, .ofValues vs⟩) hstem
  have hl := encode_of_stem (k := ⟨q, .ofValues ws⟩) hstem'
  refine ⟨stem, _, _, hstem, hk, hl, ?_, ?_⟩
  · rw [stem_prefix_iff hstem hl]
    exact eq_comm
  · rw [encode_prefix_iff (RowKey.allCountable_ofValues hvs) (RowKey.allCountable_ofValues hws)
      hk hl, EntryKey.mk.injEq, RowKey.ofValues_eq_iff]

theorem stem_and_key_prefix_iff_of_nan :
    (Bytes.ofText "p=a").length < 2 ^ 32 ∧ (Bytes.ofText "p=ab").length < 2 ^ 32 ∧
      Value.AllCountable [.string "b", .float 0x7F800001] ∧
      Value.AllCountable [.string "b", .float 0xFFC00000] ∧
      ∃ stem bytes bytes', EntryKey.stem "p=a" = .ok stem ∧
        encode ⟨"p=a", .ofValues [.string "b", .float 0x7F800001]⟩ = .ok bytes ∧
        encode ⟨"p=ab", .ofValues [.string "b", .float 0xFFC00000]⟩ = .ok bytes' ∧
        (stem <+: bytes' ↔ "p=a" = "p=ab") ∧
        (bytes <+: bytes' ↔ "p=a" = "p=ab" ∧ List.Forall₂ Value.Alike
          [.string "b", .float 0x7F800001] [.string "b", .float 0xFFC00000]) := by
  have hp : (Bytes.ofText "p=a").length < 2 ^ 32 := by decide
  have hq : (Bytes.ofText "p=ab").length < 2 ^ 32 := by decide
  have hvs : Value.AllCountable [.string "b", .float 0x7F800001] := by decide
  have hws : Value.AllCountable [.string "b", .float 0xFFC00000] := by decide
  exact ⟨hp, hq, hvs, hws, stem_and_key_prefix_iff hp hq hvs hws⟩

end EntryKey

end ChangeBuffer
