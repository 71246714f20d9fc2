import ChangeBuffer.Proofs.Codec.Decoder
import ChangeBuffer.Row.Codec

/-! # Values and rows read back

A value or row is read back from the bytes that it was written to, if these are few enough for
their numbers to be written.  Bytes that do not begin with a written row are not read at all.
-/

namespace ChangeBuffer

namespace Value

def Sized (v : Value) : Prop := v.encode.length < 2 ^ 64

theorem length_lt_of_sized {v : Value} (kind : Nat) {bs : Bytes}
    (h : v.encode = Word.encode 4 kind ++ encodeBlob bs) (hv : v.Sized) : bs.length < 256 ^ 8 := by
  rw [Sized, h] at hv
  simp [encodeBlob] at hv
  omega

/-- The bytes of a text or byte string can be counted by a word of eight bytes.  Nothing in memory
is longer. -/
def Countable : Value → Prop
  | string s => (Bytes.ofText s).length < 256 ^ 8
  | binary bs => bs.length < 256 ^ 8
  | _ => True

instance : (v : Value) → Decidable v.Countable
  | string _ | binary _ => inferInstanceAs (Decidable (_ < _))
  | null | boolean _ | int _ | long _ | float _ | double _ | date _ | timestamp _ | decimal _ =>
    inferInstanceAs (Decidable True)

def AllCountable (vs : List Value) : Prop := vs.length < 256 ^ 8 ∧ ∀ v ∈ vs, v.Countable

instance (vs : List Value) : Decidable (AllCountable vs) := inferInstanceAs (Decidable (_ ∧ _))

theorem Sized.countable {v : Value} (h : v.Sized) : v.Countable := by
  cases v with
  | string s => exact length_lt_of_sized 8 rfl h
  | binary bs => exact length_lt_of_sized 9 rfl h
  | _ => trivial

theorem reads_word {w k : Nat} (hw : 2 ^ w = 256 ^ k) (f : BitVec w → Value) (v : BitVec w) :
    ((Decoder.word k).map fun n => f (.ofNat w n)).Reads (Word.encode k v.toNat) (f v) := by
  have hread := (Decoder.reads_word (k := k) (hw ▸ v.isLt)).map fun n => f (.ofNat w n)
  rwa [BitVec.ofNat_toNat, BitVec.setWidth_eq] at hread

theorem reads_encode {v : Value} (h : v.Countable) : decode.Reads v.encode v := by
  have hkind {kind : Nat} (hk : kind < 256 ^ 4) {v : Value} {bs : Bytes}
      (hp : (decodePayload kind).Reads bs v) : decode.Reads (Word.encode 4 kind ++ bs) v :=
    (Decoder.reads_word hk).andThen hp
  cases v with
  | null =>
    have hnull : (decodePayload 0).Reads [] null := fun rest => rfl
    exact hkind (by decide) hnull
  | boolean b => exact hkind (by decide) ((Decoder.reads_boolean b).map boolean)
  | int v => exact hkind (by decide) (reads_word (by decide) int v)
  | long v => exact hkind (by decide) (reads_word (by decide) long v)
  | float bits => exact hkind (by decide) (reads_word (by decide) float bits)
  | double bits => exact hkind (by decide) (reads_word (by decide) double bits)
  | date days => exact hkind (by decide) (reads_word (by decide) date days)
  | timestamp micros => exact hkind (by decide) (reads_word (by decide) timestamp micros)
  | string s => exact hkind (by decide) ((Decoder.reads_text h).map string)
  | binary bs => exact hkind (by decide) ((Decoder.reads_blob h).map binary)
  | decimal unscaled => exact hkind (by decide) (reads_word (by decide) decimal unscaled)

theorem four_le_length_encode (v : Value) : 4 ≤ v.encode.length := by
  cases v <;> simp [encode]

theorem length_le_length_flatMap_encode (vs : List Value) :
    vs.length ≤ (vs.flatMap encode).length := by
  induction vs with
  | nil => simp
  | cons v vs ih =>
    have := v.four_le_length_encode
    simp only [List.flatMap_cons, List.length_append, List.length_cons]
    omega

theorem length_encode_le_of_mem {v : Value} {vs : List Value} (h : v ∈ vs) :
    v.encode.length ≤ (vs.flatMap encode).length := by
  obtain ⟨front, back, rfl⟩ := List.append_of_mem h
  simp only [List.flatMap_append, List.flatMap_cons, List.length_append]
  omega

theorem length_encodeAll (vs : List Value) :
    (encodeAll vs).length = 8 + (vs.flatMap encode).length := by simp [encodeAll]

theorem reads_encodeAll {vs : List Value} (h : AllCountable vs) :
    decodeAll.Reads (encodeAll vs) vs := Decoder.reads_sequence h.1 fun v hv => reads_encode (h.2 v hv)

theorem allCountable_of_length {vs : List Value} (h : (encodeAll vs).length < 2 ^ 64) :
    AllCountable vs := by
  rw [length_encodeAll] at h
  have hlen := length_le_length_flatMap_encode vs
  refine ⟨by omega, fun v hv => Sized.countable ?_⟩
  have := length_encode_le_of_mem hv
  rw [Sized]
  omega

theorem takes_word {w k : Nat} (hw : 2 ^ w = 256 ^ k) {f : BitVec w → Value} {bs rest : Bytes}
    {v : Value} (h : ((Decoder.word k).map fun n => f (.ofNat w n)) bs = .ok (v, rest)) :
    ∃ x, v = f x ∧ bs = Word.encode k x.toNat ++ rest := by
  obtain ⟨n, hn, rfl⟩ := Decoder.exists_of_map h
  obtain ⟨hlt, rfl⟩ := Decoder.takes_word k hn
  refine ⟨_, rfl, ?_⟩
  rw [BitVec.toNat_ofNat, Nat.mod_eq_of_lt (hw ▸ hlt)]

theorem takes_decode : decode.Takes encode Countable := by
  intro bs v rest h
  obtain ⟨kind, cs, hkind, hv⟩ := Decoder.exists_of_andThen h
  obtain ⟨-, rfl⟩ := Decoder.takes_word 4 hkind
  unfold decodePayload at hv
  split at hv
  case h_1 =>
    obtain ⟨rfl, rfl⟩ := Prod.mk.inj (Except.ok.inj hv)
    exact ⟨trivial, rfl⟩
  case h_2 =>
    obtain ⟨b, hb, rfl⟩ := Decoder.exists_of_map hv
    obtain ⟨-, rfl⟩ := Decoder.takes_boolean hb
    exact ⟨trivial, (List.append_assoc ..).symm⟩
  case h_9 =>
    obtain ⟨s, hs, rfl⟩ := Decoder.exists_of_map hv
    obtain ⟨hlt, rfl⟩ := Decoder.takes_text hs
    exact ⟨hlt, (List.append_assoc ..).symm⟩
  case h_10 =>
    obtain ⟨bs, hbs, rfl⟩ := Decoder.exists_of_map hv
    obtain ⟨hlt, rfl⟩ := Decoder.takes_blob hbs
    exact ⟨hlt, (List.append_assoc ..).symm⟩
  case h_12 => cases hv
  all_goals
    obtain ⟨x, rfl, rfl⟩ := takes_word (by decide) hv
    exact ⟨trivial, (List.append_assoc ..).symm⟩

theorem takes_decodeAll : decodeAll.Takes encodeAll AllCountable := takes_decode.sequence

end Value

theorem Change.reads_code (c : Change) : Change.decode.Reads (Word.encode 4 c.code) c := by
  have hword : (Decoder.word 4).Reads (Word.encode 4 c.code) c.code :=
    Decoder.reads_word (by cases c <;> decide)
  rw [← List.append_nil (Word.encode 4 c.code)]
  refine hword.andThen fun rest => ?_
  simp [Change.ofCode?_code]

theorem Change.code_of_ofCode? {n : Nat} {c : Change} (h : ofCode? n = some c) : c.code = n := by
  unfold ofCode? at h
  split at h
  · obtain rfl := Option.some.inj h
    rfl
  · obtain rfl := Option.some.inj h
    rfl
  · obtain rfl := Option.some.inj h
    rfl
  · obtain rfl := Option.some.inj h
    rfl
  · cases h

theorem Change.takes_decode :
    Change.decode.Takes (fun c => Word.encode 4 c.code) (fun _ => True) := by
  intro bs c rest h
  obtain ⟨n, cs, hn, hc⟩ := Decoder.exists_of_andThen h
  obtain ⟨-, rfl⟩ := Decoder.takes_word 4 hn
  split at hc
  next d hd =>
    obtain ⟨rfl, rfl⟩ := Prod.mk.inj (Except.ok.inj hc)
    exact ⟨trivial, by simp only [Change.code_of_ofCode? hd]⟩
  next => cases hc

namespace Row

def Countable (r : Row) : Prop := Value.AllCountable r.values

/-- The row takes fewer bytes than a word of eight bytes can count, as every row in memory does. -/
def Sized (r : Row) : Prop := r.encode.length < 2 ^ 64

instance (r : Row) : Decidable r.Sized := inferInstanceAs (Decidable (_ < _))

variable {r : Row}

theorem Sized.countable (h : r.Sized) : r.Countable := by
  refine Value.allCountable_of_length ?_
  rw [Sized, encode, List.length_append] at h
  omega

theorem reads_encode (h : r.Countable) : read.Reads r.encode r :=
  (Change.reads_code r.change).andThen ((Value.reads_encodeAll h).map (Row.mk r.change))

theorem takes_read : read.Takes encode Countable := by
  intro bs r rest h
  obtain ⟨change, cs, hchange, hr⟩ := Decoder.exists_of_andThen h
  obtain ⟨-, rfl⟩ := Change.takes_decode hchange
  obtain ⟨vs, hvs, rfl⟩ := Decoder.exists_of_map hr
  obtain ⟨hcount, rfl⟩ := Value.takes_decodeAll hvs
  exact ⟨hcount, (List.append_assoc ..).symm⟩

theorem decode_eq_ok {bs : Bytes} : decode bs = .ok r ↔ ∃ rest, read bs = .ok (r, rest) := by
  unfold decode
  cases read bs with
  | error fault => simp [Except.map]
  | ok result => simp [Except.map, Prod.ext_iff]

theorem decode_encode (h : r.Sized) : decode r.encode = .ok r := by
  have hread := reads_encode h.countable []
  rw [List.append_nil] at hread
  exact decode_eq_ok.mpr ⟨[], hread⟩

/-- Bytes are read as a row exactly if they begin with what is written for it, whatever follows. -/
theorem decode_eq_ok_iff {bs : Bytes} :
    decode bs = .ok r ↔ r.Countable ∧ ∃ rest, bs = r.encode ++ rest := by
  rw [decode_eq_ok]
  constructor
  · rintro ⟨rest, h⟩
    obtain ⟨hcount, hbs⟩ := takes_read h
    exact ⟨hcount, rest, hbs⟩
  · rintro ⟨hcount, rest, rfl⟩
    exact ⟨rest, reads_encode hcount rest⟩

theorem Sized.value (h : r.Sized) {v : Value} (hv : v ∈ r.values) : v.Sized := by
  have hle := Value.length_encode_le_of_mem hv
  rw [Sized, encode, List.length_append, Value.length_encodeAll] at h
  rw [Value.Sized]
  omega

end Row

end ChangeBuffer
