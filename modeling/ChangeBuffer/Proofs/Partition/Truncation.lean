import ChangeBuffer.Proofs.Bytes.Hex
import ChangeBuffer.Proofs.Decimal.Scaled
import ChangeBuffer.Proofs.Partition.Floors
import ChangeBuffer.Proofs.Partition.Texts

/-! # Partitions by truncated values

Under a truncation two numbers share a path exactly if they are in the same bucket, and two texts or
byte strings exactly if they have the same front.
-/

namespace ChangeBuffer.Partition

structure IsFront {α : Type} (w : Nat) (front whole : List α) : Prop where
  begins : front <+: whole
  length : front.length = min w whole.length

/-- The text of a value that is truncated.  For a number it denotes the largest multiple of the
width up to the number, with the decimal places of the type. -/
inductive TruncatesTo (w : Nat) (type : ValueType) : Value → List Char → Prop
  | null : TruncatesTo w type .null nullText
  | number {v : Value} {bits : Nat} {n : Int} {cs : List Char} (hv : IsNumber v bits n)
      (hlow : -2 ^ (bits - 1) ≤ w * n.fdiv w)
      (hcs : cs = Numeral.scaled (w * n.fdiv w) (scaleOf type))
      (hread : Numeral.readDecimal cs = some (((w * n.fdiv w : Int) : ℚ) * 10 ^ (-scaleOf type))) :
      TruncatesTo w type v cs
  | string {s : String} {front : List Char} (h : IsFront w front s.toList) :
      TruncatesTo w type (.string s) front
  | binary {bs front : Bytes} (h : IsFront w front bs) :
      TruncatesTo w type (.binary bs) (Hex.encode front)

/-- Values that are the same once they are truncated: numbers of one bucket, texts or byte strings
with one front, and null and the texts that begin with its name. -/
inductive SameTruncation (w : Nat) : Value → Value → Prop
  | null : SameTruncation w .null .null
  | number {v v' : Value} {bits bits' : Nat} {n n' k : Int} (hv : IsNumber v bits n)
      (hv' : IsNumber v' bits' n') (h : k * w ≤ n ∧ n < (k + 1) * w)
      (h' : k * w ≤ n' ∧ n' < (k + 1) * w) : SameTruncation w v v'
  | string {s s' : String} {front : List Char} (h : IsFront w front s.toList)
      (h' : IsFront w front s'.toList) : SameTruncation w (.string s) (.string s')
  | binary {bs bs' front : Bytes} (h : IsFront w front bs) (h' : IsFront w front bs') :
      SameTruncation w (.binary bs) (.binary bs')
  | nullText {s : String} (h : IsFront w nullText s.toList) : SameTruncation w .null (.string s)
  | textNull {s : String} (h : IsFront w nullText s.toList) : SameTruncation w (.string s) .null

variable {w bits bits' : Nat} {type : ValueType} {v v' : Value} {n n' : Int} {cs cs' : List Char}

theorem SameTruncation.symm (h : SameTruncation w v v') : SameTruncation w v' v := by
  cases h with
  | null => exact .null
  | number hv hv' h h' => exact .number hv' hv h' h
  | string h h' => exact .string h' h
  | binary h h' => exact .binary h' h
  | nullText h => exact .textNull h
  | textNull h => exact .nullText h

theorem isFront_iff {α : Type} {front whole : List α} :
    IsFront w front whole ↔ front = whole.take w := by
  constructor
  · rintro ⟨hbegins, hlength⟩
    rw [List.prefix_iff_eq_take.mp hbegins, hlength, List.take_eq_take_iff]
    omega
  · rintro rfl
    exact ⟨List.take_prefix w whole, List.length_take⟩

theorem type_eq_string {s : String} :
    {type : ValueType} → (Value.string s).conforms type = true → type = .string
  | .string, _ => rfl

theorem type_eq_binary {bs : Bytes} :
    {type : ValueType} → (Value.binary bs).conforms type = true → type = .binary
  | .binary, _ => rfl

namespace TruncatesTo

theorem scaled_ne_nullText (n scale : Int) : Numeral.scaled n scale ≠ nullText := by
  intro h
  have hread := congrArg Numeral.readDecimal h
  have hnone : Numeral.readDecimal nullText = none := by decide
  rw [Numeral.readDecimal_scaled, hnone] at hread
  cases hread

theorem encode_ne_nullText (bs : Bytes) : Hex.encode bs ≠ nullText := by
  intro h
  have hread := congrArg Hex.read h
  have hnone : Hex.read nullText = none := by decide
  rw [Hex.read_encode, hnone] at hread
  cases hread

theorem of_truncateText (hf : (Transform.truncate w).Fits type) (hc : v.conforms type = true)
    (hv : v.isNull = false) (h : truncateText w type v = .ok cs) : TruncatesTo w type v cs := by
  have hnumber {bits : Nat} {n : Int} (hn : IsNumber v bits n) : TruncatesTo w type v cs := by
    rw [truncateText_of_isNumber hf hc hn, floorTo_eq] at h
    split at h
    next hlow =>
      obtain rfl := Except.ok.inj h
      exact .number hn hlow rfl (Numeral.readDecimal_scaled _ _)
    next => cases h
  match type, v, hf.applies, hc, hv with
  | .int, .int v, _, _, _ => exact hnumber (.int v)
  | .long, .long v, _, _, _ => exact hnumber (.long v)
  | .decimal _ _, .decimal v, _, _, _ => exact hnumber (.decimal v)
  | .string, .string s, _, _, _ =>
    obtain rfl := Except.ok.inj h
    exact .string (isFront_iff.mpr rfl)
  | .binary, .binary bs, _, _, _ =>
    obtain rfl := Except.ok.inj h
    exact .binary (isFront_iff.mpr rfl)

theorem truncateText_eq (hf : (Transform.truncate w).Fits type) (hc : v.conforms type = true)
    (hn : IsNumber v bits n) (hlow : -2 ^ (bits - 1) ≤ w * n.fdiv w) :
    truncateText w type v = .ok (Numeral.scaled (w * n.fdiv w) (scaleOf type)) := by
  rw [truncateText_of_isNumber hf hc hn, floorTo_eq, if_pos hlow]
  rfl

theorem nullText_eq_iff (h : TruncatesTo w type v cs) :
    nullText = cs ↔ SameTruncation w .null v := by
  cases h with
  | null => exact iff_of_true rfl .null
  | number hv _ hcs _ =>
    refine iff_of_false (fun heq => scaled_ne_nullText _ _ (hcs.symm.trans heq.symm)) ?_
    cases hv <;>
      · intro hsame
        cases hsame with
        | number hnull => cases hnull
  | string h =>
    constructor
    · rintro rfl
      exact .nullText h
    · rintro (_ | ⟨hnull⟩ | _ | _ | h')
      · cases hnull
      · rw [isFront_iff.mp h, isFront_iff.mp h']
  | binary h =>
    refine iff_of_false (encode_ne_nullText _).symm ?_
    intro hsame
    cases hsame with
    | number hnull => cases hnull

theorem eq_iff_of_isNumber (hw : 0 < w) (hv : IsNumber v bits n) (hv' : IsNumber v' bits' n') :
    w * n.fdiv w = w * n'.fdiv w ↔ SameTruncation w v v' := by
  have hpos : (w : Int) ≠ 0 := Int.natCast_ne_zero.mpr hw.ne'
  rw [mul_right_inj' hpos, fdiv_eq_iff hw]
  constructor
  · intro h
    exact .number hv hv' h ((fdiv_eq_iff hw).mp rfl)
  · intro hsame
    cases hsame with
    | number hk hk' h h' =>
      obtain ⟨-, rfl⟩ := hv.unique hk
      obtain ⟨-, rfl⟩ := hv'.unique hk'
      rwa [(fdiv_eq_iff hw).mpr h']
    | _ => cases hv

theorem eq_nullText_iff (h : TruncatesTo w type v cs) :
    cs = nullText ↔ SameTruncation w v .null := by
  rw [eq_comm, h.nullText_eq_iff]
  exact ⟨.symm, .symm⟩

/-- Values of one type have the same text exactly if their truncations are the same. -/
theorem eq_iff (hw : 0 < w) (hc : v.conforms type = true) (hc' : v'.conforms type = true)
    (h : TruncatesTo w type v cs) (h' : TruncatesTo w type v' cs') :
    cs = cs' ↔ SameTruncation w v v' := by
  have hnull := h'.nullText_eq_iff
  have hnull' := h.eq_nullText_iff
  cases h with
  | null => exact hnull
  | number hv _ hcs _ =>
    cases h' with
    | null => exact hnull'
    | number hv' _ hcs' _ =>
      rw [hcs, hcs', ← eq_iff_of_isNumber hw hv hv']
      exact ⟨Numeral.scaled_inj, congrArg (Numeral.scaled · _)⟩
    | string =>
      obtain rfl := type_eq_string hc'
      cases hv <;> cases hc
    | binary =>
      obtain rfl := type_eq_binary hc'
      cases hv <;> cases hc
  | string h =>
    obtain rfl := type_eq_string hc
    cases h' with
    | null => exact hnull'
    | number hv' => cases hv' <;> cases hc'
    | string h' =>
      refine ⟨fun heq => .string h (heq ▸ h'), ?_⟩
      rintro (_ | ⟨hv⟩ | ⟨hfront, hfront'⟩)
      · cases hv
      · rw [isFront_iff.mp h, isFront_iff.mp h', ← isFront_iff.mp hfront, isFront_iff.mp hfront']
    | binary => cases hc'
  | binary h =>
    obtain rfl := type_eq_binary hc
    cases h' with
    | null => exact hnull'
    | number hv' => cases hv' <;> cases hc'
    | string => cases hc'
    | binary h' =>
      refine ⟨fun heq => .binary h (Hex.encode_inj heq ▸ h'), ?_⟩
      rintro (_ | ⟨hv⟩ | _ | ⟨hfront, hfront'⟩)
      · cases hv
      · rw [isFront_iff.mp h, isFront_iff.mp h', ← isFront_iff.mp hfront, isFront_iff.mp hfront']

end TruncatesTo

variable {s : Scheme} {f : Field} {r r' : Row} {path path' text : String}

theorem Field.pos_of_transform_eq (ht : f.transform = .truncate w) : 0 < w :=
  Nat.pos_of_ne_zero fun hzero => f.fits.positive (ht.trans (congrArg _ hzero))

theorem Field.truncatesTo (ht : f.transform = .truncate w)
    (hc : (f.accessor.read r).conforms f.accessor.type = true) (h : f.valueText r = .ok text) :
    TruncatesTo w f.accessor.type (f.accessor.read r) text.toList := by
  have hf := f.fits
  rw [ht] at hf
  cases hv : (f.accessor.read r).isNull with
  | true =>
    rw [valueText_of_isNull hv, Except.ok.injEq] at h
    rw [← h, String.toList_ofList, Value.eq_null hv]
    exact .null
  | false =>
    refine .of_truncateText hf hc hv (eq_ok_of_valueText ?_ h)
    simp only [ht, Transform.render, hv, Bool.false_eq_true, if_false]

theorem Field.valueText_of_isNumber (ht : f.transform = .truncate w)
    (hc : (f.accessor.read r).conforms f.accessor.type = true)
    (hn : IsNumber (f.accessor.read r) bits n) (hlow : -2 ^ (bits - 1) ≤ w * n.fdiv w) :
    f.valueText r =
      .ok (String.ofList (Numeral.scaled (w * n.fdiv w) (scaleOf f.accessor.type))) := by
  have hf := f.fits
  rw [ht] at hf
  apply valueText_of_render
  rw [ht]
  simp only [Transform.render, hn.isNull_eq, Bool.false_eq_true, if_false,
    TruncatesTo.truncateText_eq hf hc hn hlow, Except.map]

theorem TruncatesTo.of_isNumber (h : TruncatesTo w type v cs) (hv : IsNumber v bits n) :
    -2 ^ (bits - 1) ≤ w * n.fdiv w ∧ cs = Numeral.scaled (w * n.fdiv w) (scaleOf type) ∧
      Numeral.readDecimal cs = some (((w * n.fdiv w : Int) : ℚ) * 10 ^ (-scaleOf type)) := by
  cases h with
  | number hv' hlow hcs hread =>
    obtain ⟨rfl, rfl⟩ := hv.unique hv'
    exact ⟨hlow, hcs, hread⟩
  | _ => cases hv

theorem Field.valueText_of_rounded (ht : f.transform = .truncate w)
    (hc : (f.accessor.read r).conforms f.accessor.type = true) (h : f.valueText r = .ok text)
    (hn : IsNumber (f.accessor.read r) bits n)
    (hn' : IsNumber (f.accessor.read r') bits (w * n.fdiv w)) : f.valueText r' = .ok text := by
  have hw := pos_of_transform_eq ht
  obtain ⟨hlow, hcs, -⟩ := (truncatesTo ht hc h).of_isNumber hn
  have hc' : (f.accessor.read r').conforms f.accessor.type = true := by
    rw [hn.conforms_eq hn', hc]
  rw [valueText_of_isNumber ht hc' hn' (by rwa [fdiv_mul_fdiv hw]), fdiv_mul_fdiv hw, ← hcs,
    String.ofList_toList]

/-- Two rows that differ in a truncated field have the same path exactly if their values there have
the same truncation.  The path holds the truncated value.  Rounding numbers down keeps their order,
and a number that is rounded down has the path of the number itself. -/
theorem Scheme.path_eq_iff_sameTruncation (hf : f ∈ s.fields) (ht : f.transform = .truncate w)
    (hc : (f.accessor.read r).conforms f.accessor.type = true)
    (hc' : (f.accessor.read r').conforms f.accessor.type = true) (h : s.AlikeBut f r r')
    (hp : s.path r = .ok path) (hp' : s.path r' = .ok path') :
    (path = path' ↔ SameTruncation w (f.accessor.read r) (f.accessor.read r')) ∧
      (∃ text pairs, f.valueText r = .ok text ∧ readPath path = some pairs ∧
        (f.name, text) ∈ pairs ∧
        TruncatesTo w f.accessor.type (f.accessor.read r) text.toList) ∧
      ∀ bits n, IsNumber (f.accessor.read r) bits n →
        (∀ bits' n', IsNumber (f.accessor.read r') bits' n' → n ≤ n' →
          ∃ text text' q q', f.valueText r = .ok text ∧ f.valueText r' = .ok text' ∧
            Numeral.readDecimal text.toList = some q ∧
            Numeral.readDecimal text'.toList = some q' ∧ q ≤ q') ∧
        (∃ v, IsNumber v bits (w * n.fdiv w)) ∧
        ∀ r'', IsNumber (f.accessor.read r'') bits (w * n.fdiv w) → s.AlikeBut f r r'' →
          s.path r'' = .ok path := by
  have hw := Field.pos_of_transform_eq ht
  obtain ⟨text, pairs, htext, hpairs, hmem⟩ := exists_text_of_path hf hp
  obtain ⟨text', -, htext', -, -⟩ := exists_text_of_path hf hp'
  have htrunc := Field.truncatesTo ht hc htext
  have htrunc' := Field.truncatesTo ht hc' htext'
  refine ⟨?_, ⟨text, pairs, htext, hpairs, hmem, htrunc⟩, fun bits n hn => ⟨?_, ?_, ?_⟩⟩
  · rw [path_eq_iff_of_alikeBut hf h hp hp', htext, htext', Except.ok.injEq,
      ← htrunc.eq_iff hw hc hc' htrunc', String.toList_inj]
  · intro bits' n' hn' hle
    refine ⟨text, text', _, _, htext, htext', (htrunc.of_isNumber hn).2.2,
      (htrunc'.of_isNumber hn').2.2, ?_⟩
    have hfloor : ((w * n.fdiv w : Int) : ℚ) ≤ (w * n'.fdiv w : Int) :=
      Int.cast_le.mpr (mul_fdiv_le_mul_fdiv hw hle)
    exact mul_le_mul_of_nonneg_right hfloor (zpow_nonneg (by norm_num) _)
  · exact hn.exists_of_le (htrunc.of_isNumber hn).1 (mul_fdiv_le hw n)
  · intro r'' hn'' halike
    have htext'' := Field.valueText_of_rounded ht hc htext hn hn''
    rw [← path_congr_of_alikeBut halike (htext.trans htext''.symm), hp]

theorem Scheme.path_eq_iff_sameTruncation_of_negative_cents :
    ∃ (s : Scheme) (f : Field) (r r' : Row),
      bind ⟨[⟨1, "price", .truncate 50⟩, ⟨2, "shop", .identity⟩]⟩
        ⟨[⟨2, "shop", .string, true⟩, ⟨1, "price", .decimal 9 2, false⟩]⟩ = .ok s ∧
      r.values = [.string "a/b", .decimal (-1)] ∧ r'.values = [.string "a/b", .decimal (-50)] ∧
      f ∈ s.fields ∧ f.transform = .truncate 50 ∧
      f.accessor.read r = .decimal (-1) ∧ f.accessor.read r' = .decimal (-50) ∧
      (f.accessor.read r).conforms f.accessor.type = true ∧
      (f.accessor.read r').conforms f.accessor.type = true ∧ s.AlikeBut f r r' ∧
      s.path r = .ok "price=-0.50/shop=a%2Fb" ∧ s.path r' = .ok "price=-0.50/shop=a%2Fb" ∧
      SameTruncation 50 (f.accessor.read r) (f.accessor.read r') := by
  obtain ⟨s, hs⟩ : ∃ s, bind ⟨[⟨1, "price", .truncate 50⟩, ⟨2, "shop", .identity⟩]⟩
      ⟨[⟨2, "shop", .string, true⟩, ⟨1, "price", .decimal 9 2, false⟩]⟩ = .ok s := ⟨_, rfl⟩
  obtain ⟨f, g, hfields, ht, hread, hread', htype, hg⟩ : ∃ f g, s.fields = [f, g] ∧
      f.transform = .truncate 50 ∧
      f.accessor.read ⟨.insert, [.string "a/b", .decimal (-1)]⟩ = .decimal (-1) ∧
      f.accessor.read ⟨.insert, [.string "a/b", .decimal (-50)]⟩ = .decimal (-50) ∧
      f.accessor.type = .decimal 9 2 ∧
      g.valueText ⟨.insert, [.string "a/b", .decimal (-1)]⟩ =
        g.valueText ⟨.insert, [.string "a/b", .decimal (-50)]⟩ := by
    obtain rfl := Except.ok.inj hs
    exact ⟨_, _, rfl, rfl, rfl, rfl, rfl, rfl⟩
  have hf : f ∈ s.fields := hfields ▸ List.mem_cons_self
  have hc : (f.accessor.read ⟨.insert, [.string "a/b", .decimal (-1)]⟩).conforms
      f.accessor.type = true := by
    rw [hread, htype]
    rfl
  have hc' : (f.accessor.read ⟨.insert, [.string "a/b", .decimal (-50)]⟩).conforms
      f.accessor.type = true := by
    rw [hread', htype]
    rfl
  have halike : s.AlikeBut f ⟨.insert, [.string "a/b", .decimal (-1)]⟩
      ⟨.insert, [.string "a/b", .decimal (-50)]⟩ := by
    intro h hh hne
    rw [hfields, List.mem_cons, List.mem_singleton] at hh
    rw [hh.resolve_left hne, hg]
  have hp : s.path ⟨.insert, [.string "a/b", .decimal (-1)]⟩ = .ok "price=-0.50/shop=a%2Fb" := by
    obtain rfl := Except.ok.inj hs
    cbv
  have hp' : s.path ⟨.insert, [.string "a/b", .decimal (-50)]⟩ =
      .ok "price=-0.50/shop=a%2Fb" := by
    obtain rfl := Except.ok.inj hs
    cbv
  exact ⟨s, f, _, _, hs, rfl, rfl, hf, ht, hread, hread', hc, hc', halike, hp, hp',
    (path_eq_iff_sameTruncation hf ht hc hc' halike hp hp').1.mp rfl⟩

end ChangeBuffer.Partition
