import ChangeBuffer.Codec.Decoder

/-! # Decoders that read what was written

A decoder reads `a` from bytes if it gives `a` and leaves exactly what follows them.  Decoders that
are put together read what their parts read, one behind the other.  Conversely a decoder that takes
nothing but written forms gives only what its bytes begin with.
-/

namespace ChangeBuffer

theorem Utf8.decode_ofText (s : String) : Utf8.decode (Bytes.ofText s) = .ok s := by
  have hbytes : (⟨(Bytes.ofText s).toArray⟩ : ByteArray) = s.toByteArray := by simp [Bytes.ofText]
  rw [Utf8.decode, hbytes, String.fromUTF8?, dif_pos s.isValidUTF8]
  rfl

theorem Utf8.ofText_of_decode {bs : Bytes} {s : String} (h : Utf8.decode bs = .ok s) :
    Bytes.ofText s = bs := by
  unfold Utf8.decode String.fromUTF8? at h
  split at h
  next t ht =>
    split at ht
    · obtain rfl := Option.some.inj ht
      obtain rfl := Except.ok.inj h
      simp [Bytes.ofText, String.fromUTF8]
    · cases ht
  next => cases h

namespace Decoder

variable {α β : Type} {d : Decoder α} {bs cs : Bytes} {a : α}

/-- The decoder gives `a` for bytes that begin with `bs`, and leaves the rest. -/
def Reads (d : Decoder α) (bs : Bytes) (a : α) : Prop := ∀ rest, d (bs ++ rest) = .ok (a, rest)

theorem Reads.andThen {next : α → Decoder β} {b : β} (h : d.Reads bs a)
    (hnext : (next a).Reads cs b) : (d.andThen next).Reads (bs ++ cs) b := by
  intro rest
  rw [List.append_assoc, Decoder.andThen, h]
  exact hnext rest

theorem Reads.map (f : α → β) (h : d.Reads bs a) : (d.map f).Reads bs (f a) := by
  intro rest
  rw [Decoder.map, h]

theorem Reads.unique {b : α} (h : d.Reads bs a) (h' : d.Reads bs b) : a = b := by
  have he := (h []).symm.trans (h' [])
  simpa using he

theorem reads_bytes (bs : Bytes) : (bytes bs.length).Reads bs bs := by
  intro rest
  simp [bytes]

theorem reads_word {k n : Nat} (h : n < 256 ^ k) : (word k).Reads (Word.encode k n) n := by
  have hread := (reads_bytes (Word.encode k n)).map Word.value
  rwa [Word.length_encode, Word.value_encode h] at hread

theorem reads_boolean (b : Bool) : boolean.Reads (Word.encode 1 b.toNat) b := by
  have hword : (word 1).Reads (Word.encode 1 b.toNat) b.toNat :=
    reads_word (by cases b <;> decide)
  rw [← List.append_nil (Word.encode 1 b.toNat)]
  refine hword.andThen fun rest => ?_
  cases b <;> rfl

theorem reads_blob {bs : Bytes} (h : bs.length < 256 ^ 8) :
    blob.Reads (Word.encode 8 bs.length ++ bs) bs := (reads_word h).andThen (reads_bytes bs)

theorem reads_text {s : String} (h : (Bytes.ofText s).length < 256 ^ 8) :
    text.Reads (Word.encode 8 (Bytes.ofText s).length ++ Bytes.ofText s) s := by
  refine (reads_word h).andThen fun rest => ?_
  simp [Utf8.decode_ofText]

theorem reads_many {encode : α → Bytes} {as : List α} (h : ∀ a ∈ as, d.Reads (encode a) a) :
    (d.many as.length).Reads (as.flatMap encode) as := by
  induction as with
  | nil => exact fun rest => rfl
  | cons a as ih =>
    have ih := ih fun b hb => h b (List.mem_cons_of_mem _ hb)
    exact (h a List.mem_cons_self).andThen (ih.map _)

theorem reads_sequence {encode : α → Bytes} {as : List α} (hlen : as.length < 256 ^ 8)
    (h : ∀ a ∈ as, d.Reads (encode a) a) :
    d.sequence.Reads (Word.encode 8 as.length ++ as.flatMap encode) as :=
  (reads_word hlen).andThen (reads_many h)

/-- No encoding begins with the encoding of something else. -/
theorem Reads.eq_of_begins {b : α} (h : d.Reads bs a) (h' : d.Reads cs b) (hp : bs <+: cs) :
    a = b := by
  obtain ⟨rest, rfl⟩ := hp
  have hread := h' []
  rw [List.append_nil, h] at hread
  exact (Prod.mk.inj (Except.ok.inj hread)).1

/-! ## Nothing else is taken -/

def Takes (d : Decoder α) (encode : α → Bytes) (p : α → Prop) : Prop :=
  ∀ ⦃bs : Bytes⦄ ⦃a : α⦄ ⦃rest : Bytes⦄, d bs = .ok (a, rest) → p a ∧ bs = encode a ++ rest

section Takes

variable {encode : α → Bytes} {p : α → Prop} {rest : Bytes}

theorem exists_of_andThen {next : α → Decoder β} {b : β}
    (h : d.andThen next bs = .ok (b, rest)) :
    ∃ a cs, d bs = .ok (a, cs) ∧ next a cs = .ok (b, rest) := by
  unfold andThen at h
  split at h
  next a cs ha => exact ⟨a, cs, ha, h⟩
  next => cases h

theorem exists_of_map {f : α → β} {b : β} (h : d.map f bs = .ok (b, rest)) :
    ∃ a, d bs = .ok (a, rest) ∧ f a = b := by
  unfold map at h
  split at h
  next a cs ha =>
    obtain ⟨rfl, rfl⟩ := Prod.mk.inj (Except.ok.inj h)
    exact ⟨a, ha, rfl⟩
  next => cases h

theorem takes_bytes (n : Nat) : (bytes n).Takes id (·.length = n) := by
  intro bs a rest h
  unfold bytes at h
  split at h
  next hlen =>
    obtain ⟨rfl, rfl⟩ := Prod.mk.inj (Except.ok.inj h)
    exact ⟨List.length_take_of_le (by simpa using hlen), (List.take_append_drop n bs).symm⟩
  next => cases h

theorem takes_word (k : Nat) : (word k).Takes (Word.encode k) (· < 256 ^ k) := by
  intro bs n rest h
  obtain ⟨cs, hcs, rfl⟩ := exists_of_map h
  obtain ⟨rfl, rfl⟩ := takes_bytes k hcs
  exact ⟨Word.value_lt cs, by rw [Word.encode_value]; rfl⟩

theorem takes_boolean : boolean.Takes (fun b => Word.encode 1 b.toNat) (fun _ => True) := by
  intro bs b rest h
  obtain ⟨n, cs, hn, hb⟩ := exists_of_andThen h
  obtain ⟨-, rfl⟩ := takes_word 1 hn
  split at hb
  next =>
    obtain ⟨rfl, rfl⟩ := Prod.mk.inj (Except.ok.inj hb)
    exact ⟨trivial, rfl⟩
  next =>
    obtain ⟨rfl, rfl⟩ := Prod.mk.inj (Except.ok.inj hb)
    exact ⟨trivial, rfl⟩
  next => cases hb

theorem takes_blob : blob.Takes (fun a => Word.encode 8 a.length ++ a) (·.length < 256 ^ 8) := by
  intro bs a rest h
  obtain ⟨n, cs, hn, ha⟩ := exists_of_andThen h
  obtain ⟨hlt, rfl⟩ := takes_word 8 hn
  obtain ⟨rfl, rfl⟩ := takes_bytes n ha
  exact ⟨hlt, (List.append_assoc ..).symm⟩

theorem takes_text : text.Takes (fun s => Word.encode 8 (Bytes.ofText s).length ++ Bytes.ofText s)
    (fun s => (Bytes.ofText s).length < 256 ^ 8) := by
  intro bs s rest h
  obtain ⟨n, cs, hn, hs⟩ := exists_of_andThen h
  obtain ⟨hlt, rfl⟩ := takes_word 8 hn
  split at hs
  next hlen =>
    split at hs
    next t ht =>
      obtain ⟨rfl, rfl⟩ := Prod.mk.inj (Except.ok.inj hs)
      have htext := Utf8.ofText_of_decode ht
      have hlength : (Bytes.ofText t).length = n := by
        rw [htext]
        exact List.length_take_of_le (by simpa using hlen)
      have hcs : cs = Bytes.ofText t ++ cs.drop n := by rw [htext, List.take_append_drop]
      refine ⟨by simpa only [hlength] using hlt, ?_⟩
      simp only [hlength, List.append_assoc, ← hcs]
    next => cases hs
  next => cases hs

theorem Takes.many (h : d.Takes encode p) (n : Nat) :
    (d.many n).Takes (·.flatMap encode) (fun as => as.length = n ∧ ∀ a ∈ as, p a) := by
  induction n with
  | zero =>
    intro bs as rest has
    obtain ⟨rfl, rfl⟩ := Prod.mk.inj (Except.ok.inj has)
    simp
  | succ n ih =>
    intro bs cs rest hcs
    obtain ⟨a, mid, ha, hmid⟩ := exists_of_andThen hcs
    obtain ⟨hp, rfl⟩ := h ha
    obtain ⟨as, has, rfl⟩ := exists_of_map hmid
    obtain ⟨⟨rfl, hall⟩, rfl⟩ := ih has
    refine ⟨⟨rfl, List.forall_mem_cons.mpr ⟨hp, hall⟩⟩, ?_⟩
    simp only [List.flatMap_cons, List.append_assoc]

theorem Takes.sequence (h : d.Takes encode p) :
    d.sequence.Takes (fun as => Word.encode 8 as.length ++ as.flatMap encode)
      (fun as => as.length < 256 ^ 8 ∧ ∀ a ∈ as, p a) := by
  intro bs as rest has
  obtain ⟨n, cs, hn, hcs⟩ := exists_of_andThen has
  obtain ⟨hlt, rfl⟩ := takes_word 8 hn
  obtain ⟨⟨rfl, hall⟩, rfl⟩ := h.many n hcs
  exact ⟨⟨hlt, hall⟩, (List.append_assoc ..).symm⟩

end Takes

end Decoder

end ChangeBuffer
