import ChangeBuffer.Proofs.Buffer.Reach
import Mathlib.Data.List.Sort

/-! # Positions of key columns

The key columns of a buffer stand at the first positions with their ids, in ascending order,
whatever the order in which they are listed.  A buffer that has them has an accessor for each,
before and after every call; else what is wrong is wrong with the first column that has something
wrong with it.
-/

namespace ChangeBuffer

namespace Schema

variable {s : Schema} {id id' : Int} {i j : Nat}

structure FirstAt (s : Schema) (id : Int) (position : Nat) : Prop where
  here : ∃ c, s.columns[position]? = some c ∧ c.id = id
  first : ∀ c ∈ s.columns.take position, c.id ≠ id

theorem position?_eq_some_iff : s.position? id = some i ↔ s.FirstAt id i := by
  rw [position?, List.findIdx?_eq_some_iff_getElem]
  simp only [decide_eq_true_eq]
  constructor
  · rintro ⟨hi, hid, hbefore⟩
    refine ⟨⟨_, List.getElem?_eq_getElem hi, hid⟩, fun c hc => ?_⟩
    obtain ⟨j, hj, rfl⟩ := List.mem_take_iff_getElem.mp hc
    exact hbefore j (by omega)
  · rintro ⟨⟨c, hc, hid⟩, hbefore⟩
    obtain ⟨hi, rfl⟩ := List.getElem?_eq_some_iff.mp hc
    refine ⟨hi, hid, fun j hj => hbefore _ ?_⟩
    exact List.mem_take_iff_getElem.mpr ⟨j, by omega, rfl⟩

theorem position?_eq_none_iff : s.position? id = none ↔ ∀ c ∈ s.columns, c.id ≠ id := by
  simp [position?, List.findIdx?_eq_none_iff]

theorem FirstAt.unique (hi : s.FirstAt id i) (hj : s.FirstAt id j) : i = j :=
  Option.some.inj ((position?_eq_some_iff.mpr hi).symm.trans (position?_eq_some_iff.mpr hj))

theorem FirstAt.id_eq (h : s.FirstAt id i) (h' : s.FirstAt id' i) : id = id' := by
  obtain ⟨c, hc, rfl⟩ := h.here
  obtain ⟨c', hc', rfl⟩ := h'.here
  exact congrArg Column.id (Option.some.inj (hc.symm.trans hc'))

end Schema

namespace KeyColumns

variable {key schema : Schema} {count : Nat} {taken : List Int} {done cs : List Column} {c : Column}
  {e : KeyError} {position : Fin count} {positions : List (Fin count)}

/-- What is wrong with a key column that stands behind others. -/
inductive Offence (schema : Schema) (count : Nat) (front : List Column) (c : Column) :
    KeyError → Prop
  | duplicate : c.id ∈ front.map Column.id → Offence schema count front c (.duplicate c.id)
  | unresolved : c.id ∉ front.map Column.id → (∀ d ∈ schema.columns, d.id ≠ c.id) →
      Offence schema count front c (.unresolved c.id c.name)
  | noAccessor {position : Nat} : c.id ∉ front.map Column.id → schema.FirstAt c.id position →
      count ≤ position → Offence schema count front c (.noAccessor position count)

/-- Each column of the key is among those of the schema, none is listed twice, and there is an
accessor for each. -/
structure Resolves (key schema : Schema) (count : Nat) : Prop where
  ne_nil : key.columns ≠ []
  nodup : (key.columns.map Column.id).Nodup
  exists_position : ∀ c ∈ key.columns, ∃ position < count, schema.FirstAt c.id position

theorem locate_eq_ok_iff :
    locate schema count taken c = .ok position ↔ c.id ∉ taken ∧ schema.FirstAt c.id position := by
  rw [← Schema.position?_eq_some_iff]
  unfold locate
  split
  next htaken => simp [htaken]
  next htaken =>
    cases schema.position? c.id with
    | none => simp
    | some i =>
      by_cases hi : i < count
      · simp [hi, htaken, Fin.ext_iff]
      · have hne : i ≠ position := fun h => hi (h ▸ position.isLt)
        simp [hi, hne]

theorem locate_eq_error_iff :
    locate schema count (done.reverse.map Column.id) c = .error e ↔
      Offence schema count done c e := by
  have hmem : c.id ∈ done.reverse.map Column.id ↔ c.id ∈ done.map Column.id := by simp
  constructor
  · intro h
    unfold locate at h
    split at h
    next htaken =>
      obtain rfl := Except.error.inj h
      exact .duplicate (hmem.mp htaken)
    next htaken =>
      split at h
      next hnone =>
        obtain rfl := Except.error.inj h
        exact .unresolved (mt hmem.mpr htaken) (Schema.position?_eq_none_iff.mp hnone)
      next i hi =>
        split at h
        next => cases h
        next hcount =>
          obtain rfl := Except.error.inj h
          exact .noAccessor (mt hmem.mpr htaken) (Schema.position?_eq_some_iff.mp hi)
            (Nat.le_of_not_lt hcount)
  · rintro (hdone | ⟨hdone, hnone⟩ | ⟨hdone, hfirst, hcount⟩)
    · rw [locate, if_pos (hmem.mpr hdone)]
    · rw [locate, if_neg (mt hmem.mp hdone), Schema.position?_eq_none_iff.mpr hnone]
    · rw [locate, if_neg (mt hmem.mp hdone), Schema.position?_eq_some_iff.mpr hfirst]
      exact dif_neg (Nat.not_lt_of_le hcount)

theorem locateAll_cons_eq_ok_iff :
    locateAll schema count taken (c :: cs) = .ok positions ↔
      ∃ position rest, locate schema count taken c = .ok position ∧
        locateAll schema count (c.id :: taken) cs = .ok rest ∧ positions = position :: rest := by
  rw [locateAll]
  cases locate schema count taken c with
  | error e => simp
  | ok position => cases locateAll schema count (c.id :: taken) cs <;> simp [eq_comm]

theorem locateAll_cons_eq_error_iff :
    locateAll schema count taken (c :: cs) = .error e ↔
      locate schema count taken c = .error e ∨
        ∃ position, locate schema count taken c = .ok position ∧
          locateAll schema count (c.id :: taken) cs = .error e := by
  rw [locateAll]
  cases locate schema count taken c with
  | error e => simp
  | ok position => cases locateAll schema count (c.id :: taken) cs <;> simp

theorem locateAll_eq_ok_iff :
    locateAll schema count taken cs = .ok positions ↔
      (cs.map Column.id).Nodup ∧ (∀ c ∈ cs, c.id ∉ taken) ∧
        List.Forall₂ (fun c (p : Fin count) => schema.FirstAt c.id p) cs positions := by
  induction cs generalizing taken positions with
  | nil => simp [locateAll, eq_comm]
  | cons c cs ih =>
    rw [locateAll_cons_eq_ok_iff, List.forall₂_cons_left_iff]
    simp only [locate_eq_ok_iff, ih, List.forall_mem_cons, List.map_cons, List.nodup_cons,
      List.mem_map]
    simp only [List.mem_cons, not_or]
    constructor
    · rintro ⟨p, ps, ⟨hc, hp⟩, ⟨hnodup, htaken, hps⟩, rfl⟩
      refine ⟨⟨?_, hnodup⟩, ⟨hc, fun d hd => (htaken d hd).2⟩, p, ps, hp, hps, rfl⟩
      rintro ⟨d, hd, hid⟩
      exact (htaken d hd).1 hid
    · rintro ⟨⟨hnew, hnodup⟩, ⟨hc, htaken⟩, p, ps, hp, hps, rfl⟩
      exact ⟨p, ps, ⟨hc, hp⟩,
        ⟨hnodup, fun d hd => ⟨fun hid => hnew ⟨d, hd, hid⟩, htaken d hd⟩, hps⟩, rfl⟩

theorem locate_eq_ok_iff_not_offence :
    (∃ position, locate schema count (done.reverse.map Column.id) c = .ok position) ↔
      ∀ e, ¬ Offence schema count done c e := by
  simp only [← locate_eq_error_iff]
  cases locate schema count (done.reverse.map Column.id) c <;> simp

/-- The columns behind `done` fail to be located at the first with which something is wrong. -/
theorem locateAll_eq_error_iff (done : List Column) :
    locateAll schema count (done.reverse.map Column.id) cs = .error e ↔
      ∃ front c back, cs = front ++ c :: back ∧
        (∀ before d after, front = before ++ d :: after →
          ∀ e, ¬ Offence schema count (done ++ before) d e) ∧
        Offence schema count (done ++ front) c e := by
  induction cs generalizing done with
  | nil => simp [locateAll]
  | cons c cs ih =>
    have hdone : c.id :: done.reverse.map Column.id = (done ++ [c]).reverse.map Column.id := by simp
    rw [locateAll_cons_eq_error_iff, locate_eq_error_iff, exists_and_right, hdone, ih,
      locate_eq_ok_iff_not_offence]
    constructor
    · rintro (hc | ⟨hc, front, d, back, rfl, hfront, hd⟩)
      · exact ⟨[], c, cs, rfl, by simp, by simpa using hc⟩
      · refine ⟨c :: front, d, back, rfl, fun before d' after heq => ?_, by simpa using hd⟩
        rcases List.cons_eq_append_iff.mp heq with ⟨rfl, heq⟩ | ⟨before, rfl, heq⟩
        · obtain ⟨rfl, -⟩ := List.cons.inj heq
          simpa using hc
        · simpa using hfront before d' after (List.cons.inj heq).2
    · rintro ⟨front, d, back, heq, hfront, hd⟩
      rcases List.cons_eq_append_iff.mp heq with ⟨rfl, heq⟩ | ⟨front, rfl, rfl⟩
      · obtain ⟨rfl, -⟩ := List.cons.inj heq
        exact .inl (by simpa using hd)
      · refine .inr ⟨by simpa using hfront [] c front rfl, front, d, back, rfl, ?_,
          by simpa using hd⟩
        intro before d' after heq
        simpa using hfront (c :: before) d' after (by rw [heq, List.cons_append])

theorem nodup_of_firstAt
    (h : List.Forall₂ (fun c (p : Fin count) => schema.FirstAt c.id p) cs positions)
    (hnodup : (cs.map Column.id).Nodup) : positions.Nodup := by
  induction h with
  | nil => exact .nil
  | @cons c p cs ps hp hps ih =>
    obtain ⟨hc, hcs⟩ := List.nodup_cons.mp hnodup
    refine List.nodup_cons.mpr ⟨fun hmem => hc ?_, ih hcs⟩
    obtain ⟨d, hd, hfirst⟩ := exists_of_forall₂_of_mem hps.flip hmem
    exact List.mem_map.mpr ⟨d, hd, hfirst.id_eq hp⟩

theorem Resolves.exists_locateAll (h : Resolves key schema count) :
    ∃ positions, locateAll schema count [] key.columns = .ok positions := by
  cases hall : locateAll schema count [] key.columns with
  | ok positions => exact ⟨positions, rfl⟩
  | error e =>
    obtain ⟨front, c, back, hkey, -, hc⟩ := (locateAll_eq_error_iff []).mp hall
    have hnodup := h.nodup
    obtain ⟨p, hp, hfirst⟩ := h.exists_position c (by simp [hkey])
    rw [hkey, List.map_append, List.map_cons, List.nodup_append] at hnodup
    cases hc with
    | duplicate hmem => exact absurd rfl (hnodup.2.2 _ hmem _ List.mem_cons_self)
    | unresolved _ hnone =>
      obtain ⟨d, hd, hid⟩ := hfirst.here
      exact absurd hid (hnone d (List.mem_of_getElem? hd))
    | noAccessor _ hfirst' hcount =>
      rw [hfirst.unique hfirst'] at hp
      exact absurd hp (Nat.not_lt_of_le hcount)

theorem mem_iff_of_firstAt
    (h : List.Forall₂ (fun c (p : Fin count) => schema.FirstAt c.id p) cs positions) :
    position ∈ positions ↔ ∃ c ∈ cs, schema.FirstAt c.id position := by
  constructor
  · exact fun hmem => exists_of_forall₂_of_mem h.flip hmem
  · rintro ⟨c, hc, hfirst⟩
    obtain ⟨p, hp, hfirst'⟩ := exists_of_forall₂_of_mem h hc
    rwa [Fin.ext (hfirst.unique hfirst')]

theorem ascending_mergeSort (h : positions.Nodup) :
    (positions.mergeSort fun a b => a ≤ b).Pairwise (· < ·) := by
  have hle := List.pairwise_mergeSort' (· ≤ ·) positions
  have hne := (List.mergeSort_perm positions fun a b => a ≤ b).symm.nodup h
  exact (hle.and hne).imp fun hab => lt_of_le_of_ne hab.1 hab.2

theorem of_resolve (h : resolve key schema count = .ok positions) :
    Resolves key schema count ∧ positions.Pairwise (· < ·) ∧
      ∀ p, p ∈ positions ↔ ∃ c ∈ key.columns, schema.FirstAt c.id p := by
  unfold resolve at h
  split at h
  · cases h
  next hne =>
    cases hall : locateAll schema count [] key.columns with
    | error e => cases hall ▸ h
    | ok located =>
      rw [hall] at h
      obtain rfl := Except.ok.inj h
      obtain ⟨hnodup, -, hfirst⟩ := locateAll_eq_ok_iff.mp hall
      refine ⟨⟨?_, hnodup, fun c hc => ?_⟩, ascending_mergeSort (nodup_of_firstAt hfirst hnodup),
        fun p => ?_⟩
      · rintro hnil
        exact hne (List.isEmpty_iff.mpr hnil)
      · obtain ⟨p, -, hp⟩ := exists_of_forall₂_of_mem hfirst hc
        exact ⟨p, p.isLt, hp⟩
      · rw [List.mem_mergeSort, mem_iff_of_firstAt hfirst]

theorem Resolves.exists_resolve (h : Resolves key schema count) :
    ∃ positions, resolve key schema count = .ok positions := by
  obtain ⟨located, hall⟩ := h.exists_locateAll
  have hne : key.isEmpty = false := List.isEmpty_eq_false_iff.mpr h.ne_nil
  exact ⟨_, by rw [resolve, hne, hall]; rfl⟩

/-- The positions are the first ones with the ids of the key's columns, in ascending order, which
says what they are whatever the order of the key's columns. -/
theorem resolve_eq_ok_iff :
    resolve key schema count = .ok positions ↔
      Resolves key schema count ∧ positions.Pairwise (· < ·) ∧
        ∀ p, p ∈ positions ↔ ∃ c ∈ key.columns, schema.FirstAt c.id p := by
  refine ⟨of_resolve, fun ⟨hkey, hascending, hmem⟩ => ?_⟩
  obtain ⟨found, hfound⟩ := hkey.exists_resolve
  obtain ⟨-, hascending', hmem'⟩ := of_resolve hfound
  rw [hfound, hascending'.eq_of_mem_iff hascending fun p => (hmem' p).trans (hmem p).symm]

theorem resolve_eq_error_iff :
    resolve key schema count = .error e ↔
      key.columns = [] ∧ e = .empty ∨
        ∃ front c back, key.columns = front ++ c :: back ∧
          (∀ before d after, front = before ++ d :: after →
            ∀ e, ¬ Offence schema count before d e) ∧
          Offence schema count front c e := by
  have hall := @locateAll_eq_error_iff schema count key.columns e []
  simp only [List.reverse_nil, List.map_nil, List.nil_append] at hall
  rw [← hall]
  cases hkey : key.columns with
  | nil => simp [resolve, Schema.isEmpty, hkey, locateAll, eq_comm]
  | cons c cs => simp [resolve, Schema.isEmpty, hkey, map_eq_error_iff]

theorem Resolves.perm {key' : Schema} (h : Resolves key schema count)
    (hperm : key'.columns.Perm key.columns) : Resolves key' schema count where
  ne_nil hnil := h.ne_nil (hnil ▸ hperm).nil_eq.symm
  nodup := (hperm.map Column.id).nodup_iff.mpr h.nodup
  exists_position c hc := h.exists_position c (hperm.mem_iff.mp hc)

theorem resolve_perm {key' : Schema} (hperm : key'.columns.Perm key.columns)
    (h : resolve key schema count = .ok positions) : resolve key' schema count = .ok positions := by
  obtain ⟨hkey, hascending, hmem⟩ := of_resolve h
  refine resolve_eq_ok_iff.mpr ⟨hkey.perm hperm, hascending, fun p => ?_⟩
  simp only [hmem, hperm.mem_iff]

theorem mem_map_val_iff (hkey : Resolves key schema count)
    (h : ∀ p, p ∈ positions ↔ ∃ c ∈ key.columns, schema.FirstAt c.id p) {i : Nat} :
    i ∈ positions.map Fin.val ↔ ∃ c ∈ key.columns, schema.FirstAt c.id i := by
  rw [List.mem_map]
  constructor
  · rintro ⟨p, hp, rfl⟩
    exact (h p).mp hp
  · rintro ⟨c, hc, hfirst⟩
    obtain ⟨j, hj, hfirst'⟩ := hkey.exists_position c hc
    obtain rfl := hfirst.unique hfirst'
    exact ⟨⟨i, hj⟩, (h _).mpr ⟨c, hc, hfirst⟩, rfl⟩

end KeyColumns

def RowKey.project? (accessors : List Accessor) (positions : List Nat) (r : Row) : Option RowKey :=
  (positions.mapM fun p => accessors[p]?.map (·.read r)).map RowKey.ofValues

theorem RowKey.project?_map_val (accessors : List Accessor) (places : List (Fin accessors.length))
    (r : Row) : project? accessors (places.map Fin.val) r = some (project accessors places r) := by
  have hread : (fun p => accessors[p]?.map (·.read r)) ∘ Fin.val =
      fun i : Fin accessors.length => pure (accessors[i].read r) := by
    funext i
    simp
  rw [project?, List.mapM_map, hread, List.mapM_pure]
  rfl

namespace Buffer

section Run

variable {σ : Type} [Store σ] {first b b' : Buffer σ} {call : Call} {may : Call → Prop}
  {others : σ → σ → Prop}

theorem Effect.positions_eq (h : b.Effect call b') :
    b'.accessors = b.accessors ∧ b'.positions = b.positions := by
  cases h <;> exact ⟨rfl, rfl⟩

theorem Reached.positions_eq (h : first.Reached may others b) (hphase : first.phase ≠ .flushing) :
    b.accessors = first.accessors ∧ b.positions = first.positions := by
  induction h with
  | start => exact ⟨rfl, rfl⟩
  | called hreached _ hcall ih =>
    obtain ⟨ha, hp⟩ := (effect_callOn (hreached.phase_ne hphase) hcall).positions_eq
    exact ⟨ha.trans ih.1, hp.trans ih.2⟩
  | disturbed _ _ ih => exact ih
  | reordered _ _ ih => exact ih

end Run

/-- A buffer is created exactly if each key column is in the schema, none is listed twice, and each
has an accessor; else the error is that of the first column with which something is wrong.  Its
positions are the first ones with the ids of the key columns, in ascending order, and whatever the
order of the key columns it reads the same key from a row.  No call makes it read a key where there
is no accessor. -/
theorem create_finds_positions {σ : Type} [Store σ] (accessors : List Accessor)
    (key schema : Schema) (scheme : Partition.Scheme) (store : σ) :
    ((∃ b, create accessors key schema scheme store = .ok b) ↔
      key.columns ≠ [] ∧ (key.columns.map Column.id).Nodup ∧
        ∀ c ∈ key.columns, ∃ position < accessors.length, schema.FirstAt c.id position) ∧
    (∀ b, create accessors key schema scheme store = .ok b →
      b.positions.Pairwise (· < ·) ∧
      (∀ p, p ∈ b.positions ↔ ∃ c ∈ key.columns, schema.FirstAt c.id p) ∧
      (∀ key' : Schema, key'.columns.Perm key.columns → ∀ store' : σ,
        ∃ b', create accessors key' schema scheme store' = .ok b' ∧ b'.positions = b.positions ∧
          ∀ row, RowKey.project b'.accessors b'.key row = RowKey.project b.accessors b.key row ∧
            b'.locate row = b.locate row) ∧
      ∀ b', b.Reached (fun _ => True) (fun _ _ => True) b' → ∀ row,
        RowKey.project? accessors b.positions row =
          some (RowKey.project b'.accessors b'.key row)) ∧
    ∀ e, create accessors key schema scheme store = .error e ↔
      key.columns = [] ∧ e = .empty ∨
        ∃ front c back, key.columns = front ++ c :: back ∧
          (∀ before d after, front = before ++ d :: after →
            ∀ e, ¬ KeyColumns.Offence schema accessors.length before d e) ∧
          KeyColumns.Offence schema accessors.length front c e := by
  refine ⟨?_, fun b hb => ?_, fun e => ?_⟩
  · rw [create, exists_map_eq_ok_iff]
    constructor
    · rintro ⟨places, h⟩
      obtain ⟨hkey, -⟩ := KeyColumns.of_resolve h
      exact ⟨hkey.ne_nil, hkey.nodup, hkey.exists_position⟩
    · rintro ⟨hne, hnodup, hposition⟩
      exact KeyColumns.Resolves.exists_resolve ⟨hne, hnodup, hposition⟩
  · obtain ⟨places, hplaces, rfl⟩ := create_eq_ok hb
    obtain ⟨hkey, hascending, hmem⟩ := KeyColumns.of_resolve hplaces
    refine ⟨?_, fun p => ?_, fun key' hperm store' => ?_, fun b' hb' row => ?_⟩
    · exact List.pairwise_map.mpr hascending
    · exact KeyColumns.mem_map_val_iff hkey hmem
    · refine ⟨⟨accessors, places, schema, scheme, store', [], .created, .zero⟩, ?_, rfl,
        fun row => ⟨rfl, rfl⟩⟩
      rw [create, KeyColumns.resolve_perm hperm hplaces]
      rfl
    · obtain ⟨haccessors, hpositions⟩ := hb'.positions_eq (by simp)
      have hsame : RowKey.project? b'.accessors b'.positions row =
          RowKey.project? accessors (places.map Fin.val) row :=
        congrArg₂ (RowKey.project? · · row) haccessors hpositions
      exact hsame.symm.trans (RowKey.project?_map_val b'.accessors b'.key row)
  · rw [create, map_eq_error_iff]
    exact KeyColumns.resolve_eq_error_iff

theorem create_finds_positions_of_two_orders :
    ∃ b : Buffer MemoryStore,
      create [⟨7, .long⟩, ⟨0, .string⟩] ⟨[⟨4, "day", .date, false⟩, ⟨3, "id", .long, true⟩]⟩
          ⟨[⟨3, "id", .long, true⟩, ⟨4, "day", .date, false⟩, ⟨3, "old", .long, true⟩]⟩ ⟨⟨[]⟩, []⟩
          .empty = .ok b ∧
        b.positions = [0, 1] ∧
        [⟨3, "id", .long, true⟩, (⟨4, "day", .date, false⟩ : Column)].Perm
          [⟨4, "day", .date, false⟩, ⟨3, "id", .long, true⟩] ∧
        (∃ b' : Buffer MemoryStore,
          create [⟨7, .long⟩, ⟨0, .string⟩] ⟨[⟨3, "id", .long, true⟩, ⟨4, "day", .date, false⟩]⟩
              ⟨[⟨3, "id", .long, true⟩, ⟨4, "day", .date, false⟩, ⟨3, "old", .long, true⟩]⟩
              ⟨⟨[]⟩, []⟩ .empty = .ok b' ∧
            b'.positions = b.positions ∧
            ∀ row, RowKey.project b'.accessors b'.key row = RowKey.project b.accessors b.key row ∧
              b'.locate row = b.locate row) ∧
        RowKey.project? [⟨7, .long⟩, ⟨0, .string⟩] b.positions ⟨.insert, [.string "x"]⟩ =
          some (RowKey.project b.accessors b.key ⟨.insert, [.string "x"]⟩) := by
  obtain ⟨b, hb, hpositions⟩ : ∃ b : Buffer MemoryStore,
      create [⟨7, .long⟩, ⟨0, .string⟩] ⟨[⟨4, "day", .date, false⟩, ⟨3, "id", .long, true⟩]⟩
          ⟨[⟨3, "id", .long, true⟩, ⟨4, "day", .date, false⟩, ⟨3, "old", .long, true⟩]⟩ ⟨⟨[]⟩, []⟩
          .empty = .ok b ∧ b.positions = [0, 1] :=
    ⟨⟨[⟨7, .long⟩, ⟨0, .string⟩], [0, 1],
      ⟨[⟨3, "id", .long, true⟩, ⟨4, "day", .date, false⟩, ⟨3, "old", .long, true⟩]⟩, ⟨⟨[]⟩, []⟩,
      .empty, [], .created, .zero⟩, by cbv, rfl⟩
  obtain ⟨-, -, horder, hread⟩ := (create_finds_positions _ _ _ _ _).2.1 b hb
  exact ⟨b, hb, hpositions, .swap _ _ _, horder ⟨_⟩ (.swap _ _ _) .empty, hread b .start _⟩

end Buffer

end ChangeBuffer
