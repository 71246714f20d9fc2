import ChangeBuffer.Proofs.Calendar.Notation
import ChangeBuffer.Proofs.Partition.Texts

/-! # Partitions by periods of time

A scheme with one field that is a transform of time gives two dates or moments the same path exactly
if they are in the same year, month, day or hour.
-/

namespace ChangeBuffer.Partition

open Calendar

/-- A date is its day, and a moment is on the day that has begun last. -/
inductive OnDay : Value → Int → Prop
  | date (days : BitVec 32) : OnDay (.date days) days.toInt
  | moment (micros : BitVec 64) : OnDay (.timestamp micros) (micros.toInt.fdiv 86400000000)

structure OnDate (v : Value) (n : Int) (d : Date) : Prop where
  day : OnDay v n
  falls : Falls n d
  first : firstYear ≤ d.year
  last : d.year ≤ lastYear

/-- Both rows have a path, and it is the same exactly if `p`. -/
def SamePathIff (s s' : Scheme) (r r' : Row) (p : Prop) : Prop :=
  ∃ path path', s.path r = .ok path ∧ s'.path r' = .ok path' ∧ (path = path' ↔ p)

variable {v : Value} {n n' : Int} {d d' : Date} {s s' : Scheme} {f f' : Field} {r r' : Row}
  {cs cs' : List Char} {p : Prop}

namespace OnDay

theorem isNull_eq (h : OnDay v n) : v.isNull = false := by cases h <;> rfl

theorem dayOf?_eq (h : OnDay v n) : dayOf? v = some n := by
  cases h with
  | date days => rfl
  | moment micros => rw [dayOf?, fdiv_day]

theorem unique (h : OnDay v n) (h' : OnDay v n') : n = n' :=
  Option.some.inj (h.dayOf?_eq.symm.trans h'.dayOf?_eq)

end OnDay

namespace OnDate

theorem eq_ofDay (h : OnDate v n d) : d = .ofDay n := falls_iff.mp h.falls

theorem inRange (h : OnDate v n d) : inRange n = true := by
  rw [inRange_iff, ← h.eq_ofDay]
  exact ⟨h.first, h.last⟩

theorem valid (h : OnDate v n d) : d.Valid := h.eq_ofDay ▸ Date.valid_ofDay n

theorem day_eq_iff {v' : Value} (h : OnDate v n d) (h' : OnDate v' n' d') : n = n' ↔ d = d' := by
  constructor
  · rintro rfl
    rw [h.eq_ofDay, h'.eq_ofDay]
  · rintro rfl
    rw [← Date.toDay_ofDay n, ← h.eq_ofDay, h'.eq_ofDay, Date.toDay_ofDay]

theorem dateOf_eq (h : OnDate v n d) : dateOf v = .ok d := by
  rw [dateOf, h.day.dayOf?_eq]
  simp only [h.inRange, if_true, ← h.eq_ofDay]

theorem eq_of_hour_eq {micros micros' : BitVec 64} (h : OnDate (.timestamp micros) n d)
    (h' : OnDate (.timestamp micros') n' d')
    (hhour : micros.toInt.fdiv 3600000000 = micros'.toInt.fdiv 3600000000) : n = n' ∧ d = d' := by
  have hday : n = n' := by
    cases h.day
    cases h'.day
    rw [fdiv_day, fdiv_day, (fdiv_hour_eq_iff.mp hhour).1]
  exact ⟨hday, (h.day_eq_iff h').mp hday⟩

end OnDate

theorem Transform.render_of_onDate (h : OnDate v n d) (type : ValueType) :
    year.render type v = .ok (some (bareYearText d.year)) ∧
      month.render type v = .ok (some d.bareMonthText) ∧
      day.render type v = .ok (some d.text) := by
  simp [render, h.day.isNull_eq, h.dateOf_eq, Except.map]

theorem Transform.render_hour_of_onDate {micros : BitVec 64} (h : OnDate (.timestamp micros) n d)
    (type : ValueType) :
    hour.render type (.timestamp micros) = .ok (some (Calendar.hourText micros.toInt)) := by
  have hrange := h.inRange
  cases h.day
  rw [fdiv_day] at hrange
  simp [render, Value.isNull, hourText, hrange, Except.map]

theorem Scheme.path_of_field {text : String} (hs : s.fields = [f]) (ht : f.valueText r = .ok text) :
    s.path r = .ok (writePath [(f.name, text)]) := by
  rw [path, valueTexts, hs, List.mapM_cons, ht]
  rfl

theorem samePathIff_of_render (hs : s.fields = [f]) (hs' : s'.fields = [f'])
    (hname : f'.name = f.name)
    (ht : f.transform.render f.accessor.type (f.accessor.read r) = .ok (some cs))
    (ht' : f'.transform.render f'.accessor.type (f'.accessor.read r') = .ok (some cs'))
    (hp : cs = cs' ↔ p) : SamePathIff s s' r r' p := by
  refine ⟨_, _, Scheme.path_of_field hs (Field.valueText_of_render ht),
    Scheme.path_of_field hs' (Field.valueText_of_render ht'), ?_⟩
  rw [hname, ← hp]
  constructor
  · intro hpath
    have htexts : String.ofList cs = String.ofList cs' := by simpa using writePath_inj hpath
    exact String.ofList_injective htexts
  · rintro rfl
    rfl

/-- Two dates or moments have the same path under a year, month or day exactly if these agree, and
so a date has the path of a moment under a day exactly if the moment is on that day.  Two moments
have the same path under an hour exactly if they are in the same hour, counted from day 0, and then
they are on the same date.  The date of a day is read back from its text. -/
theorem samePathIff_of_period (hs : s.fields = [f]) (hs' : s'.fields = [f'])
    (hname : f'.name = f.name) (ht : f'.transform = f.transform)
    (hv : OnDate (f.accessor.read r) n d) (hv' : OnDate (f'.accessor.read r') n' d') :
    (f.transform = .year → SamePathIff s s' r r' (d.year = d'.year)) ∧
      (f.transform = .month → SamePathIff s s' r r' (d.year = d'.year ∧ d.month = d'.month)) ∧
      (f.transform = .day → SamePathIff s s' r r' (n = n') ∧
        ∃ text, f.valueText r = .ok text ∧ Date.read text.toList = some d) ∧
      ∀ t t', f.accessor.read r = .timestamp t → f'.accessor.read r' = .timestamp t' →
        (f.transform = .hour →
          SamePathIff s s' r r' (t.toInt.fdiv 3600000000 = t'.toInt.fdiv 3600000000)) ∧
        (t.toInt.fdiv 3600000000 = t'.toInt.fdiv 3600000000 → n = n' ∧ d = d') := by
  obtain ⟨hyear, hmonth, hday⟩ := Transform.render_of_onDate hv f.accessor.type
  obtain ⟨hyear', hmonth', hday'⟩ := Transform.render_of_onDate hv' f'.accessor.type
  refine ⟨fun h => ?_, fun h => ?_, fun h => ⟨?_, ?_⟩, fun t t' hr hr' => ?_⟩
  · refine samePathIff_of_render hs hs' hname (h ▸ hyear) (ht.trans h ▸ hyear') ?_
    exact ⟨bareYearText_inj, congrArg bareYearText⟩
  · refine samePathIff_of_render hs hs' hname (h ▸ hmonth) (ht.trans h ▸ hmonth') ?_
    exact Date.bareMonthText_eq_iff hv.valid hv'.valid
  · refine samePathIff_of_render hs hs' hname (h ▸ hday) (ht.trans h ▸ hday') ?_
    rw [hv.day_eq_iff hv']
    exact ⟨Date.text_inj hv.valid hv'.valid, congrArg Date.text⟩
  · refine ⟨_, Field.valueText_of_render (h ▸ hday), ?_⟩
    rw [String.toList_ofList, Date.read_text hv.valid]
  · rw [hr] at hv
    rw [hr'] at hv'
    refine ⟨fun h => ?_, hv.eq_of_hour_eq hv'⟩
    have hhour := Transform.render_hour_of_onDate hv f.accessor.type
    have hhour' := Transform.render_hour_of_onDate hv' f'.accessor.type
    exact samePathIff_of_render hs hs' hname (by rw [h, hr, hhour]) (by rw [ht, h, hr', hhour'])
      hourText_eq_iff

theorem samePathIff_of_period_of_early_day :
    ∃ (s s' : Scheme) (f f' : Field),
      Scheme.bind ⟨[⟨1, "on", .day⟩]⟩ ⟨[⟨1, "date", .date, true⟩]⟩ = .ok s ∧
      Scheme.bind ⟨[⟨2, "on", .day⟩]⟩ ⟨[⟨2, "moment", .timestamp, true⟩]⟩ = .ok s' ∧
      s.fields = [f] ∧ s'.fields = [f'] ∧ f'.name = f.name ∧ f'.transform = f.transform ∧
      OnDate (f.accessor.read ⟨.insert, [.date (-719529)]⟩) (-719529) ⟨-1, 12, 31⟩ ∧
      OnDate (f'.accessor.read ⟨.insert, [.timestamp (-62167219200000001)]⟩) (-719529)
        ⟨-1, 12, 31⟩ ∧
      SamePathIff s s' ⟨.insert, [.date (-719529)]⟩
        ⟨.insert, [.timestamp (-62167219200000001)]⟩ ((-719529 : Int) = -719529) ∧
      ∃ text, f.valueText ⟨.insert, [.date (-719529)]⟩ = .ok text ∧
        Date.read text.toList = some ⟨-1, 12, 31⟩ := by
  obtain ⟨s, hs⟩ : ∃ s, Scheme.bind ⟨[⟨1, "on", .day⟩]⟩ ⟨[⟨1, "date", .date, true⟩]⟩ = .ok s :=
    ⟨_, rfl⟩
  obtain ⟨s', hs'⟩ : ∃ s,
      Scheme.bind ⟨[⟨2, "on", .day⟩]⟩ ⟨[⟨2, "moment", .timestamp, true⟩]⟩ = .ok s := ⟨_, rfl⟩
  obtain ⟨f, hf, hname, ht, ha⟩ : ∃ f, s.fields = [f] ∧ f.name = "on" ∧ f.transform = .day ∧
      f.accessor.read ⟨.insert, [.date (-719529)]⟩ = .date (-719529) := by
    obtain rfl := Except.ok.inj hs
    exact ⟨_, rfl, rfl, rfl, rfl⟩
  obtain ⟨f', hf', hname', ht', ha'⟩ : ∃ f, s'.fields = [f] ∧ f.name = "on" ∧ f.transform = .day ∧
      f.accessor.read ⟨.insert, [.timestamp (-62167219200000001)]⟩ =
        .timestamp (-62167219200000001) := by
    obtain rfl := Except.ok.inj hs'
    exact ⟨_, rfl, rfl, rfl, rfl⟩
  have hfalls : Falls (-719529) ⟨-1, 12, 31⟩ := falls_iff.mpr (by decide)
  have hv : OnDate (f.accessor.read ⟨.insert, [.date (-719529)]⟩) (-719529) ⟨-1, 12, 31⟩ := by
    rw [ha]
    exact ⟨.date _, hfalls, by decide, by decide⟩
  have hv' : OnDate (f'.accessor.read ⟨.insert, [.timestamp (-62167219200000001)]⟩) (-719529)
      ⟨-1, 12, 31⟩ := by
    rw [ha']
    exact ⟨.moment _, hfalls, by decide, by decide⟩
  have hsame : f'.name = f.name ∧ f'.transform = f.transform := by
    rw [hname, hname', ht, ht']
    exact ⟨rfl, rfl⟩
  exact ⟨s, s', f, f', hs, hs', hf, hf', hsame.1, hsame.2, hv, hv',
    (samePathIff_of_period hf hf' hsame.1 hsame.2 hv hv').2.2.1 ht⟩

end ChangeBuffer.Partition
