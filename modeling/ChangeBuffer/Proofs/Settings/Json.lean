import ChangeBuffer.Settings.Json
import Mathlib.Data.List.Nodup

/-! # Settings read back

Settings are read back from the JSON they were written as, whatever was added to it.  Where members
were deleted the default settings stand in their places, and whether the settings are refused is
decided on what is read.
-/

namespace ChangeBuffer

namespace Json

variable {gone : List String} {members members' : List (String × Json)} {name : String}
  {json : Json}

/-- What becomes of an object when the members with the names `gone` are deleted and others are
added, with names that no member had.  The order of members means nothing. -/
inductive Edited (gone : List String) : Json → Json → Prop
  | object {members added members' : List (String × Json)} :
      (∀ m ∈ added, m.1 ∉ members.map Prod.fst) →
      (members.filter (·.1 ∉ gone) ++ added).Perm members' →
      Edited gone (.object members) (.object members')

def setMember (json : Json) (name : String) (value : Json) : Json :=
  match json with
  | .object members => .object (members.map fun m => if m.1 = name then (name, value) else m)
  | json => json

theorem Edited.exists_members {original edited : Json} (h : Edited gone original edited) :
    ∃ members, edited = .object members := by
  cases h with
  | object _ _ => exact ⟨_, rfl⟩

theorem member?_eq_some_iff
    (hunique : ∀ v w, (name, v) ∈ members → (name, w) ∈ members → v = w) :
    member? members name = some json ↔ (name, json) ∈ members := by
  unfold member?
  constructor
  · intro h
    obtain ⟨⟨found, v⟩, hfind, rfl⟩ := Option.map_eq_some_iff.mp h
    obtain rfl : found = name := by simpa using List.find?_some hfind
    exact List.mem_of_find?_eq_some hfind
  · intro h
    cases hfind : members.find? (·.1 = name) with
    | none => simpa using List.find?_eq_none.mp hfind _ h
    | some m =>
      obtain rfl : m.1 = name := by simpa using List.find?_some hfind
      rw [Option.map_some, hunique _ _ (List.mem_of_find?_eq_some hfind) h]

/-- A member is found in the edited object with its value, unless it was deleted. -/
theorem Edited.member?_eq (h : Edited gone (.object members) (.object members'))
    (hnames : (members.map Prod.fst).Nodup) (hm : (name, json) ∈ members) :
    member? members' name = if name ∈ gone then none else some json := by
  cases h with
  | @object _ added _ hadded hperm =>
    have hmem v : (name, v) ∈ members' ↔ name ∉ gone ∧ v = json := by
      have hnot : (name, v) ∉ added := fun hv => hadded _ hv (List.mem_map.mpr ⟨_, hm, rfl⟩)
      have honly : (name, v) ∈ members ↔ v = json := by
        refine ⟨fun hv => ?_, fun hv => hv ▸ hm⟩
        exact (Prod.mk.inj (List.inj_on_of_nodup_map hnames hv hm rfl)).2
      simp [← hperm.mem_iff, hnot, honly, and_comm]
    have hunique v w (hv : (name, v) ∈ members') (hw : (name, w) ∈ members') : v = w :=
      ((hmem v).mp hv).2.trans ((hmem w).mp hw).2.symm
    ext v
    rw [member?_eq_some_iff hunique, hmem]
    split
    case isTrue hgone => simp [hgone]
    case isFalse hgone => simp [hgone, eq_comm]

end Json

namespace JsonReader

variable {α : Type} {read : JsonReader α} {gone : List String}
  {members members' : List (String × Json)} {name : String} {json : Json} {fallback a : α}

theorem orElse_member?_of_edited (h : Json.Edited gone (.object members) (.object members'))
    (hnames : (members.map Prod.fst).Nodup) (hm : (name, json) ∈ members)
    (hread : read json = .ok a) :
    orElse read fallback (Json.member? members' name) =
      .ok (if name ∈ gone then fallback else a) := by
  rw [h.member?_eq hnames hm]
  split
  · rfl
  · exact hread

theorem path_string (s : String) : path (.string s) = .ok s := rfl

theorem natural_integer (n : Nat) : natural (.integer n) = .ok n := by
  simp [natural]

end JsonReader

open JsonReader

theorem StoreKind.ofJson_name (kind : StoreKind) : ofJson (.string kind.name) = .ok kind := by
  cases kind <;> rfl

namespace SpillSettings

variable {default s : SpillSettings} {gone : List String} {json : Json}

def restore (default s : SpillSettings) (gone : List String) : SpillSettings where
  scratchDirectory := if "scratch_dir" ∈ gone then default.scratchDirectory else s.scratchDirectory
  tableLimit := if "memtable_limit_bytes" ∈ gone then default.tableLimit else s.tableLimit
  maxRuns := if "max_spill_runs" ∈ gone then default.maxRuns else s.maxRuns
  indexInterval := if "index_interval" ∈ gone then default.indexInterval else s.indexInterval

theorem ofJson_of_edited (h : Json.Edited gone s.toJson json) :
    ofJson default json = .ok (restore default s gone) := by
  obtain ⟨members', rfl⟩ := h.exists_members
  unfold toJson at h
  have hscratch : path.orElse default.scratchDirectory (Json.member? members' "scratch_dir") =
      .ok (restore default s gone).scratchDirectory :=
    orElse_member?_of_edited h (by simp) (by simp) (path_string _)
  have htable : natural.orElse default.tableLimit (Json.member? members' "memtable_limit_bytes") =
      .ok (restore default s gone).tableLimit :=
    orElse_member?_of_edited h (by simp) (by simp) (natural_integer _)
  have hruns : natural.orElse default.maxRuns (Json.member? members' "max_spill_runs") =
      .ok (restore default s gone).maxRuns :=
    orElse_member?_of_edited h (by simp) (by simp) (natural_integer _)
  have hinterval : natural.orElse default.indexInterval (Json.member? members' "index_interval") =
      .ok (restore default s gone).indexInterval :=
    orElse_member?_of_edited h (by simp) (by simp) (natural_integer _)
  simp only [ofJson, hscratch, htable, hruns, hinterval]
  rfl

end SpillSettings

namespace Settings

variable {default s : Settings} {gone spillGone : List String} {spill block : Json}
  {job : List (String × Json)}

/-- The settings with default ones in place of the members with the names `gone`, and in the spill
settings those with the names `spillGone`. -/
def restore (default s : Settings) (gone spillGone : List String) : Settings where
  store := if "backend" ∈ gone then default.store else s.store
  spill := if "spill" ∈ gone then default.spill else default.spill.restore s.spill spillGone
  maxBatchRows := if "max_batch_rows" ∈ gone then default.maxBatchRows else s.maxBatchRows

@[simp] theorem restore_nil : restore default s [] [] = s := rfl

theorem ofJson_of_edited (hspill : Json.Edited spillGone s.spill.toJson spill)
    (hblock : Json.Edited gone (s.toJson.setMember "spill" spill) block) :
    ofJson default block = .ok (restore default s gone spillGone) := by
  obtain ⟨members', rfl⟩ := hblock.exists_members
  have hwritten : s.toJson.setMember "spill" spill = .object [("backend", .string s.store.name),
      ("spill", spill), ("max_batch_rows", .integer s.maxBatchRows)] := by
    simp [toJson, Json.setMember]
  rw [hwritten] at hblock
  have hstore : orElse StoreKind.ofJson default.store (Json.member? members' "backend") =
      .ok (restore default s gone spillGone).store :=
    orElse_member?_of_edited hblock (by simp) (by simp) (StoreKind.ofJson_name _)
  have hspill : orElse (SpillSettings.ofJson default.spill) default.spill
      (Json.member? members' "spill") = .ok (restore default s gone spillGone).spill :=
    orElse_member?_of_edited hblock (by simp) (by simp) (SpillSettings.ofJson_of_edited hspill)
  have hrows : natural.orElse default.maxBatchRows (Json.member? members' "max_batch_rows") =
      .ok (restore default s gone spillGone).maxBatchRows :=
    orElse_member?_of_edited hblock (by simp) (by simp) (natural_integer _)
  simp only [ofJson, hstore, hspill, hrows]
  rfl

theorem ofJob_of_ofJson {members : List (String × Json)}
    (hmember : Json.member? job jobMember = some (.object members))
    (hread : ofJson default (.object members) = .ok s) :
    ofJob default job = match s.fault? with
      | some fault => .error fault
      | none => .ok s := by
  cases hfault : s.fault? <;> simp only [ofJob, hmember, hread, hfault]

/-- Settings are read from a job's configuration as they were written into it, with the default ones
in place of what was deleted, unless what is read is to be refused.  What is added means nothing. -/
theorem ofJob_of_edited (default s : Settings) (gone spillGone : List String)
    (hspill : Json.Edited spillGone s.spill.toJson spill)
    (hblock : Json.Edited gone (s.toJson.setMember "spill" spill) block)
    (hjob : Json.Edited [] (.object [(jobMember, block)]) (.object job)) :
    (ofJob default job = match (restore default s gone spillGone).fault? with
      | some fault => .error fault
      | none => .ok (restore default s gone spillGone)) ∧
    (gone = [] → spillGone = [] → s.fault? = none → ofJob default job = .ok s) := by
  have hread : ofJson default block = .ok (restore default s gone spillGone) :=
    ofJson_of_edited hspill hblock
  obtain ⟨members, rfl⟩ := hblock.exists_members
  have hmember : Json.member? job jobMember = some (.object members) := by
    simpa using hjob.member?_eq (by simp) List.mem_cons_self
  have hjob := ofJob_of_ofJson hmember hread
  refine ⟨hjob, ?_⟩
  rintro rfl rfl hfault
  simpa [hfault] using hjob

theorem ofJob_of_edited_without_store :
    ∃ (s : Settings) (spill block : Json),
      s.fault? = none ∧
      Json.Edited ["scratch_dir"] s.spill.toJson spill ∧
      Json.Edited ["backend"] (s.toJson.setMember "spill" spill) block ∧
      ofJob (.default "/tmp") [("retries", .integer 3), (jobMember, block)] = .error .noTableLimit ∧
      ofJob (.default "/tmp") [("retries", .integer 3), (jobMember, s.toJson)] = .ok s := by
  have hjob (json : Json) : Json.Edited [] (.object [(jobMember, json)])
      (.object [("retries", .integer 3), (jobMember, json)]) :=
    @Json.Edited.object _ _ [("retries", .integer 3)] _ (by simp [jobMember])
      (by simpa using .swap _ _ _)
  let s : Settings := ⟨.memory, ⟨"", 0, 1, 0⟩, 5⟩
  let spill : Json := .object [("memtable_limit_bytes", .integer 0), ("max_spill_runs", .integer 1),
    ("index_interval", .integer 0), ("note", .null)]
  have hspill : Json.Edited ["scratch_dir"] s.spill.toJson spill :=
    @Json.Edited.object _ _ [("note", .null)] _ (by simp) (by simp [s])
  have hblock : Json.Edited ["backend"] (s.toJson.setMember "spill" spill)
      (.object [("max_batch_rows", .integer 5), ("spill", spill)]) :=
    @Json.Edited.object _ _ [] _ (by simp)
      (by simpa [Json.setMember, toJson, s] using .swap _ _ _)
  have hsame : Json.Edited [] s.spill.toJson s.spill.toJson :=
    @Json.Edited.object _ _ [] _ (by simp) (by simp)
  have hsame' : Json.Edited [] (s.toJson.setMember "spill" s.spill.toJson) s.toJson :=
    @Json.Edited.object _ _ [] _ (by simp) (by simp)
  exact ⟨s, spill, _, rfl, hspill, hblock,
    (ofJob_of_edited (.default "/tmp") s ["backend"] ["scratch_dir"] hspill hblock (hjob _)).1.trans
      (by cbv),
    (ofJob_of_edited (.default "/tmp") s [] [] hsame hsame' (hjob _)).2 rfl rfl rfl⟩

end Settings

end ChangeBuffer
