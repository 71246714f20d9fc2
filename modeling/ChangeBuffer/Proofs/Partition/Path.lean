import ChangeBuffer.Proofs.Partition.Binding
import ChangeBuffer.Proofs.Partition.Escape

/-! # Reading paths

The names and texts of a path are read back by splitting it at its separators and decoding what is
between them.  So two rows have the same path exactly if the fields of their schemes have the same
names and give them the same texts.
-/

namespace ChangeBuffer.Partition

def readSegment (cs : List Char) : Option (String × String) :=
  match cs.dropWhile (· ≠ '=') with
  | [] => none
  | _ :: value =>
    match Escape.decode (cs.takeWhile (· ≠ '=')), Escape.decode value with
    | some name, some value => some (name, value)
    | _, _ => none

/-- The names and texts of the segments of a path. -/
def readPath (path : String) : Option (List (String × String)) :=
  (path.toList.splitOn '/').mapM readSegment

def writePath (pairs : List (String × String)) : String :=
  String.ofList (['/'].intercalate (pairs.map fun (name, value) => segment name value))

def Field.Labels (f : Field) (r : Row) (pair : String × String) : Prop :=
  f.name = pair.1 ∧ f.valueText r = .ok pair.2

variable {pairs pairs' : List (String × String)}

theorem readSegment_segment (name value : String) :
    readSegment (segment name value) = some (name, value) := by
  have hname : ∀ c ∈ Escape.encode name, decide (c ≠ '=') = true := by
    intro c hc
    have hne : c ≠ '=' := by
      rintro rfl
      exact Escape.not_mem_encode (by decide) name hc
    exact decide_eq_true hne
  rw [readSegment, segment, List.dropWhile_append_of_pos hname, List.takeWhile_append_of_pos hname]
  simp [Escape.decode_encode]

theorem slash_not_mem_segment (name value : String) : '/' ∉ segment name value := by
  have hslash : ¬ Escape.Escaped '/' := by decide
  simp [segment, Escape.not_mem_encode hslash]

theorem mapM_readSegment (pairs : List (String × String)) :
    (pairs.map fun (name, value) => segment name value).mapM readSegment = some pairs := by
  induction pairs with
  | nil => rfl
  | cons pair pairs ih =>
    rw [List.map_cons, List.mapM_cons, readSegment_segment, ih]
    rfl

/-- The names and texts of a path can be read back, unless there are none. -/
theorem readPath_writePath (h : pairs ≠ []) : readPath (writePath pairs) = some pairs := by
  have hslash : ∀ cs ∈ pairs.map fun (name, value) => segment name value, '/' ∉ cs := by
    intro cs hcs
    obtain ⟨pair, -, rfl⟩ := List.mem_map.mp hcs
    exact slash_not_mem_segment pair.1 pair.2
  rw [readPath, writePath, String.toList_ofList,
    List.splitOn_intercalate '/' hslash (by simpa using h), mapM_readSegment]

theorem writePath_inj (h : writePath pairs = writePath pairs') : pairs = pairs' := by
  have hread := congrArg readPath h
  by_cases hp : pairs = []
  · by_cases hp' : pairs' = []
    · rw [hp, hp']
    · -- The empty path is the path of no names, and nothing can be read from it.
      rw [hp, readPath_writePath hp'] at hread
      cases hread
  · by_cases hp' : pairs' = []
    · rw [hp', readPath_writePath hp] at hread
      cases hread
    · rw [readPath_writePath hp, readPath_writePath hp'] at hread
      exact Option.some.inj hread

theorem mem_segment {c : Char} {name value : String} (h : c ∈ segment name value) :
    Escape.Escaped c ∨ c = '=' := by
  rw [segment, List.mem_append, List.mem_cons] at h
  rcases h with hname | rfl | hvalue
  · exact Or.inl (Escape.escaped_of_mem_encode hname)
  · exact Or.inr rfl
  · exact Or.inl (Escape.escaped_of_mem_encode hvalue)

theorem mem_writePath {c : Char} (h : c ∈ (writePath pairs).toList) :
    Escape.Escaped c ∨ c ∈ ['=', '/'] := by
  rw [writePath, String.toList_ofList] at h
  rw [List.mem_cons, List.mem_singleton, ← or_assoc]
  induction pairs with
  | nil => cases h
  | cons pair pairs ih =>
    cases pairs with
    | nil =>
      rw [List.map_singleton, List.intercalate_singleton] at h
      exact Or.inl (mem_segment h)
    | cons next pairs =>
      rw [List.map_cons, List.map_cons, List.intercalate_cons_cons, List.mem_append,
        List.mem_append, List.mem_singleton] at h
      rcases h with (hsegment | hslash) | hrest
      · exact Or.inl (mem_segment hsegment)
      · exact Or.inr hslash
      · exact ih hrest

namespace Scheme

variable {spec : Spec} {schema : Schema} {s : Scheme} {r r' : Row} {path : String}
  {fields fields' : List Field}

theorem exists_of_path (h : s.path r = .ok path) :
    ∃ pairs, path = writePath pairs ∧ List.Forall₂ (·.Labels r ·) s.fields pairs := by
  unfold Scheme.path at h
  cases hpairs : s.valueTexts r with
  | error e =>
    rw [hpairs] at h
    cases h
  | ok pairs =>
    rw [hpairs] at h
    refine ⟨pairs, (Except.ok.inj h).symm, (mapM_eq_ok_iff.mp hpairs).imp fun f pair hpair => ?_⟩
    cases hvalue : f.valueText r with
    | error e =>
      rw [hvalue] at hpair
      cases hpair
    | ok value =>
      rw [hvalue] at hpair
      obtain rfl := Except.ok.inj hpair
      exact ⟨rfl, hvalue⟩

theorem labels_eq_iff (h : List.Forall₂ (·.Labels r ·) fields pairs)
    (h' : List.Forall₂ (·.Labels r' ·) fields' pairs') :
    pairs = pairs' ↔
      List.Forall₂ (fun f f' => f.name = f'.name ∧ f.valueText r = f'.valueText r') fields
        fields' := by
  induction h generalizing fields' pairs' with
  | nil => cases h' <;> simp
  | cons hf _ ih =>
    cases h' with
    | nil => simp
    | cons hf' hrest' =>
      rw [List.cons.injEq, List.forall₂_cons, ih hrest', Prod.ext_iff, hf.1, hf.2, hf'.1, hf'.2,
        Except.ok.injEq]

/-- Two rows have the same path exactly if their schemes have the same names and give them the same
texts.  The names and texts can be read back from the path, which holds no characters but letters,
digits and the marks of escaped texts and separators. -/
theorem path_eq_iff {spec' : Spec} {schema' : Schema} {s' : Scheme} {path' : String}
    (hs : bind spec schema = .ok s) (hs' : bind spec' schema' = .ok s')
    (hp : s.path r = .ok path) (hp' : s'.path r' = .ok path') :
    (path = path' ↔
      List.Forall₂ (fun f f' => f.name = f'.name ∧ f.valueText r = f'.valueText r') s.fields
        s'.fields) ∧
      s.fields.map Field.name = spec.rules.map Rule.name ∧
      s'.fields.map Field.name = spec'.rules.map Rule.name ∧
      (spec.rules ≠ [] →
        ∃ pairs, readPath path = some pairs ∧ List.Forall₂ (·.Labels r ·) s.fields pairs) ∧
      ∀ c ∈ path.toList, Escape.Escaped c ∨ c ∈ ['=', '/'] := by
  obtain ⟨pairs, rfl, hlabels⟩ := exists_of_path hp
  obtain ⟨pairs', rfl, hlabels'⟩ := exists_of_path hp'
  have hnames := map_name_of_bind hs
  refine ⟨?_, hnames, map_name_of_bind hs', fun hrules => ?_, fun c hc => mem_writePath hc⟩
  · rw [← labels_eq_iff hlabels hlabels']
    exact ⟨writePath_inj, congrArg writePath⟩
  · have hpairs : pairs ≠ [] := by
      rintro rfl
      rw [List.forall₂_nil_right_iff.mp hlabels, List.map_nil, eq_comm, List.map_eq_nil_iff] at hnames
      exact hrules hnames
    exact ⟨pairs, readPath_writePath hpairs, hlabels⟩

theorem path_eq_iff_of_separators :
    ∃ (s s' : Scheme) (path path' : String),
      bind ⟨[⟨1, "a=/b", .identity⟩, ⟨2, "ü", .void⟩]⟩
        ⟨[⟨1, "text", .string, true⟩, ⟨2, "number", .long, true⟩]⟩ = .ok s ∧
      bind ⟨[⟨7, "a=/b", .truncate 5⟩, ⟨2, "ü", .identity⟩]⟩
        ⟨[⟨2, "number", .int, false⟩, ⟨7, "text", .string, true⟩]⟩ = .ok s' ∧
      s.path ⟨.insert, [.string "k/ =é", .long 1]⟩ = .ok path ∧
      s'.path ⟨.delete, [.null, .string "k/ =é%XX"]⟩ = .ok path' ∧
      path = "a%3D%2Fb=k%2F+%3D%C3%A9/%C3%BC=null" ∧
      (path = path' ↔
        List.Forall₂ (fun f f' => f.name = f'.name ∧
          f.valueText ⟨.insert, [.string "k/ =é", .long 1]⟩ =
            f'.valueText ⟨.delete, [.null, .string "k/ =é%XX"]⟩) s.fields s'.fields) ∧
      s.fields.map Field.name = ["a=/b", "ü"] ∧
      s'.fields.map Field.name = ["a=/b", "ü"] ∧
      ((Spec.mk [⟨1, "a=/b", .identity⟩, ⟨2, "ü", .void⟩]).rules ≠ [] →
        ∃ pairs, readPath path = some pairs ∧
          List.Forall₂ (·.Labels ⟨.insert, [.string "k/ =é", .long 1]⟩ ·) s.fields pairs) ∧
      ∀ c ∈ path.toList, Escape.Escaped c ∨ c ∈ ['=', '/'] := by
  obtain ⟨s, hs⟩ : ∃ s, bind ⟨[⟨1, "a=/b", .identity⟩, ⟨2, "ü", .void⟩]⟩
      ⟨[⟨1, "text", .string, true⟩, ⟨2, "number", .long, true⟩]⟩ = .ok s := ⟨_, rfl⟩
  obtain ⟨s', hs'⟩ : ∃ s, bind ⟨[⟨7, "a=/b", .truncate 5⟩, ⟨2, "ü", .identity⟩]⟩
      ⟨[⟨2, "number", .int, false⟩, ⟨7, "text", .string, true⟩]⟩ = .ok s := ⟨_, rfl⟩
  have hp : s.path ⟨.insert, [.string "k/ =é", .long 1]⟩ =
      .ok "a%3D%2Fb=k%2F+%3D%C3%A9/%C3%BC=null" := by
    obtain rfl := Except.ok.inj hs
    cbv
  have hp' : s'.path ⟨.delete, [.null, .string "k/ =é%XX"]⟩ =
      .ok "a%3D%2Fb=k%2F+%3D%C3%A9/%C3%BC=null" := by
    obtain rfl := Except.ok.inj hs'
    cbv
  exact ⟨s, s', _, _, hs, hs', hp, hp', rfl, path_eq_iff hs hs' hp hp'⟩

end Scheme

end ChangeBuffer.Partition
