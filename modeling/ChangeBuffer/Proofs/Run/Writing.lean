import ChangeBuffer.Proofs.Run.Scan
import ChangeBuffer.Proofs.SortedMap

/-! # Writing runs

A writer takes entries whose keys ascend and refuses every other one.  Whatever it has refused in
between, a scan of the finished run gives the entries that it took whose keys begin with the given
bytes, whichever of them are indexed.
-/

namespace ChangeBuffer

/-- Keeps each entry that comes after all that are kept in front of it. -/
def rising (kept : List Entry) : List Entry → List Entry
  | [] => kept
  | e :: es => rising (if ∀ d ∈ kept, d.key < e.key then kept ++ [e] else kept) es

theorem prefix_rising (kept es : List Entry) : kept <+: rising kept es := by
  induction es generalizing kept with
  | nil => exact List.prefix_refl kept
  | cons e es ih =>
    rw [rising]
    split
    · exact (List.prefix_append kept [e]).trans (ih _)
    · exact ih kept

theorem Ascending.append_singleton {es : List Entry} (h : Ascending es) {e : Entry}
    (he : ∀ d ∈ es, d.key < e.key) : Ascending (es ++ [e]) :=
  List.pairwise_append.mpr ⟨h, List.pairwise_singleton _ _, by simpa using he⟩

theorem Folder.write_eq {f : Folder} {name : String} (h : f.find? name ≠ some .directory)
    (content : Bytes) : f.write name content = .ok (f.insert name (.file content)) := by
  unfold write
  split
  · exact absurd ‹_› h
  · rfl

namespace RunWriter

/-- The writer after entries are handed over one by one, whether it takes or refuses them. -/
def offerAll (w : RunWriter) (es : List Entry) : RunWriter :=
  es.foldl (fun w e => (w.appendAll [.ok e]).1) w

def extend (w : RunWriter) (es : List Entry) : RunWriter :=
  { w with taken := es.reverse ++ w.taken }

variable {w : RunWriter} {es : List Entry} {e : Entry}

@[simp] theorem entries_extend : (w.extend es).entries = w.entries ++ es := by
  simp [extend, entries]

theorem extend_append (es ds : List Entry) : w.extend (es ++ ds) = (w.extend es).extend ds := by
  simp [extend]

theorem refuses_eq_false_iff (ha : Ascending w.entries) {key : Bytes} :
    w.refuses key = false ↔ ∀ d ∈ w.entries, d.key < key := by
  unfold refuses
  split
  next last taken htaken =>
    rw [entries, htaken, List.reverse_cons] at ha ⊢
    constructor
    · intro h d hd
      have hlast : last.key < key := by simpa using h
      rcases List.mem_append.mp hd with hd | hd
      · exact Std.lt_trans (ha.lt hd (List.mem_singleton.mpr rfl)) hlast
      · rwa [List.mem_singleton.mp hd]
    · intro h
      simpa using h last (by simp)
  next htaken => simp [entries, htaken]

/-- Ascending entries are all taken, unless one of them does not fit. -/
theorem appendAll_cases (h : Ascending (w.entries ++ es)) :
    (∀ e ∈ es, e.Fits) ∧
        w.appendAll (es.map .ok) = (w.extend es, .ok ()) ∨
      (∃ e ∈ es, ¬ e.Fits) ∧ ∃ w' error, w.appendAll (es.map .ok) = (w', .error error) := by
  induction es generalizing w with
  | nil => exact Or.inl ⟨by simp, rfl⟩
  | cons e es ih =>
    have hrefuses : w.refuses e.key = false :=
      (refuses_eq_false_iff h.left).mpr fun d hd => h.lt hd List.mem_cons_self
    rw [List.map_cons, appendAll, append, hrefuses, if_neg Bool.false_ne_true]
    match he : e.excess? with
    | some (part, length) =>
      have hfits : ¬ e.Fits := by simp [Entry.Fits, he]
      exact Or.inr ⟨⟨e, List.mem_cons_self, hfits⟩, w, _, rfl⟩
    | none =>
      have hnext : Ascending ((w.extend [e]).entries ++ es) := by
        rw [entries_extend, List.append_assoc]
        exact h
      rcases ih hnext with ⟨hfits, heq⟩ | ⟨⟨d, hd, hfits⟩, herror⟩
      · refine Or.inl ⟨fun d hd => ?_, by rwa [← extend_append] at heq⟩
        rcases List.mem_cons.mp hd with rfl | hd
        · exact he
        · exact hfits d hd
      · exact Or.inr ⟨⟨d, List.mem_cons_of_mem _ hd, hfits⟩, herror⟩

theorem appendAll_eq_ok (h : Ascending (w.entries ++ es)) (hf : ∀ e ∈ es, e.Fits) :
    w.appendAll (es.map .ok) = (w.extend es, .ok ()) := by
  rcases appendAll_cases h with ⟨-, heq⟩ | ⟨⟨e, he, hfits⟩, -⟩
  · exact heq
  · exact absurd (hf e he) hfits

theorem appendAll_of_refuses (ha : Ascending w.entries) (he : ∃ d ∈ w.entries, ¬ d.key < e.key) :
    w.appendAll [.ok e] = (w, .error (.corrupted w.path .disorder)) := by
  have hrefuses : w.refuses e.key = true := by
    rw [← Bool.not_eq_false, refuses_eq_false_iff ha]
    exact fun h => he.elim fun d hd => hd.2 (h d hd.1)
  rw [appendAll, append, if_pos hrefuses]

/-- Of the entries that are offered a writer takes those that rise above all the others. -/
theorem offerAll_eq (ha : Ascending w.entries) {more : List Entry}
    (hmore : rising w.entries es = w.entries ++ more) (hf : ∀ e ∈ more, e.Fits) :
    w.offerAll es = w.extend more := by
  induction es generalizing w more with
  | nil =>
    obtain rfl : more = [] := by simpa [rising] using hmore
    rfl
  | cons e es ih =>
    rw [offerAll, List.foldl_cons, ← offerAll]
    rw [rising] at hmore
    by_cases he : ∀ d ∈ w.entries, d.key < e.key
    · rw [if_pos he] at hmore
      obtain ⟨rest, hrest⟩ := prefix_rising (w.entries ++ [e]) es
      obtain rfl : more = [e] ++ rest := by
        rwa [← hrest, List.append_assoc, List.append_right_inj, eq_comm] at hmore
      have hnext := ha.append_singleton he
      have htaken : w.appendAll ([e].map .ok) = (w.extend [e], .ok ()) :=
        appendAll_eq_ok hnext fun d hd => hf d (List.mem_append_left _ hd)
      rw [List.map_singleton] at htaken
      rw [htaken, extend_append]
      rw [← entries_extend] at hnext hrest
      exact ih hnext hrest.symm fun d hd => hf d (List.mem_append_right _ hd)
    · rw [if_neg he] at hmore
      rw [appendAll_of_refuses ha (by simpa using he)]
      exact ih ha hmore hf

theorem indexFrom_sublist (interval position offset : Nat) (es : List Entry) :
    ((Run.indexFrom interval position offset es).map Prod.fst).Sublist (es.map Entry.key) := by
  induction es generalizing position offset with
  | nil => exact .slnil
  | cons e es ih =>
    rw [Run.indexFrom]
    split
    · exact (ih _ _).cons_cons _
    · exact (ih _ _).cons _

theorem describes_finish (ha : Ascending w.entries) (hf : ∀ e ∈ w.entries, e.Fits) (name : String) :
    (w.finish name).Describes w.entries where
  index := ⟨w.interval, rfl⟩
  count := rfl
  size := by
    rw [Run.file, List.length_append, Run.length_flatMap_encode]
    rfl
  ascending := ha
  fits := hf

/-- Ascending entries are written, and a scan of the run gives those of them whose keys begin with
the given bytes, whichever are indexed.  The run knows the size of its file and the number of its
records, and the indexed keys ascend, so that they can be searched.  An entry that does not come
after the last one is refused, and what is refused in between makes no difference. -/
theorem scan_written (ha : Ascending es) (hf : ∀ e ∈ es, e.Fits) (path name : String)
    (interval : Nat) :
    ∃ w, (create path interval).appendAll (es.map .ok) = (w, .ok ()) ∧
      (w.finish name).entries = es.length ∧ (w.finish name).size = w.content.length ∧
      ((w.finish name).index.map Prod.fst).Pairwise (· < ·) ∧
      (∀ folder : Folder, folder.find? name ≠ some .directory →
        ∃ written, folder.write name w.content = .ok written ∧
          written.find? name = some (.file w.content)) ∧
      (∀ (folder : Folder) (place : String) (stem : Bytes),
        folder.find? name = some (.file w.content) →
          (w.finish name).scan folder place stem = .ok ((matching stem es).map .ok)) ∧
      (∀ e, (∃ d ∈ es, ¬ d.key < e.key) →
        w.appendAll [.ok e] = (w, .error (.corrupted path .disorder))) ∧
      ∀ offered, rising [] offered = es → (create path interval).offerAll offered = w := by
  obtain ⟨w, hw⟩ : ∃ w, w = (create path interval).extend es := ⟨_, rfl⟩
  have htaken : (create path interval).appendAll (es.map .ok) = (w, .ok ()) :=
    hw ▸ appendAll_eq_ok (w := create path interval) ha hf
  have hentries : w.entries = es := by
    rw [hw, entries_extend]
    rfl
  have hcontent : w.content = Run.file es := by rw [content, hentries, Run.file]
  have hdescribes : (w.finish name).Describes es := by
    rw [← hentries] at ha hf ⊢
    exact describes_finish ha hf name
  have hindex : ((w.finish name).index.map Prod.fst).Pairwise (· < ·) := by
    rw [finish, hentries]
    exact (List.pairwise_map.mpr ha).sublist (indexFrom_sublist _ _ _ es)
  refine ⟨w, htaken, hdescribes.count, by rw [hcontent, hdescribes.size], hindex, ?_, ?_, ?_, ?_⟩
  · intro folder hdir
    exact ⟨_, Folder.write_eq hdir _, by rw [SortedMap.find?_insert, if_pos rfl]⟩
  · intro folder place stem hfile
    exact hdescribes.scan_eq (hcontent ▸ hfile) place stem
  · intro e he
    rw [← hentries] at ha he
    rw [appendAll_of_refuses ha he, hw, extend, create]
  · intro offered hoffered
    rw [hw]
    exact offerAll_eq (w := create path interval) .nil hoffered hf

theorem scan_written_of_removed :
    Ascending [⟨[], .present []⟩, ⟨[1], .removed⟩, ⟨[1, 0], .present [7]⟩] ∧
      (∀ e ∈ [⟨[], .present []⟩, ⟨[1], .removed⟩, ⟨[1, 0], .present [7]⟩], Entry.Fits e) ∧
      ∃ w, (create "store/run" 2).appendAll
          ([⟨[], .present []⟩, ⟨[1], .removed⟩, ⟨[1, 0], .present [7]⟩].map .ok) = (w, .ok ()) ∧
        (w.finish "run").entries = 3 ∧ (w.finish "run").size = w.content.length ∧
        ((w.finish "run").index.map Prod.fst).Pairwise (· < ·) ∧
        (∀ folder : Folder, folder.find? "run" ≠ some .directory →
          ∃ written, folder.write "run" w.content = .ok written ∧
            written.find? "run" = some (.file w.content)) ∧
        (∀ (folder : Folder) (place : String) (stem : Bytes),
          folder.find? "run" = some (.file w.content) →
            (w.finish "run").scan folder place stem =
              .ok ((matching stem
                [⟨[], .present []⟩, ⟨[1], .removed⟩, ⟨[1, 0], .present [7]⟩]).map .ok)) ∧
        (∀ e : Entry,
          (∃ d ∈ [⟨[], .present []⟩, ⟨[1], .removed⟩, Entry.mk [1, 0] (.present [7])],
            ¬ d.key < e.key) →
          w.appendAll [.ok e] = (w, .error (.corrupted "store/run" .disorder))) ∧
        ∀ offered,
          rising [] offered = [⟨[], .present []⟩, ⟨[1], .removed⟩, ⟨[1, 0], .present [7]⟩] →
            (create "store/run" 2).offerAll offered = w := by
  have ha : Ascending [⟨[], .present []⟩, ⟨[1], .removed⟩, ⟨[1, 0], .present [7]⟩] := by
    unfold Ascending
    decide
  have hf : ∀ e ∈ [⟨[], .present []⟩, ⟨[1], .removed⟩, ⟨[1, 0], .present [7]⟩], Entry.Fits e := by
    decide
  exact ⟨ha, hf, scan_written ha hf "store/run" "run" 2⟩

end RunWriter

end ChangeBuffer
