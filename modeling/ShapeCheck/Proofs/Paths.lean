import ShapeCheck.Path

/-!
# Normal forms of paths

The segments of a normal form hold no slash and are neither empty nor `.`, and `..` stands only
before all others. Such segments are read back from their text as they are, so normalizing changes
nothing in a normal form. What an import refers to is one.
-/

namespace ShapeCheck

namespace Text

theorem not_mem_of_mem_pieces {sep : Char} {cs p : List Char} (h : p ∈ pieces sep cs) :
    sep ∉ p := by
  induction cs generalizing p with
  | nil =>
    rw [List.mem_singleton.mp h]
    exact List.not_mem_nil
  | cons c cs ih =>
    unfold pieces at h
    split at h
    · rcases List.mem_cons.mp h with rfl | h
      · exact List.not_mem_nil
      · exact ih h
    · rename_i hc
      cases hp : pieces sep cs with
      | nil =>
        rw [hp] at h
        rw [List.mem_singleton.mp h, List.mem_singleton]
        exact fun e => hc e.symm
      | cons q ps =>
        rw [hp] at h ih
        rcases List.mem_cons.mp h with rfl | h
        · have hq : sep ∉ q := ih List.mem_cons_self
          rw [List.mem_cons, not_or]
          exact ⟨fun e => hc e.symm, hq⟩
        · exact ih (List.mem_cons_of_mem _ h)

theorem pieces_of_not_mem {sep : Char} {cs : List Char} (h : sep ∉ cs) : pieces sep cs = [cs] := by
  induction cs with
  | nil => rfl
  | cons c cs ih =>
    rw [List.mem_cons, not_or] at h
    unfold pieces
    rw [if_neg fun e => h.1 e.symm, ih h.2]

theorem pieces_append {sep : Char} {cs : List Char} (h : sep ∉ cs) (rest : List Char) :
    pieces sep (cs ++ sep :: rest) = cs :: pieces sep rest := by
  induction cs with
  | nil => simp [pieces]
  | cons c cs ih =>
    rw [List.mem_cons, not_or] at h
    rw [List.cons_append, pieces, if_neg fun e => h.1 e.symm, ih h.2]

theorem join_cons (sep s : String) {rest : List String} (h : rest ≠ []) :
    join sep (s :: rest) = s ++ sep ++ join sep rest := by
  cases rest with
  | nil => exact absurd rfl h
  | cons t rest => rfl

/-- Texts without the separator are read back as they were joined. The last one may have more in
it. -/
theorem pieces_join_concat {segments : List String} (h : ∀ s ∈ segments, '/' ∉ s.toList)
    (last : String) :
    pieces '/' (join "/" (segments ++ [last])).toList =
      segments.map String.toList ++ pieces '/' last.toList := by
  induction segments with
  | nil => rfl
  | cons s rest ih =>
    have hrest := ih fun u hu => h u (List.mem_cons_of_mem _ hu)
    have htext : (join "/" (s :: (rest ++ [last]))).toList
        = s.toList ++ '/' :: (join "/" (rest ++ [last])).toList := by
      simp [join_cons]
    rw [List.cons_append, htext, pieces_append (h s List.mem_cons_self), hrest]
    rfl

theorem pieces_join {segments : List String} (hne : segments ≠ [])
    (h : ∀ s ∈ segments, '/' ∉ s.toList) :
    pieces '/' (join "/" segments).toList = segments.map String.toList := by
  obtain ⟨init, last, hlast⟩ := (List.eq_nil_or_concat segments).resolve_left hne
  rw [List.concat_eq_append] at hlast
  subst hlast
  rw [pieces_join_concat (fun s hs => h s (List.mem_append_left _ hs)),
    pieces_of_not_mem (h last (by simp)), List.map_append]
  rfl

end Text

namespace Path

open Text

structure IsSegment (s : String) : Prop where
  ne_empty : s ≠ ""
  ne_dot : s ≠ "."
  no_slash : '/' ∉ s.toList

/-- The segments of a normal form, innermost first: outside of `..` there is only `..`. -/
structure Normal (directory : List String) : Prop where
  segments : ∀ s ∈ directory, IsSegment s
  climbs : directory.Pairwise fun inner outer => inner = ".." → outer = ".."

namespace Normal

variable {directory : List String} {s : String}

theorem nil : Normal [] :=
  ⟨by simp, .nil⟩

theorem tail (h : Normal directory) : Normal directory.tail :=
  ⟨fun s hs => h.segments s (List.mem_of_mem_tail hs), h.climbs.tail⟩

theorem cons (h : Normal directory) (hs : IsSegment s) (hne : s ≠ "..") :
    Normal (s :: directory) := by
  constructor
  · intro t ht
    rcases List.mem_cons.mp ht with rfl | ht
    · exact hs
    · exact h.segments t ht
  · exact List.pairwise_cons.mpr ⟨fun _ _ e => absurd e hne, h.climbs⟩

/-- One more `..` outside of which there is only `..`. -/
theorem climb (h : Normal directory) (hup : ∀ t ∈ directory, t = "..") :
    Normal (".." :: directory) := by
  constructor
  · intro t ht
    rcases List.mem_cons.mp ht with rfl | ht
    · exact ⟨by decide, by decide, by decide⟩
    · exact h.segments t ht
  · exact List.pairwise_cons.mpr ⟨fun t ht _ => hup t ht, h.climbs⟩

theorem step (h : Normal directory) (hs : '/' ∉ s.toList) : Normal (step directory s) := by
  unfold Path.step
  split
  · exact h
  · rename_i hstay
    rw [not_or] at hstay
    split
    · cases directory with
      | nil => exact climb nil (by simp)
      | cons inner outer =>
        dsimp only
        by_cases hin : inner = ".."
        · subst hin
          rw [if_pos rfl]
          apply climb h
          intro t ht
          rcases List.mem_cons.mp ht with rfl | ht
          · rfl
          · exact (List.pairwise_cons.mp h.climbs).1 t ht rfl
        · rw [if_neg hin]
          exact h.tail
    · rename_i hup
      exact h.cons ⟨hstay.1, hstay.2, hs⟩ hup

theorem step? (h : Normal directory) (hs : '/' ∉ s.toList) {next : List String}
    (hnext : Path.step? directory s = some next) : Normal next := by
  unfold Path.step? at hnext
  split at hnext
  · cases hnext
    exact h
  · rename_i hstay
    rw [not_or] at hstay
    split at hnext
    · cases directory with
      | nil => cases hnext
      | cons inner outer =>
        dsimp only at hnext
        split at hnext
        · cases hnext
        · cases hnext
          exact h.tail
    · rename_i hup
      cases hnext
      exact h.cons ⟨hstay.1, hstay.2, hs⟩ hup

end Normal

theorem no_slash_of_mem_segments {path s : String} (h : s ∈ segments path) : '/' ∉ s.toList := by
  unfold segments at h
  obtain ⟨p, hp, rfl⟩ := List.mem_map.mp h
  rw [String.toList_ofList]
  exact not_mem_of_mem_pieces hp

theorem collapse_normal (path : String) : Normal (collapse path) :=
  List.foldlRecOn (segments path) _ .nil fun _ h _ hs => h.step (no_slash_of_mem_segments hs)

theorem foldlM_step?_normal {segments directory next : List String} (h : Normal directory)
    (hs : ∀ s ∈ segments, '/' ∉ s.toList) (hnext : segments.foldlM step? directory = some next) :
    Normal next := by
  induction segments generalizing directory with
  | nil =>
    cases hnext
    exact h
  | cons s rest ih =>
    rw [List.foldlM_cons] at hnext
    obtain ⟨d, hd, hrest⟩ := Option.bind_eq_some_iff.mp hnext
    exact ih (h.step? (hs s List.mem_cons_self) hd) (fun t ht => hs t (List.mem_cons_of_mem _ ht))
      hrest

/-! ## Reading a normal form back -/

theorem foldl_step_reverse {directory : List String} (h : Normal directory) :
    directory.reverse.foldl step [] = directory := by
  induction directory with
  | nil => rfl
  | cons s outer ih =>
    rw [List.reverse_cons, List.foldl_append, ih h.tail]
    have hs := h.segments s List.mem_cons_self
    have hstay : ¬ (s = "" ∨ s = ".") := not_or.mpr ⟨hs.ne_empty, hs.ne_dot⟩
    simp only [List.foldl_cons, List.foldl_nil]
    unfold step
    rw [if_neg hstay]
    by_cases hup : s = ".."
    · rw [if_pos hup]
      cases outer with
      | nil => rw [hup]
      | cons inner outer =>
        have hin : inner = ".." := (List.pairwise_cons.mp h.climbs).1 inner List.mem_cons_self hup
        simp only [hin, ite_true]
        rw [hup]
    · rw [if_neg hup]

theorem segments_ofReversed (absolute : Bool) {directory : List String} (h : Normal directory)
    (hne : directory ≠ []) :
    segments (ofReversed absolute directory) =
      (if absolute then [""] else []) ++ directory.reverse := by
  have hjoin := pieces_join (by simpa using hne)
    fun s hs => (h.segments s (List.mem_reverse.mp hs)).no_slash
  unfold segments ofReversed
  cases absolute with
  | true => simp [pieces, hjoin]
  | false => simp [hjoin]

theorem collapse_ofReversed (absolute : Bool) {directory : List String} (h : Normal directory) :
    collapse (ofReversed absolute directory) = directory := by
  by_cases hne : directory = []
  · subst hne
    cases absolute <;> decide
  · unfold collapse
    rw [segments_ofReversed absolute h hne]
    cases absolute with
    | true => exact foldl_step_reverse h
    | false => exact foldl_step_reverse h

theorem head?_join {s : String} (rest : List String) (h : s ≠ "") :
    (join "/" (s :: rest)).toList.head? = s.toList.head? := by
  cases hs : s.toList with
  | nil => exact absurd (String.toList_eq_nil_iff.mp hs) h
  | cons c cs =>
    cases rest with
    | nil => simp [join, hs]
    | cons t rest => simp [join, hs]

theorem isAbsolute_ofReversed (absolute : Bool) {directory : List String} (h : Normal directory) :
    isAbsolute (ofReversed absolute directory) = absolute := by
  unfold isAbsolute ofReversed
  cases absolute with
  | true => simp
  | false =>
    cases hd : directory.reverse with
    | nil => simp [join]
    | cons s rest =>
      have hs : IsSegment s := h.segments s (List.mem_reverse.mp (hd ▸ List.mem_cons_self))
      have hhead : s.toList.head? ≠ some '/' := fun e => hs.no_slash (List.mem_of_head? e)
      simp [head?_join rest hs.ne_empty, hhead]

theorem normalize_ofReversed (absolute : Bool) {directory : List String} (h : Normal directory) :
    normalize (ofReversed absolute directory) = ofReversed absolute directory := by
  unfold normalize
  rw [isAbsolute_ofReversed absolute h, collapse_ofReversed absolute h]

theorem normalize_normalize (path : String) : normalize (normalize path) = normalize path :=
  normalize_ofReversed _ (collapse_normal path)

theorem normal_of_resolve? {current requested path : String}
    (h : resolve? current requested = some path) :
    ∃ directory, Normal directory ∧ path = ofReversed (isAbsolute current) directory := by
  obtain ⟨directory, hd, rfl⟩ := Option.map_eq_some_iff.mp h
  refine ⟨directory, foldlM_step?_normal (collapse_normal current).tail ?_ hd, rfl⟩
  exact fun s hs => no_slash_of_mem_segments hs

theorem normalize_target {path requested b : String} (h : target? path requested = some b) :
    normalize b = b := by
  unfold target? at h
  split at h
  · obtain ⟨directory, hn, rfl⟩ := normal_of_resolve? h
    exact normalize_ofReversed _ hn
  · cases h

end Path

end ShapeCheck
