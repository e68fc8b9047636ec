import ShapeCheck.Proofs.Paths

/-!
# Imports are resolved to normal forms

There are two ways to walk along the segments of a path. Normalizing keeps a `..` that there is
nothing to leave for; resolving an import refuses it. Otherwise they are one: the file that an import
refers to is the normal form of its text put behind the directory of the importing file, unless that
leads further up than the directory itself does.
-/

namespace ShapeCheck.Path

open Text

/-! ## Segments of a path -/

def ofSegments (absolute : Bool) (segments : List String) : String :=
  (if absolute then "/" else "") ++ join "/" segments

/-- The segments of a path, outermost first. The slash at the start of an absolute path ends no
segment, and where there is no text there is no segment. -/
def parts (path : String) : List String :=
  let text := if isAbsolute path then path.toList.tail else path.toList
  if text = [] then [] else (pieces '/' text).map String.ofList

def climbs (segments : List String) : Nat :=
  (segments.takeWhile (· = "..")).length

section
variable {directory : List String}

theorem parts_ofReversed (absolute : Bool) (h : Normal directory) :
    parts (ofReversed absolute directory) = directory.reverse := by
  have htext : (if absolute then (ofReversed absolute directory).toList.tail
      else (ofReversed absolute directory).toList) = (join "/" directory.reverse).toList := by
    cases absolute <;> simp [ofReversed]
  unfold parts
  rw [isAbsolute_ofReversed absolute h, htext]
  cases hd : directory.reverse with
  | nil => rfl
  | cons s rest =>
    have hsegments : ∀ t ∈ s :: rest, IsSegment t :=
      fun t ht => h.segments t (List.mem_reverse.mp (hd ▸ ht))
    have hne : (join "/" (s :: rest)).toList ≠ [] := by
      intro hnil
      have hhead := head?_join rest (hsegments s List.mem_cons_self).ne_empty
      rw [hnil, List.head?_nil, eq_comm, List.head?_eq_none_iff] at hhead
      exact (hsegments s List.mem_cons_self).ne_empty (String.toList_eq_nil_iff.mp hhead)
    rw [if_neg hne, pieces_join (by simp) fun t ht => (hsegments t ht).no_slash]
    simp

theorem parts_normalize (path : String) : parts (normalize path) = (collapse path).reverse :=
  parts_ofReversed _ (collapse_normal path)

/-- In a normal form all that leads up stands at the start. -/
theorem Normal.reverse_eq (h : Normal directory) :
    ∃ names, ".." ∉ names ∧
      directory.reverse = List.replicate (directory.count "..") ".." ++ names := by
  induction directory with
  | nil => exact ⟨[], by simp, rfl⟩
  | cons s outer ih =>
    by_cases hs : s = ".."
    · -- everything outside of `..` is `..`
      have hall : ∀ t ∈ s :: outer, t = ".." := by
        intro t ht
        rcases List.mem_cons.mp ht with rfl | ht
        · exact hs
        · exact (List.pairwise_cons.mp h.climbs).1 t ht hs
      refine ⟨[], by simp, ?_⟩
      rw [List.append_nil, List.count_eq_length.mpr fun t ht => (hall t ht).symm]
      refine List.eq_replicate_iff.mpr ⟨List.length_reverse, fun t ht => ?_⟩
      exact hall t (List.mem_reverse.mp ht)
    · obtain ⟨names, hnames, hreverse⟩ := ih h.tail
      refine ⟨names ++ [s], by simp [hnames, Ne.symm hs], ?_⟩
      rw [List.reverse_cons, hreverse, List.count_cons_of_ne hs, List.append_assoc]

theorem Normal.climbs_reverse (h : Normal directory) :
    Path.climbs directory.reverse = directory.count ".." ∧
      ".." ∉ directory.reverse.dropWhile (· = "..") := by
  obtain ⟨names, hnames, hreverse⟩ := h.reverse_eq
  rw [Path.climbs, hreverse, List.takeWhile_append_of_pos (by simp),
    List.dropWhile_append_of_pos (by simp)]
  cases names with
  | nil => simp
  | cons s rest =>
    have hs : s ≠ ".." := fun e => hnames (e ▸ List.mem_cons_self)
    rw [List.takeWhile_cons_of_neg (by simp [hs]), List.dropWhile_cons_of_neg (by simp [hs])]
    exact ⟨by simp, hnames⟩

end

/-! ## Walking with and without a bound -/

section
variable (directory : List String) (segment : String)

theorem count_le_count_step : directory.count ".." ≤ (step directory segment).count ".." := by
  unfold step
  split
  · exact Nat.le_refl _
  · split
    · cases directory with
      | nil => exact Nat.zero_le _
      | cons inner outer =>
        dsimp only
        split
        · exact List.count_le_count_cons
        · rename_i hinner
          exact Nat.le_of_eq (List.count_cons_of_ne hinner)
    · exact List.count_le_count_cons

/-- A step is refused just where it would lead up, and is the same step everywhere else. -/
theorem step?_eq : step? directory segment =
    if (step directory segment).count ".." = directory.count ".." then
      some (step directory segment) else none := by
  unfold step? step
  by_cases hstay : segment = "" ∨ segment = "."
  · simp only [hstay, ite_true]
  · by_cases hup : segment = ".."
    · cases directory with
      | nil => simp [hup]
      | cons inner outer =>
        by_cases hinner : inner = ".." <;> simp [hup, hinner]
    · simp [hstay, hup]

end

theorem count_le_count_foldl (segments directory : List String) :
    directory.count ".." ≤ (segments.foldl step directory).count ".." := by
  induction segments generalizing directory with
  | nil => exact Nat.le_refl _
  | cons s rest ih => exact Nat.le_trans (count_le_count_step directory s) (ih _)

/-- What has led up once stays there, so a walk is refused if and only if it ends further up than it
began. -/
theorem foldlM_step?_eq (segments directory : List String) :
    segments.foldlM step? directory =
      if (segments.foldl step directory).count ".." = directory.count ".." then
        some (segments.foldl step directory) else none := by
  induction segments generalizing directory with
  | nil => simp
  | cons s rest ih =>
    have hstep := count_le_count_step directory s
    have hrest := count_le_count_foldl rest (step directory s)
    rw [List.foldlM_cons, step?_eq, List.foldl_cons]
    by_cases hs : (step directory s).count ".." = directory.count ".."
    · rw [if_pos hs, ← hs]
      exact ih (step directory s)
    · rw [if_neg hs, if_neg (by omega)]
      rfl

/-! ## Imports -/

section
variable {directory : List String} (absolute : Bool) (requested : String)

theorem segments_ofSegments (h : Normal directory) :
    segments (ofSegments absolute (directory.reverse ++ [requested])) =
      (if absolute then [""] else []) ++ (directory.reverse ++ segments requested) := by
  have hpieces := pieces_join_concat
    (fun s hs => (h.segments s (List.mem_reverse.mp hs)).no_slash) requested
  unfold segments ofSegments
  cases absolute with
  | true => simp [pieces, hpieces]
  | false => simp [hpieces]

theorem collapse_ofSegments (h : Normal directory) :
    collapse (ofSegments absolute (directory.reverse ++ [requested])) =
      (segments requested).foldl step directory := by
  have hstart : (if absolute then [""] else []).foldl step [] = [] := by
    cases absolute <;> rfl
  rw [collapse, segments_ofSegments absolute requested h, List.foldl_append, hstart,
    List.foldl_append, foldl_step_reverse h]

variable {requested}

theorem head?_of_isRelative (h : isRelative requested) : requested.toList.head? = some '.' := by
  unfold isRelative at h
  cases hr : requested.toList with
  | nil => simp [hr] at h
  | cons c cs => grind

theorem isAbsolute_ofSegments (h : Normal directory) (hr : isRelative requested) :
    isAbsolute (ofSegments absolute (directory.reverse ++ [requested])) = absolute := by
  unfold isAbsolute ofSegments
  cases absolute with
  | true => simp
  | false =>
    cases hd : directory.reverse with
    | nil => simp [join, head?_of_isRelative hr]
    | cons s rest =>
      have hs : IsSegment s := h.segments s (List.mem_reverse.mp (hd ▸ List.mem_cons_self))
      have hhead : s.toList.head? ≠ some '/' := fun e => hs.no_slash (List.mem_of_head? e)
      simp [head?_join _ hs.ne_empty, hhead]

end

structure IsNormal (path : String) : Prop where
  fixed : normalize path = path
  segments : ∀ s ∈ parts path, s ≠ "" ∧ s ≠ "."
  climbs : ".." ∉ (parts path).dropWhile (· = "..")

theorem isNormal_ofReversed (absolute : Bool) {directory : List String} (h : Normal directory) :
    IsNormal (ofReversed absolute directory) := by
  refine ⟨normalize_ofReversed absolute h, ?_, ?_⟩
  · rw [parts_ofReversed absolute h]
    intro s hs
    have hsegment := h.segments s (List.mem_reverse.mp hs)
    exact ⟨hsegment.ne_empty, hsegment.ne_dot⟩
  · rw [parts_ofReversed absolute h]
    exact h.climbs_reverse.2

theorem resolve?_eq_normalize (current : String) {requested : String} (h : isRelative requested) :
    let directory := (parts (normalize current)).dropLast
    let path := ofSegments (isAbsolute current) (directory ++ [requested])
    resolve? current requested =
      if climbs (parts (normalize path)) = climbs directory then some (normalize path)
      else none := by
  have hn : Normal (collapse current).tail := (collapse_normal current).tail
  intro directory path
  have hdirectory : directory = (collapse current).tail.reverse := by
    show (parts (normalize current)).dropLast = _
    rw [parts_normalize, List.dropLast_reverse]
  have hcollapse : collapse path = (segments requested).foldl step (collapse current).tail := by
    show collapse (ofSegments _ (directory ++ [requested])) = _
    rw [hdirectory, collapse_ofSegments _ requested hn]
  have habsolute : isAbsolute path = isAbsolute current := by
    show isAbsolute (ofSegments _ (directory ++ [requested])) = _
    rw [hdirectory, isAbsolute_ofSegments _ hn h]
  have hclimbs : climbs (parts (normalize path)) = (collapse path).count ".." := by
    rw [parts_normalize]
    exact (collapse_normal path).climbs_reverse.1
  rw [hclimbs, hdirectory, hn.climbs_reverse.1, resolve?, foldlM_step?_eq, ← hcollapse, normalize,
    habsolute]
  split <;> rfl

/-- **Imports are resolved to normal forms.** What an import refers to is the normal form of its
text behind the directory of the importing file, and nothing if that leads further up than the
directory does. Every path that comes out of either way is a normal form. -/
theorem imports_resolved_to_normal_forms :
    (∀ current requested : String, isRelative requested →
      let directory := (parts (normalize current)).dropLast
      let path := ofSegments (isAbsolute current) (directory ++ [requested])
      resolve? current requested =
        if climbs (parts (normalize path)) = climbs directory then some (normalize path)
        else none) ∧
    (∀ path : String, IsNormal (normalize path)) ∧
    ∀ current requested path : String, resolve? current requested = some path → IsNormal path := by
  refine ⟨fun current requested h => resolve?_eq_normalize current h, fun path => ?_, ?_⟩
  · exact isNormal_ofReversed _ (collapse_normal path)
  · intro current requested path h
    obtain ⟨directory, hn, rfl⟩ := normal_of_resolve? h
    exact isNormal_ofReversed _ hn

/-- One import stays in a directory that is reached by leading up, the other one leads out of it. -/
theorem climbing_imports_resolved :
    let path (requested : String) := ofSegments false (["..", "lib"] ++ [requested])
    resolve? "a/../..//lib/./main" "./x/.././../y/" = some (normalize (path "./x/.././../y/")) ∧
      normalize (path "./x/.././../y/") = "../y" ∧ IsNormal "../y" ∧
      resolve? "a/../..//lib/./main" "../../y" = none ∧
      normalize (path "../../y") = "../../y" := by
  intro path
  obtain ⟨hresolve, -, hnormal⟩ := imports_resolved_to_normal_forms
  have hpath : normalize (path "./x/.././../y/") = "../y" := by decide +kernel
  have hstays : resolve? "a/../..//lib/./main" "./x/.././../y/" =
      some (normalize (path "./x/.././../y/")) := by
    rw [hresolve _ _ (by decide +kernel)]
    decide +kernel
  have hleads : resolve? "a/../..//lib/./main" "../../y" = none := by
    rw [hresolve _ _ (by decide +kernel)]
    decide +kernel
  exact ⟨hstays, hpath, hnormal _ _ _ (hpath ▸ hstays), hleads, by decide +kernel⟩

end ShapeCheck.Path
