import Mathlib.Data.Set.Finite.Basic
import ShapeCheck.CommandLine
import ShapeCheck.Directory
import ShapeCheck.Proofs.Levels
import ShapeCheck.Proofs.Paths

/-!
# Places in a directory

A path leads through a directory to a place. Different spellings may lead to the same place, but the
paths that imports of the file on the command line lead to have only one spelling each. So they are
different files, none of them is the file on the command line, and there are not more of them than
the directory has.
-/

namespace ShapeCheck

open Relation

namespace Text

theorem pieces_ne_nil (sep : Char) (cs : List Char) : pieces sep cs ≠ [] := by
  cases cs with
  | nil => simp [pieces]
  | cons c cs =>
    unfold pieces
    split
    · simp
    · split <;> simp

theorem pieces_append_cons (sep : Char) (cs rest : List Char) :
    pieces sep (cs ++ sep :: rest) = pieces sep cs ++ pieces sep rest := by
  induction cs with
  | nil => simp [pieces]
  | cons c cs ih =>
    rw [List.cons_append, pieces, pieces, ih]
    split
    · rfl
    · cases hp : pieces sep cs with
      | nil => exact absurd hp (pieces_ne_nil sep cs)
      | cons p ps => rfl

theorem join_pieces (cs : List Char) :
    join "/" ((pieces '/' cs).map String.ofList) = String.ofList cs := by
  induction cs with
  | nil => rfl
  | cons c cs ih =>
    have hne := pieces_ne_nil '/' cs
    cases hp : pieces '/' cs with
    | nil => exact absurd hp hne
    | cons p ps =>
      rw [hp] at ih
      unfold pieces
      rw [hp]
      apply String.toList_injective
      have ih' := congrArg String.toList ih
      split
      · rename_i hc
        simpa [join, hc] using ih'
      · cases ps with
        | nil => simpa [join] using ih'
        | cons p' ps => simpa [join] using ih'

theorem join_append_last (segments : List String) (last suffix : String) :
    join "/" (segments ++ [last]) ++ suffix = join "/" (segments ++ [last ++ suffix]) := by
  have hcons : ∀ (s t : String) (rest : List String),
      join "/" (s :: (rest ++ [t])) = s ++ "/" ++ join "/" (rest ++ [t]) := by
    intro s t rest
    cases rest <;> rfl
  induction segments with
  | nil => rfl
  | cons s rest ih =>
    rw [List.cons_append, List.cons_append, hcons, hcons, String.append_assoc, ih]

end Text

namespace Path

open Text

theorem join_segments (path : String) : join "/" (segments path) = path := by
  unfold segments
  rw [join_pieces, String.ofList_toList]

theorem segments_ne_nil (path : String) : segments path ≠ [] := by
  simp [segments, pieces_ne_nil]

theorem mem_of_mem_trimmed {s : String} : ∀ {names : List String}, s ∈ trimmed names → s ∈ names
  | [], h => h
  | [_], h => h
  | t :: u :: rest, h => by
    rw [trimmed] at h
    · split at h
      · exact List.mem_cons_of_mem _ (mem_of_mem_trimmed h)
      · exact h
    · simp

theorem segments_slash (a b : String) : segments (a ++ "/" ++ b) = segments a ++ segments b := by
  simp [segments, pieces_append_cons]

theorem segments_of_no_slash {s : String} (h : '/' ∉ s.toList) : segments s = [s] := by
  unfold segments
  rw [pieces_of_not_mem h]
  simp

theorem segments_join {names : List String} (hne : names ≠ [])
    (h : ∀ s ∈ names, '/' ∉ s.toList) : segments (join "/" names) = names := by
  unfold segments
  rw [pieces_join hne h]
  simp

theorem dropSuffix_append (q suffix : String) : dropSuffix suffix (q ++ suffix) = q := by
  have hsuffix : suffix.toList.isSuffixOf (q ++ suffix).toList = true := by simp
  unfold dropSuffix
  rw [if_pos hsuffix]
  simp

/-- The segments of a file's name tell its path. -/
theorem dropSuffix_join (q suffix : String) :
    dropSuffix suffix (join "/" (segments (q ++ suffix))) = q := by
  rw [join_segments, dropSuffix_append]

/-! ## Paths that only descend -/

/-- The path of a file below the directory where it starts. -/
def Descends (q : String) : Prop :=
  ∃ directory, Normal directory ∧ (∀ s ∈ directory.tail, s ≠ "..") ∧ q = ofReversed false directory

/-- A segment that leads on to a name. -/
structure Plain (s : String) : Prop where
  ne_empty : s ≠ ""
  ne_dot : s ≠ "."
  ne_up : s ≠ ".."

theorem step?_ne_up {directory next : List String} {s : String} (h : ∀ t ∈ directory, t ≠ "..")
    (hnext : step? directory s = some next) : ∀ t ∈ next, t ≠ ".." := by
  unfold step? at hnext
  split at hnext
  · cases hnext
    exact h
  · split at hnext
    · cases directory with
      | nil => cases hnext
      | cons inner outer =>
        dsimp only at hnext
        split at hnext
        · cases hnext
        · cases hnext
          exact fun t ht => h t (List.mem_cons_of_mem _ ht)
    · rename_i hup
      cases hnext
      simpa [hup] using h

theorem foldlM_step?_ne_up {segments directory next : List String}
    (h : ∀ t ∈ directory, t ≠ "..") (hnext : segments.foldlM step? directory = some next) :
    ∀ t ∈ next, t ≠ ".." := by
  induction segments generalizing directory with
  | nil =>
    cases hnext
    exact h
  | cons s rest ih =>
    rw [List.foldlM_cons] at hnext
    obtain ⟨d, hd, hrest⟩ := Option.bind_eq_some_iff.mp hnext
    exact ih (step?_ne_up h hd) hrest

theorem Descends.target {q requested b : String} (h : Descends q)
    (hb : target? q requested = some b) : Descends b := by
  obtain ⟨directory, hn, hup, rfl⟩ := h
  unfold target? at hb
  split at hb
  · unfold resolve? at hb
    rw [collapse_ofReversed false hn, isAbsolute_ofReversed false hn] at hb
    obtain ⟨next, hnext, rfl⟩ := Option.map_eq_some_iff.mp hb
    have hnormal := foldlM_step?_normal hn.tail (fun s hs => no_slash_of_mem_segments hs) hnext
    have hdown := foldlM_step?_ne_up hup hnext
    exact ⟨next, hnormal, fun s hs => hdown s (List.mem_of_mem_tail hs), rfl⟩
  · cases hb

theorem Descends.normalize_eq {q : String} (h : Descends q) : normalize q = q := by
  obtain ⟨directory, hn, -, rfl⟩ := h
  exact normalize_ofReversed false hn

/-- The normal form of a name is a name or nothing. -/
theorem descends_normalize {s : String} (h : '/' ∉ s.toList) : Descends (normalize s) := by
  have htail : (collapse s).tail = [] := by
    unfold collapse
    rw [segments_of_no_slash h]
    simp only [List.foldl_cons, List.foldl_nil, step]
    split
    · rfl
    · split <;> rfl
  have habsolute : isAbsolute s = false := by
    cases hs : s.toList with
    | nil => simp [isAbsolute, hs]
    | cons c cs =>
      rw [hs, List.mem_cons, not_or] at h
      simp [isAbsolute, hs, Ne.symm h.1]
  refine ⟨collapse s, collapse_normal s, by simp [htail], ?_⟩
  rw [normalize, habsolute]

section
variable {suffix : String} (hslash : '/' ∉ suffix.toList) (hlong : 2 < suffix.length)

include hlong in
theorem plain_append (s : String) : Plain (s ++ suffix) := by
  have hlength : ∀ t : String, t.length ≤ 2 → s ++ suffix ≠ t := by
    intro t ht e
    rw [← e, String.length_append] at ht
    omega
  exact ⟨hlength _ (by decide), hlength _ (by decide), hlength _ (by decide)⟩

include hslash hlong

theorem Descends.plain {q : String} (h : Descends q) : ∀ s ∈ segments (q ++ suffix), Plain s := by
  obtain ⟨directory, hn, hup, rfl⟩ := h
  cases directory with
  | nil => simpa [ofReversed, join, segments_of_no_slash hslash] using plain_append hlong ""
  | cons name outer =>
    have hname := (hn.segments name List.mem_cons_self).no_slash
    have houter : ∀ s ∈ outer, IsSegment s := fun s hs => hn.segments s (List.mem_cons_of_mem _ hs)
    have hjoin : ofReversed false (name :: outer) ++ suffix =
        join "/" (outer.reverse ++ [name ++ suffix]) := by
      simpa [ofReversed] using join_append_last outer.reverse name suffix
    have hsegments : segments (join "/" (outer.reverse ++ [name ++ suffix])) =
        outer.reverse ++ [name ++ suffix] := by
      refine segments_join (by simp) fun s hs => ?_
      rcases List.mem_append.mp hs with hs | hs
      · exact (houter s (List.mem_reverse.mp hs)).no_slash
      · rw [List.mem_singleton.mp hs, String.toList_append, List.mem_append, not_or]
        exact ⟨hname, hslash⟩
    rw [hjoin, hsegments]
    intro s hs
    rcases List.mem_append.mp hs with hs | hs
    · have hs' := List.mem_reverse.mp hs
      exact ⟨(houter s hs').ne_empty, (houter s hs').ne_dot, hup s hs'⟩
    · rw [List.mem_singleton.mp hs]
      exact plain_append hlong name

theorem Descends.isAbsolute_append {q : String} (h : Descends q) :
    isAbsolute (q ++ suffix) = false := by
  unfold isAbsolute
  rw [decide_eq_false_iff_not]
  intro hhead
  -- An absolute path has an empty segment first.
  obtain ⟨rest, hrest⟩ := List.head?_eq_some_iff.mp hhead
  have hempty : "" ∈ segments (q ++ suffix) := by
    unfold segments
    rw [hrest]
    simp [pieces]
  exact (h.plain hslash hlong "" hempty).ne_empty rfl

end

end Path

/-! ## Places -/

namespace Directory

def enter? (d : Directory) (place : List String) : List String → Option (List String)
  | [] => some place
  | s :: rest =>
    if s = "" ∨ s = "." then enter? d place rest
    else if s = ".." then
      if place = [] then none else enter? d place.dropLast rest
    else if d.hasDirectory (place ++ [s]) then enter? d (place ++ [s]) rest
    else none

def place? (d : Directory) (place : List String) : List String → Option (List String)
  | [] => none
  | [name] => if name = "" ∨ name = "." ∨ name = ".." then none else some (place ++ [name])
  | s :: rest =>
    if s = "" ∨ s = "." then place? d place rest
    else if s = ".." then
      if place = [] then none else place? d place.dropLast rest
    else if d.hasDirectory (place ++ [s]) then place? d (place ++ [s]) rest
    else none

theorem find?_eq (d : Directory) (place segments : List String) :
    d.find? place segments = (d.place? place segments).bind fun f => d.files.lookup f := by
  fun_induction place? d place segments <;> simp_all [find?]

theorem place?_append (d : Directory) {rest : List String} (h : rest ≠ []) :
    ∀ (segments place : List String),
      d.place? place (segments ++ rest) = (d.enter? place segments).bind fun p => d.place? p rest
  | [], place => rfl
  | s :: segments, place => by
    have hne : segments ++ rest ≠ [] := by simp [h]
    have ih := fun place => place?_append d h segments place
    rw [List.cons_append, place?, enter?]
    · simp only [ih]
      split <;> [rfl; split] <;> [split; split] <;> rfl
    · exact hne

theorem enter?_append (d : Directory) (rest : List String) :
    ∀ (segments place : List String),
      d.enter? place (segments ++ rest) = (d.enter? place segments).bind fun p => d.enter? p rest
  | [], place => rfl
  | s :: segments, place => by
    have ih := fun place => enter?_append d rest segments place
    rw [List.cons_append, enter?, enter?]
    simp only [ih]
    split <;> [rfl; split] <;> [split; split] <;> rfl

/-- Plain segments lead on as they stand. -/
theorem place?_plain (d : Directory) {segments place f : List String}
    (hs : ∀ s ∈ segments, Path.Plain s) (h : d.place? place segments = some f) :
    f = place ++ segments := by
  induction segments generalizing place with
  | nil => cases h
  | cons s rest ih =>
    have hplain := hs s List.mem_cons_self
    cases rest with
    | nil => simpa [place?, hplain.ne_empty, hplain.ne_dot, hplain.ne_up] using h.symm
    | cons t rest =>
      rw [place?, if_neg (not_or.mpr ⟨hplain.ne_empty, hplain.ne_dot⟩), if_neg hplain.ne_up] at h
      · split at h
        · rw [ih (fun u hu => hs u (List.mem_cons_of_mem _ hu)) h]
          simp
        · cases h
      · simp

theorem enter?_stay (d : Directory) {s : String} (h : s = "" ∨ s = ".") (place : List String) :
    d.enter? place [s] = some place := by
  rw [enter?, if_pos h, enter?]

theorem place?_within (d : Directory) (root : String) {name : String}
    (h : Path.isAbsolute name = false) (place : List String) :
    d.place? place (Path.segments (Path.within root name)) =
      (d.enter? place (Path.segments root)).bind fun p => d.place? p (Path.segments name) := by
  have hne : Path.segments name ≠ [] := Path.segments_ne_nil name
  unfold Path.within
  by_cases hroot : root = ""
  · subst hroot
    have hempty : Path.segments "" = [""] := Path.segments_of_no_slash (by simp)
    rw [if_pos (Or.inr rfl), hempty, d.enter?_stay (Or.inl rfl)]
    rfl
  · rw [if_neg (by simp [h, hroot])]
    split
    · -- The slash at the end of the root is the one between the two.
      rename_i hlast
      obtain ⟨cs, hcs⟩ := List.getLast?_eq_some_iff.mp hlast
      obtain rfl : root = String.ofList cs ++ "/" ++ "" := String.toList_injective (by simp [hcs])
      have hempty : Path.segments "" = [""] := Path.segments_of_no_slash (by simp)
      rw [Path.segments_slash, String.append_empty, Path.segments_slash, d.place?_append hne,
        hempty, d.enter?_append, Option.bind_assoc]
      simp only [d.enter?_stay (Or.inl rfl), Option.bind_some]
    · rw [Path.segments_slash, d.place?_append hne]

theorem enter?_trimmed (d : Directory) (place : List String) :
    ∀ segments, d.enter? place (Path.trimmed segments).reverse = d.enter? place segments.reverse
  | [] => rfl
  | [_] => rfl
  | s :: t :: rest => by
    have hreverse : (s :: t :: rest).reverse = (t :: rest).reverse ++ [s] := List.reverse_cons
    rw [Path.trimmed]
    · split
      · rename_i hs
        rw [d.enter?_trimmed place (t :: rest), hreverse, d.enter?_append]
        simp only [d.enter?_stay hs, Option.bind_fun_some]
      · rfl
    · simp

/-- A file lies in the directory that its parent leads to, under its name. -/
theorem place?_file {d : Directory} {file : String} {place f : List String}
    (h : d.place? place (Path.segments file) = some f) :
    ∃ p, d.enter? place (Path.segments (Path.parent file)) = some p ∧
      f = p ++ [Path.fileName file] := by
  obtain ⟨outer, name, hsegments⟩ : ∃ outer name, Path.segments file = outer ++ [name] :=
    ⟨_, _, (List.dropLast_append_getLast (Path.segments_ne_nil file)).symm⟩
  rw [hsegments, d.place?_append (by simp)] at h
  obtain ⟨p, hp, hname⟩ := Option.bind_eq_some_iff.mp h
  rw [place?] at hname
  split at hname
  · cases hname
  · rename_i hplain
    rw [not_or, not_or] at hplain
    cases hname
    have htrimmed : Path.trimmed (Path.segments file).reverse = name :: outer.reverse := by
      rw [hsegments, List.reverse_append]
      cases outer.reverse <;> simp [Path.trimmed, hplain]
    have hfile : Path.fileName file = name := by
      unfold Path.fileName
      rw [htrimmed]
      simp [hplain]
    refine ⟨p, ?_, by rw [hfile]⟩
    rw [Path.parent, htrimmed, List.tail_cons]
    have henter : d.enter? place (Path.trimmed outer.reverse).reverse = some p := by
      rw [d.enter?_trimmed, List.reverse_reverse, hp]
    have hslash : ∀ s ∈ Path.trimmed outer.reverse, '/' ∉ s.toList := by
      intro s hs
      have hmem : s ∈ Path.segments file := by
        rw [hsegments]
        simp [List.mem_reverse.mp (Path.mem_of_mem_trimmed hs)]
      exact Path.no_slash_of_mem_segments hmem
    generalize Path.trimmed outer.reverse = rest at henter hslash ⊢
    split
    · exact henter
    · by_cases hrest : rest = []
      · subst hrest
        exact henter
      · rw [Path.segments_join (by simpa using hrest) (by simpa using hslash)]
        exact henter

def file? (d : Directory) (path : String) : Option (List String) :=
  if Path.isAbsolute path then none else d.place? [] (Path.segments path)

theorem read?_eq (d : Directory) (path : String) :
    d.read? path =
      (d.file? path).bind fun f => (d.files.lookup f).bind String.fromUTF8? := by
  unfold read? file?
  split
  · rfl
  · rw [d.find?_eq, Option.bind_assoc]

def places (d : Directory) : Finset (List String) :=
  ((d.files.map Prod.fst).filter (· ≠ [])).toFinset

theorem mem_places {d : Directory} {f : List String} {content : ByteArray}
    (h : d.files.lookup f = some content) (hne : f ≠ []) : f ∈ d.places := by
  obtain ⟨before, after, hfiles, -⟩ := List.lookup_eq_some_iff.mp h
  simp [places, hfiles, hne]

theorem card_places_le (d : Directory) : d.places.card ≤ d.disk.capacity := by
  have hlength : ∀ files : List (List String × ByteArray),
      ((files.map Prod.fst).filter (· ≠ [])).length ≤ (files.flatMap Prod.fst).length := by
    intro files
    induction files with
    | nil => simp
    | cons e files ih =>
      obtain ⟨f, content⟩ := e
      cases f with
      | nil => simpa using ih
      | cons s rest =>
        simp only [List.map_cons, List.flatMap_cons, List.length_append]
        rw [List.filter_cons_of_pos (by simp)]
        simp only [List.length_cons]
        omega
  have hcard := List.toFinset_card_le ((d.files.map Prod.fst).filter (· ≠ []))
  exact hcard.trans ((hlength d.files).trans (Nat.le_succ _))

end Directory

/-! ## The folder around a file -/

namespace CommandLine

def program (disk : Disk) (file : String) (tree : Stmt) : Program :=
  let (folder, path) := locate disk Config.standard file
  ⟨folder.sources, Path.normalize path, tree⟩

def fileAt (disk : Disk) (file path : String) : String :=
  (locate disk Config.standard file).1.filePath path

section
variable {disk : Disk} {file : String} {tree : Stmt}

theorem descends_path : Path.Descends (program disk file tree).path := by
  have hname : '/' ∉ (Path.fileName file).toList := by
    unfold Path.fileName
    split
    · simp
    · split
      · simp
      · rename_i s rest htrimmed _
        have hmem : s ∈ Path.segments file := by
          rw [← List.mem_reverse]
          exact Path.mem_of_mem_trimmed (htrimmed ▸ List.mem_cons_self)
        exact Path.no_slash_of_mem_segments hmem
  refine Path.descends_normalize fun hmem => hname ?_
  unfold Path.dropSuffix at hmem
  split at hmem
  · rw [String.toList_ofList] at hmem
    exact List.mem_of_mem_take hmem
  · exact hmem

theorem descends_of_reach {q : String}
    (h : ReflTransGen (program disk file tree).Imports (program disk file tree).path q) :
    Path.Descends q := by
  induction h with
  | refl => exact descends_path
  | tail _ hab ih =>
    obtain ⟨tree', -, hb⟩ := hab
    obtain ⟨requested, -, htarget⟩ := Stmt.mem_importedFiles.mp hb
    exact ih.target htarget

end

section
variable {d : Directory} {file : String}

/-- The place of the file that a path stands for tells the path. -/
theorem place_fileAt {q : String} {f : List String} (hq : Path.Descends q)
    (h : d.file? (fileAt d.disk file q) = some f) :
    ∃ p, d.enter? [] (Path.segments (Path.parent file)) = some p ∧
      f = p ++ Path.segments (q ++ Config.standard.sourceSuffix) := by
  have hslash : '/' ∉ Config.standard.sourceSuffix.toList := by decide
  have hlong : 2 < Config.standard.sourceSuffix.length := by decide
  unfold Directory.file? at h
  split at h
  · cases h
  · have hwithin := d.place?_within (Path.parent file) (hq.isAbsolute_append hslash hlong) []
    have hf := hwithin.symm.trans h
    obtain ⟨p, hp, hplace⟩ := Option.bind_eq_some_iff.mp hf
    exact ⟨p, hp, d.place?_plain (hq.plain hslash hlong) hplace⟩

theorem fileAt_inj {q q' : String} {f : List String} (hq : Path.Descends q)
    (hq' : Path.Descends q') (h : d.file? (fileAt d.disk file q) = some f)
    (h' : d.file? (fileAt d.disk file q') = some f) : q = q' := by
  obtain ⟨p, hp, hf⟩ := place_fileAt hq h
  obtain ⟨p', hp', hf'⟩ := place_fileAt hq' h'
  rw [hp] at hp'
  cases hp'
  have hsegments := List.append_cancel_left (hf.symm.trans hf')
  rw [← Path.dropSuffix_join q Config.standard.sourceSuffix, hsegments, Path.dropSuffix_join]

/-- The file on the command line is no other path's file. -/
theorem eq_path_of_fileAt {tree : Stmt} {q : String} {f : List String} (hq : Path.Descends q)
    (h : d.file? (fileAt d.disk file q) = some f) (hfile : d.file? file = some f) :
    q = (program d.disk file tree).path := by
  obtain ⟨p, hp, hf⟩ := place_fileAt hq h
  unfold Directory.file? at hfile
  split at hfile
  · cases hfile
  · obtain ⟨p', hp', hf'⟩ := Directory.place?_file hfile
    rw [hp] at hp'
    cases hp'
    have hsegments := List.append_cancel_left (hf.symm.trans hf')
    have hpath : q = Path.dropSuffix Config.standard.sourceSuffix (Path.fileName file) := by
      rw [← Path.dropSuffix_join q Config.standard.sourceSuffix, hsegments]
      rfl
    rw [← hq.normalize_eq, hpath]
    rfl

/-- The files of a directory are enough levels. -/
theorem program_fits (d : Directory) (file : String) (tree : Stmt) :
    (program d.disk file tree).Fits := by
  let P := program d.disk file tree
  let reached : Set String :=
    { q | ReflTransGen P.Imports P.path q ∧ (P.sources.text? q).isSome }
  let place (q : String) : List String := (d.file? (fileAt d.disk file q)).getD []
  have hplace : ∀ q ∈ reached, d.file? (fileAt d.disk file q) = some (place q) ∧
      place q ∈ d.places := by
    intro q hq
    have htext : (d.read? (fileAt d.disk file q)).isSome := hq.2
    obtain ⟨text, htext⟩ := Option.isSome_iff_exists.mp htext
    rw [d.read?_eq] at htext
    obtain ⟨f, hf, hcontent⟩ := Option.bind_eq_some_iff.mp htext
    obtain ⟨content, hlookup, -⟩ := Option.bind_eq_some_iff.mp hcontent
    obtain ⟨p, -, hp⟩ := place_fileAt (descends_of_reach hq.1) hf
    have hne : f ≠ [] := by simp [hp, Path.segments_ne_nil]
    have hplace : place q = f := by simp [place, hf]
    rw [hplace]
    exact ⟨hf, Directory.mem_places hlookup hne⟩
  have hinj : Set.InjOn place reached := by
    intro q hq q' hq' e
    exact fileAt_inj (descends_of_reach hq.1) (descends_of_reach hq'.1) (hplace q hq).1
      (e ▸ (hplace q' hq').1)
  have hfinite : reached.Finite :=
    Set.Finite.of_injOn (fun q hq => (hplace q hq).2) hinj d.places.finite_toSet
  refine ⟨hfinite.toFinset, ?_, fun q hq htext => hfinite.mem_toFinset.mpr ⟨hq, htext⟩⟩
  have hcard : hfinite.toFinset.card ≤ d.places.card := by
    refine Finset.card_le_card_of_injOn place (fun q hq => ?_) ?_
    · exact (hplace q (hfinite.mem_toFinset.mp hq)).2
    · rwa [hfinite.coe_toFinset]
  exact hcard.trans (d.card_places_le)

end

end CommandLine

end ShapeCheck
