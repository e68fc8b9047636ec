import ShapeCheck.Proofs.MatchingTokens
import ShapeCheck.Proofs.Parsed
import ShapeCheck.Proofs.Tandem

/-!
# Errors stay with their file

Whatever is reported on a file is reported under its name, at the start of one of its tokens or of
the character that starts none, or at the start of its text. All of these places lie within the text
and on the boundary of a character.
-/

namespace ShapeCheck

open Text (byteLength)

/-! ## Places in a text -/

/-- The error is about the first character of the text that starts no token, and stands there. -/
def Error.Unrecognised (text file : String) (e : Error) : Prop :=
  tokenize text (some file) = .error e ∧ ∃ before c after, text.toList = before ++ c :: after ∧
    lexeme? c after = none ∧ e.cause = .unrecognisedToken (String.singleton c) ∧
      e.position.offset.toNat = byteLength before

/-- The error is one that a file with the given text and name can have. -/
structure Error.StandsIn (text file : String) (e : Error) : Prop where
  file_eq : e.position.file = file
  place : e.position.offset = 0 ∨
    (∃ tokens, tokenize text (some file) = .ok tokens ∧ ∃ t ∈ tokens, t.span.start = e.position) ∨
    e.Unrecognised text file
  le_size : e.position.offset.toNat ≤ text.utf8ByteSize
  boundary : String.Pos.Raw.IsValid text ⟨e.position.offset.toNat⟩

section
variable {text file : String}

theorem isValid_byteLength {before after : List Char} (h : text.toList = before ++ after) :
    byteLength before ≤ text.utf8ByteSize ∧ String.Pos.Raw.IsValid text ⟨byteLength before⟩ := by
  have htext : text = String.ofList before ++ String.ofList after := by
    rw [← String.ofList_append, ← h, String.ofList_toList]
  constructor
  · rw [htext, String.utf8ByteSize_append, Text.byteLength_eq]
    exact Nat.le_add_right _ _
  · rw [String.Pos.Raw.isValid_iff_exists_append]
    refine ⟨_, _, htext, ?_⟩
    rw [Text.byteLength_eq]
    rfl

variable (hsize : text.utf8ByteSize < UInt32.size)
include hsize

/-- In a text of such a size no offset wraps around. -/
theorem toNat_offset_at {before after : List Char} (h : text.toList = before ++ after) :
    (Position.at (byteLength before) file).offset.toNat = byteLength before := by
  have hle := (isValid_byteLength h).1
  exact Position.toNat_at (Nat.lt_of_le_of_lt hle hsize)

theorem Error.standsIn_at {before after : List Char} (h : text.toList = before ++ after)
    {e : Error} (he : e.position = .at (byteLength before) file)
    (hplace : e.position.offset = 0 ∨
      (∃ tokens, tokenize text (some file) = .ok tokens ∧ ∃ t ∈ tokens, t.span.start = e.position) ∨
      e.Unrecognised text file) : e.StandsIn text file := by
  have hoffset : e.position.offset.toNat = byteLength before := by
    rw [he]
    exact toNat_offset_at hsize h
  obtain ⟨hle, hvalid⟩ := isValid_byteLength h
  exact ⟨by rw [he]; rfl, hplace, hoffset ▸ hle, hoffset ▸ hvalid⟩

theorem Error.standsIn_start (cause : Cause) :
    Error.StandsIn text file ⟨cause, .at 0 file⟩ :=
  Error.standsIn_at hsize (List.nil_append text.toList).symm rfl (Or.inl rfl)

theorem Error.standsIn_token {tokens : List Token} (htokens : tokenize text (some file) = .ok tokens)
    {t : Token} (ht : t ∈ tokens) (cause : Cause) :
    Error.StandsIn text file ⟨cause, t.span.start⟩ := by
  obtain ⟨before, after, htext, hstart⟩ :=
    (tokensAt_lexes file 0 text.toList).start_of_mem htokens t ht
  rw [Nat.zero_add] at hstart
  exact Error.standsIn_at hsize htext hstart (Or.inr (Or.inl ⟨tokens, htokens, t, ht, rfl⟩))

theorem Error.standsIn_unrecognised {e : Error} (he : tokenize text (some file) = .error e) :
    e.StandsIn text file := by
  obtain ⟨before, c, after, htext, hnone, heq⟩ :=
    (tokensAt_lexes file 0 text.toList).unrecognised_of_error he
  rw [Nat.zero_add] at heq
  have hposition : e.position = .at (byteLength before) file := by rw [heq]
  have hoffset : e.position.offset.toNat = byteLength before := by
    rw [hposition]
    exact toNat_offset_at hsize htext
  have hcause : e.cause = .unrecognisedToken (String.singleton c) := by rw [heq]
  exact Error.standsIn_at hsize htext hposition
    (Or.inr (Or.inr ⟨he, before, c, after, htext, hnone, hcause, hoffset⟩))

/-! ## Trees and syntax errors -/

/-- What is read from a text has all its places in it, and so has the error if nothing is read. -/
theorem parseSource_standsIn {E : Error → Error → Prop}
    (hE : ∀ e : Error, e.StandsIn text file → E e e) (maxDepth : Nat) :
    ParsedAlike E anyName (some (parseSource text file maxDepth))
      (some (parseSource text file maxDepth)) := by
  have hcut : CutAlike E (tokenize text (some file)) (tokenize text (some file)) := by
    cases hrun : tokenize text (some file) with
    | ok tokens =>
      refine .ok (List.forall₂_same.mpr fun t ht => ⟨rfl, rfl, fun cause => hE _ ?_⟩)
      exact Error.standsIn_token hsize hrun ht cause
    | error e => exact .error (hE e (Error.standsIn_unrecognised hsize hrun))
  exact parseSource_alike hcut (fun cause => hE _ (Error.standsIn_start hsize cause)) maxDepth

end

/-! ## Files in memory -/

/-- The files beside themselves, where errors stand in the text of their file. -/
def Entries.located (files : Entries String)
    (hfiles : ∀ q, ∀ text ∈ files.get? q, text.utf8ByteSize < UInt32.size) : Correspondence where
  left := .ofFiles files
  right := .ofFiles files
  paths _ := True
  seen := anyName
  errors q e _ := ∃ text ∈ files.get? q, e.StandsIn text q
  target _ _ := trivial
  parse := by
    intro q _
    show ParsedAlike _ _ ((files.get? q).map _) ((files.get? q).map _)
    cases hget : files.get? q with
    | none => exact .missing
    | some text =>
      exact parseSource_standsIn (hfiles q text hget) (fun e he => ⟨text, rfl, he⟩) _

/-- **Errors stay with their file.** Every error in the report on the program stands in the text that
it was parsed from, and every error in the report kept on a file stands in the text of that file. -/
theorem errors_stay_with_file {source file : String} {maxDepth : Nat} {tree : Stmt}
    {files : Entries String} (hsource : source.utf8ByteSize < UInt32.size)
    (hfiles : ∀ q, ∀ text ∈ files.get? q, text.utf8ByteSize < UInt32.size)
    (hparse : parseSource source file maxDepth = .ok tree) (env : Environment) (path : String) :
    let outcome := (Workspace.ofSources (.ofFiles files)).check env path tree
    (∀ e ∈ outcome.1.errors, e.StandsIn source file) ∧
      ∀ q r, (q, r) ∈ outcome.2.reports → ∀ e ∈ r.errors, ∃ text ∈ files.get? q, e.StandsIn text q := by
  intro outcome
  let K := files.located hfiles
  let E (e _ : Error) : Prop := e.StandsIn source file
  have htree : tree.Matches (placesOf E) K.seen tree := by
    have halike := parseSource_standsIn hsource (E := E) (fun _ h => h) maxDepth
    rw [hparse] at halike
    cases halike with
    | parsed htree => exact htree
  have hpath : K.paths (Path.normalize path) := trivial
  obtain ⟨hreport, hend⟩ := checkFile_matches (importer_inStep (Sources.ofFiles files).capacity E)
    htree hpath (.refl env) [] (Workspace.ofSources_matches K)
  constructor
  · intro e he
    exact List.forall₂_same.mp hreport.errors e he
  · intro q r hr e he
    obtain ⟨-, hmatches⟩ := List.forall₂_same.mp hend.reports (q, r) hr
    exact List.forall₂_same.mp hmatches.errors e he

section

-- The run below is evaluated as a whole and not unfolded.
attribute [local irreducible] Workspace.check

def wideFiles : Entries String :=
  [("a", "// ü\nx = \"ß\" §"), ("b", "x = \"äöü\" y = nope")]

def wideSource : String :=
  "\"é\" import(\"./a\") import(\"./b\")"

theorem wideFiles_errors_stay :
    let tree := treeOf (parseSource wideSource "main.lang" 256)
    let outcome := (Workspace.ofSources (.ofFiles wideFiles)).check ⟨[], .standard⟩ "main" tree
    ((∀ e ∈ outcome.1.errors, e.StandsIn wideSource "main.lang") ∧
      ∀ q r, (q, r) ∈ outcome.2.reports →
        ∀ e ∈ r.errors, ∃ text ∈ wideFiles.get? q, e.StandsIn text q) ∧
      outcome.1.errors.map (·.position) = [⟨5, "main.lang"⟩] ∧
      (outcome.2.reports.flatMap fun e => e.2.errors.map (·.position)) = [⟨15, "a"⟩, ⟨17, "b"⟩] := by
  intro tree outcome
  have hparse : parseSource wideSource "main.lang" 256 = .ok tree := by
    have hok : (parseSource wideSource "main.lang" 256).isOk := by decide +kernel
    simp only [tree]
    cases hrun : parseSource wideSource "main.lang" 256 with
    | ok t => rfl
    | error e =>
      rw [hrun] at hok
      cases hok
  have hfiles : ∀ q, ∀ text ∈ wideFiles.get? q, text.utf8ByteSize < UInt32.size := by
    have hall : ∀ e ∈ wideFiles, e.2.utf8ByteSize < UInt32.size := by decide +kernel
    intro q text htext
    exact hall (q, text) (Entries.mem_of_get? htext)
  refine ⟨?_, by decide +kernel, by decide +kernel⟩
  exact errors_stay_with_file (by decide +kernel) hfiles hparse ⟨[], .standard⟩ "main"

end

end ShapeCheck
