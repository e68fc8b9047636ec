import Mathlib.Data.List.TakeWhile
import ShapeCheck.Proofs.Lexing

/-!
# The pieces of a text

`Piece c more rest token?` says without the scanner what it means that `c :: more` is the first
piece of a text that goes on with `rest`: of which characters the piece is made, and what must not
follow, since a longer piece would be cut then. That makes it plain which texts can be put behind a
piece, or taken away from it, without changing it.
-/

namespace ShapeCheck

open Text (isSpace isLetter isDigit isWordChar)

/-! ## Classes of characters -/

namespace Text

theorem isSpace_of_isLetter {c : Char} (h : isLetter c = true) : isSpace c = false := by
  simp only [isLetter, isSpace, Char.le_def, UInt32.le_iff_toNat_le, decide_eq_true_eq,
    ← Char.toNat_val] at h ⊢
  rcases h with ⟨h₁, h₂⟩ | ⟨h₁, h₂⟩ | rfl
  · simp at h₁ h₂ ⊢
    omega
  · simp at h₁ h₂ ⊢
    omega
  · rfl

theorem isSpace_of_isDigit {c : Char} (h : isDigit c = true) : isSpace c = false := by
  simp only [isDigit, isSpace, Char.le_def, UInt32.le_iff_toNat_le, decide_eq_true_eq,
    ← Char.toNat_val] at h ⊢
  simp at h ⊢
  omega

theorem isLetter_of_isDigit {c : Char} (h : isDigit c = true) : isLetter c = false := by
  simp only [isDigit, isLetter, Char.le_def, UInt32.le_iff_toNat_le, decide_eq_true_eq,
    decide_eq_false_iff_not] at h ⊢
  rintro (h' | h' | rfl)
  · simp at h h'
    omega
  · simp at h h'
    omega
  · simp at h

theorem isLetter_of_isSpace {c : Char} (h : isSpace c = true) : isLetter c = false := by
  by_cases hletter : isLetter c = true
  · simp [isSpace_of_isLetter hletter] at h
  · simpa using hletter

theorem isDigit_of_isSpace {c : Char} (h : isSpace c = true) : isDigit c = false := by
  by_cases hdigit : isDigit c = true
  · simp [isSpace_of_isDigit hdigit] at h
  · simpa using hdigit

def Stops (p : Char → Bool) (rest : List Char) : Prop :=
  ∀ c ∈ rest.head?, p c = false

theorem takeWhile_append_of_stops {p : Char → Bool} {cs rest : List Char}
    (hcs : ∀ c ∈ cs, p c = true) (hrest : Stops p rest) : (cs ++ rest).takeWhile p = cs := by
  rw [List.takeWhile_append_of_pos hcs]
  cases rest with
  | nil => simp
  | cons c rest => simp [hrest c rfl]

theorem dropWhile_append_of_stops {p : Char → Bool} {cs rest : List Char}
    (hcs : ∀ c ∈ cs, p c = true) (hrest : Stops p rest) : (cs ++ rest).dropWhile p = rest := by
  rw [List.dropWhile_append_of_pos hcs]
  cases rest with
  | nil => rfl
  | cons c rest => simp [hrest c rfl]

theorem takeWhile_run (p : Char → Bool) (cs : List Char) : ∃ rest,
    cs = cs.takeWhile p ++ rest ∧ (∀ c ∈ cs.takeWhile p, p c = true) ∧ Stops p rest := by
  refine ⟨cs.dropWhile p, List.takeWhile_append_dropWhile.symm, ?_, ?_⟩
  · exact fun c hc => List.mem_takeWhile_imp hc
  · intro c hc
    rw [← List.find?_not_eq_head?_dropWhile] at hc
    simpa using List.find?_some hc

theorem Stops.of_append {p : Char → Bool} {rest later : List Char} (h : Stops p (rest ++ later)) :
    Stops p rest := by
  cases rest with
  | nil => simp [Stops]
  | cons c rest => exact h

theorem Stops.append {p : Char → Bool} {rest later : List Char} (h : Stops p rest)
    (hlater : Stops p later) : Stops p (rest ++ later) := by
  cases rest with
  | nil => exact hlater
  | cons c rest => exact h

theorem byteLength_cons_append (c : Char) (cs later : List Char) :
    byteLength (c :: (cs ++ later)) = byteLength (c :: cs) + byteLength later := by
  rw [← List.cons_append, byteLength_append]

end Text

open Text

/-! ## Pieces -/

def NoFraction (rest : List Char) : Prop :=
  ∀ d later, rest = '.' :: d :: later → isDigit d = false

/-- `c :: more` is the first piece of a text that goes on with `rest`. -/
inductive Piece : Char → List Char → List Char → Option (TokenKind × List Char) → Prop
  | word {c : Char} {more rest : List Char} : isLetter c = true →
    (∀ d ∈ more, isWordChar d = true) → Stops isWordChar rest →
    Piece c more rest (some (wordKind (c :: more), c :: more))
  | whole {c : Char} {more rest : List Char} : isDigit c = true → (∀ d ∈ more, isDigit d = true) →
    Stops isDigit rest → NoFraction rest → Piece c more rest (some (.number, c :: more))
  | fraction {c : Char} {whole digits rest : List Char} : isDigit c = true →
    (∀ d ∈ whole, isDigit d = true) → digits ≠ [] → (∀ d ∈ digits, isDigit d = true) →
    Stops isDigit rest →
    Piece c (whole ++ '.' :: digits) rest (some (.number, c :: (whole ++ '.' :: digits)))
  | spaces {c : Char} {more rest : List Char} : isSpace c = true → (∀ d ∈ more, isSpace d = true) →
    Stops isSpace rest → Piece c more rest none
  | atom {c : Char} {more rest : List Char} : isLetter c = true →
    (∀ d ∈ more, isWordChar d = true) → Stops isWordChar rest →
    Piece '@' (c :: more) rest (some (.atom, c :: more))
  | literal {body rest : List Char} : literalBody? (body ++ ['"']) = some body →
    Piece '"' (body ++ ['"']) rest (some (.string, Literal.decode body))
  | comment {more rest : List Char} : (∀ d ∈ more, d ≠ '\n') → (∀ d ∈ rest.head?, d = '\n') →
    Piece '/' ('/' :: more) rest none
  | mark {c : Char} {rest : List Char} {kind : TokenKind} : punctuation? c = some kind →
    Piece c [] rest (some (kind, [c]))

/-! ### Numerals -/

theorem numeralMore_whole {more rest : List Char} (hmore : ∀ d ∈ more, isDigit d = true)
    (hrest : Stops isDigit rest) (hfraction : NoFraction rest) :
    numeralMore (more ++ rest) = more := by
  unfold numeralMore
  rw [takeWhile_append_of_stops hmore hrest, dropWhile_append_of_stops hmore hrest]
  split
  · rename_i d later
    simp [hfraction d later rfl]
  · rfl

theorem numeralMore_fraction {whole digits rest : List Char}
    (hwhole : ∀ d ∈ whole, isDigit d = true) (hne : digits ≠ [])
    (hdigits : ∀ d ∈ digits, isDigit d = true) (hrest : Stops isDigit rest) :
    numeralMore (whole ++ '.' :: digits ++ rest) = whole ++ '.' :: digits := by
  obtain ⟨d, digits, rfl⟩ := List.exists_cons_of_ne_nil hne
  obtain ⟨hd, hdigits⟩ := List.forall_mem_cons.mp hdigits
  have hpoint : Stops isDigit ('.' :: (d :: digits ++ rest)) := by simp [Stops, isDigit]
  unfold numeralMore
  rw [List.append_assoc, List.cons_append, takeWhile_append_of_stops hwhole hpoint,
    dropWhile_append_of_stops hwhole hpoint]
  simp [hd, takeWhile_append_of_stops hdigits hrest]

/-- What belongs to a numeral is a whole number, or has a fraction too. -/
theorem numeralMore_cases (cs : List Char) : ∃ rest, cs = numeralMore cs ++ rest ∧
    Stops isDigit rest ∧ (((∀ d ∈ numeralMore cs, isDigit d = true) ∧ NoFraction rest) ∨
      ∃ whole digits, numeralMore cs = whole ++ '.' :: digits ∧ (∀ d ∈ whole, isDigit d = true) ∧
        digits ≠ [] ∧ ∀ d ∈ digits, isDigit d = true) := by
  obtain ⟨rest, hcs, hwhole, hrest⟩ := takeWhile_run isDigit cs
  have hdrop : cs.dropWhile isDigit = rest := by
    conv => lhs; rw [hcs]
    exact dropWhile_append_of_stops hwhole hrest
  by_cases hfraction : NoFraction rest
  · have hmore : numeralMore cs = cs.takeWhile isDigit := by
      conv => lhs; rw [hcs]
      exact numeralMore_whole hwhole hrest hfraction
    rw [hmore]
    exact ⟨rest, hcs, hrest, Or.inl ⟨hwhole, hfraction⟩⟩
  · simp only [NoFraction, not_forall, Bool.not_eq_false] at hfraction
    obtain ⟨d, later, rfl, hd⟩ := hfraction
    obtain ⟨rest', hlater, hdigits, hrest'⟩ := takeWhile_run isDigit later
    have hmore : numeralMore cs = cs.takeWhile isDigit ++ '.' :: d :: later.takeWhile isDigit := by
      unfold numeralMore
      rw [hdrop]
      simp [hd]
    rw [hmore]
    refine ⟨rest', ?_, hrest', Or.inr ⟨_, d :: later.takeWhile isDigit, rfl, hwhole, by simp, ?_⟩⟩
    · rw [List.append_assoc, List.cons_append, List.cons_append, ← hlater]
      exact hcs
    · exact List.forall_mem_cons.mpr ⟨hd, hdigits⟩

/-! ### Literals -/

theorem literalBody?_cons {c : Char} (hquote : c ≠ '"') (hescape : c ≠ '\\') (cs : List Char) :
    literalBody? (c :: cs) = (literalBody? cs).map (c :: ·) := by
  rw [literalBody?] <;> simp_all

/-- A literal is cut by its own characters and its closing quote, whatever follows. -/
theorem literalBody?_closed {cs body : List Char} (h : literalBody? cs = some body)
    (later : List Char) : literalBody? (body ++ '"' :: later) = some body := by
  fun_induction literalBody? cs generalizing body with
  | case1 => cases h
  | case2 =>
    cases h
    rfl
  | case3 => cases h
  | case4 => cases h
  | case5 c rest hc ih =>
    obtain ⟨body', hbody, rfl⟩ := Option.map_eq_some_iff.mp h
    simp [literalBody?, hc, ih hbody]
  | case6 c rest hquote hlast hescape ih =>
    obtain ⟨body', hbody, rfl⟩ := Option.map_eq_some_iff.mp h
    have hplain : c ≠ '\\' := by
      rintro rfl
      cases rest with
      | nil => exact hlast rfl rfl
      | cons d rest => exact hescape d rest rfl rfl
    rw [List.cons_append, literalBody?_cons hquote hplain, ih hbody]
    rfl

/-! ### Scanning cuts pieces -/

section
variable {c : Char} {cs more rest : List Char} {token? : Option (TokenKind × List Char)}

theorem lexeme?_piece (h : lexeme? c cs = some ⟨more, token?⟩) :
    ∃ rest, cs = more ++ rest ∧ Piece c more rest token? := by
  unfold lexeme? at h
  split at h
  case isTrue hletter =>
    cases h
    obtain ⟨rest, hcs, hmore, hrest⟩ := takeWhile_run isWordChar cs
    exact ⟨rest, hcs, .word hletter hmore hrest⟩
  split at h
  case isTrue hdigit =>
    cases h
    obtain ⟨rest, hcs, hrest, ⟨hmore, hfraction⟩ | ⟨whole, digits, heq, hwhole, hne, hdigits⟩⟩ :=
      numeralMore_cases cs
    · exact ⟨rest, hcs, .whole hdigit hmore hrest hfraction⟩
    · rw [heq] at hcs ⊢
      exact ⟨rest, hcs, .fraction hdigit hwhole hne hdigits hrest⟩
  split at h
  case isTrue hspace =>
    cases h
    obtain ⟨rest, hcs, hmore, hrest⟩ := takeWhile_run isSpace cs
    exact ⟨rest, hcs, .spaces hspace hmore hrest⟩
  split at h
  case isTrue hat =>
    subst hat
    cases cs with
    | nil => cases h
    | cons d ds =>
      dsimp only at h
      split at h
      case isTrue hletter =>
        cases h
        obtain ⟨rest, hds, hmore, hrest⟩ := takeWhile_run isWordChar ds
        exact ⟨rest, congrArg (d :: ·) hds, .atom hletter hmore hrest⟩
      case isFalse => cases h
  split at h
  case isTrue hquote =>
    subst hquote
    obtain ⟨body, hbody, heq⟩ := Option.map_eq_some_iff.mp h
    cases heq
    obtain ⟨rest, hrest⟩ := literalBody?_isPrefix hbody
    exact ⟨rest, hrest.symm, .literal (literalBody?_closed hbody [])⟩
  split at h
  case isTrue hslash =>
    subst hslash
    split at h
    · rename_i ds
      cases h
      obtain ⟨rest, hds, hmore, hrest⟩ := takeWhile_run (fun d => decide (d ≠ '\n')) ds
      refine ⟨rest, congrArg ('/' :: ·) hds, .comment ?_ ?_⟩
      · simpa using hmore
      · simpa [Stops] using hrest
    · cases h
  · obtain ⟨kind, hkind, heq⟩ := Option.map_eq_some_iff.mp h
    cases heq
    exact ⟨cs, rfl, .mark hkind⟩

theorem lexeme?_of_punctuation {kind : TokenKind} (hc : punctuation? c = some kind)
    (cs : List Char) : lexeme? c cs = some ⟨[], some (kind, [c])⟩ := by
  unfold punctuation? at hc
  split at hc <;> cases hc <;> rfl

theorem Piece.lexeme? (h : Piece c more rest token?) :
    lexeme? c (more ++ rest) = some ⟨more, token?⟩ := by
  cases h with
  | word hletter hmore hrest =>
    simp [ShapeCheck.lexeme?, hletter, takeWhile_append_of_stops hmore hrest]
  | whole hdigit hmore hrest hfraction =>
    simp [ShapeCheck.lexeme?, isLetter_of_isDigit hdigit, hdigit,
      numeralMore_whole hmore hrest hfraction]
  | fraction hdigit hwhole hne hdigits hrest =>
    simp only [ShapeCheck.lexeme?, isLetter_of_isDigit hdigit, hdigit,
      numeralMore_fraction hwhole hne hdigits hrest]
    rfl
  | spaces hspace hmore hrest =>
    simp [ShapeCheck.lexeme?, isLetter_of_isSpace hspace, isDigit_of_isSpace hspace, hspace,
      takeWhile_append_of_stops hmore hrest]
  | @atom d more _ hletter hmore hrest =>
    show (if isLetter d = true then some (Lexeme.mk (d :: (more ++ rest).takeWhile isWordChar)
      (some (.atom, d :: (more ++ rest).takeWhile isWordChar))) else none) = _
    rw [if_pos hletter, takeWhile_append_of_stops hmore hrest]
  | @literal body _ hbody =>
    have hcut := literalBody?_closed hbody rest
    show (literalBody? (body ++ ['"'] ++ rest)).map _ = _
    rw [List.append_assoc, List.singleton_append, hcut]
    rfl
  | @comment text _ htext hrest =>
    show some (Lexeme.mk (('/' :: (text ++ rest)).takeWhile fun d => decide (d ≠ '\n')) none) = _
    have hclass : ∀ d ∈ '/' :: text, decide (d ≠ '\n') = true := by simpa using htext
    have hstops : Stops (fun d => decide (d ≠ '\n')) rest := by simpa [Stops] using hrest
    rw [← List.cons_append, takeWhile_append_of_stops hclass hstops]
  | mark hkind => exact lexeme?_of_punctuation hkind _

end

/-- The token of the piece `c :: more` at byte `offset`, if it has one. -/
def Lexeme.tokenAt (file : String) (offset : Nat) (c : Char) (l : Lexeme) : Option Token :=
  l.token?.map fun t => ⟨t.1, String.ofList t.2,
    .between offset (offset + byteLength (c :: l.more)) file⟩

theorem tokensAt_piece {c : Char} {more rest : List Char} {token? : Option (TokenKind × List Char)}
    (h : Piece c more rest token?) (file : String) (offset : Nat) :
    tokensAt file offset (c :: (more ++ rest)) =
      (tokensAt file (offset + byteLength (c :: more)) rest).map
        ((Lexeme.tokenAt file offset c ⟨more, token?⟩).toList ++ ·) := by
  rw [tokensAt, h.lexeme?]
  simp only [List.drop_left]
  cases tokensAt file (offset + byteLength (c :: more)) rest with
  | error e => rfl
  | ok later => cases token? <;> rfl

/-! ### What may stand behind a piece -/

/-- A piece stays a piece when the text is cut off somewhere behind it. -/
theorem Piece.of_append {c : Char} {more rest later : List Char}
    {token? : Option (TokenKind × List Char)} (h : Piece c more (rest ++ later) token?) :
    Piece c more rest token? := by
  cases h with
  | word hletter hmore hrest => exact .word hletter hmore hrest.of_append
  | whole hdigit hmore hrest hfraction =>
    refine .whole hdigit hmore hrest.of_append fun d ds hds => ?_
    exact hfraction d (ds ++ later) (by simp [hds])
  | fraction hdigit hwhole hne hdigits hrest =>
    exact .fraction hdigit hwhole hne hdigits hrest.of_append
  | spaces hspace hmore hrest => exact .spaces hspace hmore hrest.of_append
  | atom hletter hmore hrest => exact .atom hletter hmore hrest.of_append
  | literal hbody => exact .literal hbody
  | comment hmore hrest =>
    refine .comment hmore fun d hd => hrest d ?_
    cases rest with
    | nil => cases hd
    | cons e rest => exact hd
  | mark hkind => exact .mark hkind

theorem NoFraction.newline {rest : List Char} (h : NoFraction rest) (later : List Char) :
    NoFraction (rest ++ '\n' :: later) := by
  intro d ds hds
  rcases rest with - | ⟨e, - | ⟨d', rest⟩⟩
  · simp at hds
  · cases hds
    rfl
  · cases hds
    exact h d rest rfl

theorem isSpace_of_punctuation {c : Char} {kind : TokenKind} (hc : punctuation? c = some kind) :
    isSpace c = false := by
  unfold punctuation? at hc
  split at hc <;> cases hc <;> rfl

theorem Piece.spaces_of_isSpace {c : Char} {more rest : List Char}
    {token? : Option (TokenKind × List Char)} (h : Piece c more rest token?)
    (hc : isSpace c = true) : token? = none ∧ ∀ d ∈ more, isSpace d = true := by
  cases h with
  | word hletter => simp [isSpace_of_isLetter hletter] at hc
  | whole hdigit => simp [isSpace_of_isDigit hdigit] at hc
  | fraction hdigit => simp [isSpace_of_isDigit hdigit] at hc
  | spaces _ hmore => exact ⟨rfl, hmore⟩
  | atom | literal | comment => cases hc
  | mark hkind => simp [isSpace_of_punctuation hkind] at hc

/-- A new line ends every piece but white space. -/
theorem Piece.newline {c : Char} {more rest : List Char} {token? : Option (TokenKind × List Char)}
    (h : Piece c more rest token?) (hspace : isSpace c = false) (later : List Char) :
    Piece c more (rest ++ '\n' :: later) token? := by
  have hword : Stops isWordChar ('\n' :: later) := by simp [Stops, isWordChar, isLetter, isDigit]
  have hdigit : Stops isDigit ('\n' :: later) := by simp [Stops, isDigit]
  cases h with
  | word hletter hmore hrest => exact .word hletter hmore (hrest.append hword)
  | whole hc hmore hrest hfraction =>
    exact .whole hc hmore (hrest.append hdigit) (hfraction.newline later)
  | fraction hc hwhole hne hdigits hrest =>
    exact .fraction hc hwhole hne hdigits (hrest.append hdigit)
  | spaces hc => simp [hc] at hspace
  | atom hletter hmore hrest => exact .atom hletter hmore (hrest.append hword)
  | literal hbody => exact .literal hbody
  | comment hmore hrest =>
    refine .comment hmore fun d hd => ?_
    cases rest with
    | nil => simpa using hd.symm
    | cons e rest => exact hrest d hd
  | mark hkind => exact .mark hkind

end ShapeCheck
