import ShapeCheck.Error.Excerpt
import ShapeCheck.Proofs.Lines

/-!
# Where the caret stands

An error is shown with a caret below its line. The place of the caret is counted in bytes, while the
line above it is made of characters, so the caret stands below the character that the error points
at just when each character shown before it is a single byte.
-/

namespace ShapeCheck

open Text (lineAt byteLength isSpace trimEnd IsLine)

/-! ## What is cut off a line -/

namespace Text

section
variable {p : Char → Bool} {xs ys : List Char} {c : Char}

theorem dropWhile_append_cons (h : ∃ d ∈ xs ++ [c], p d = false) :
    (xs ++ c :: ys).dropWhile p = xs.dropWhile p ++ c :: ys := by
  induction xs with
  | nil =>
    have hc : p c = false := by simpa using h
    simp [hc]
  | cons x xs ih =>
    by_cases hx : p x = true
    · simp only [List.cons_append, List.dropWhile_cons, hx, if_true]
      exact ih (by simpa [hx] using h)
    · simp [hx]

theorem takeWhile_append_cons (h : ∃ d ∈ xs ++ [c], p d = false) :
    (xs ++ c :: ys).takeWhile p = xs.takeWhile p := by
  have hwhole := List.takeWhile_append_dropWhile (p := p) (l := xs ++ c :: ys)
  have hpart := List.takeWhile_append_dropWhile (p := p) (l := xs)
  rw [dropWhile_append_cons h, ← List.append_assoc] at hwhole
  have hcut := List.append_cancel_right hwhole
  conv at hcut => rhs; rw [← hpart]
  exact List.append_cancel_right hcut

end

theorem trimEnd_append_cons {xs ys : List Char} {c : Char} (h : ∃ d ∈ c :: ys, isSpace d = false) :
    trimEnd (xs ++ c :: ys) = xs ++ c :: trimEnd ys := by
  have hreverse : ∃ d ∈ ys.reverse ++ [c], isSpace d = false := by simpa [or_comm] using h
  have hcut : (ys.reverse ++ c :: xs.reverse).dropWhile isSpace =
      ys.reverse.dropWhile isSpace ++ c :: xs.reverse := dropWhile_append_cons hreverse
  simp only [trimEnd, List.reverse_append, List.reverse_cons, List.append_assoc,
    List.singleton_append, hcut]
  simp

theorem length_le_byteLength (cs : List Char) : cs.length ≤ byteLength cs := by
  induction cs with
  | nil => simp
  | cons c cs ih =>
    have hpos := c.utf8Size_pos
    simp only [List.length_cons, byteLength]
    omega

theorem byteLength_eq_length_iff {cs : List Char} :
    byteLength cs = cs.length ↔ ∀ c ∈ cs, c.utf8Size = 1 := by
  induction cs with
  | nil => simp [byteLength]
  | cons c cs ih =>
    have hpos := c.utf8Size_pos
    have hle := length_le_byteLength cs
    rw [List.forall_mem_cons, ← ih, byteLength, List.length_cons]
    omega

end Text

/-! ## The caret -/

theorem byteLength_takeWhile_isIndent (cs : List Char) :
    byteLength (cs.takeWhile isIndent) = (cs.takeWhile isIndent).length := by
  rw [Text.byteLength_eq_length_iff]
  intro c hc
  have hindent : isIndent c = true := List.mem_takeWhile_imp hc
  simp only [isIndent, Bool.or_eq_true, decide_eq_true_eq] at hindent
  rcases hindent with rfl | rfl <;> rfl

/-- The error points at the character `c` of its line, with `part` before it and `rest` behind it.
The character is not among the blanks that the line starts with, nor in the white space at its end. -/
structure Error.PointsAt (e : Error) (content : String) (part : List Char) (c : Char)
    (rest : List Char) : Prop where
  place : ∃ before after, IsLine content.toList before (part ++ c :: rest) after ∧
    e.position.offset.toNat = byteLength before + byteLength part
  not_indent : ∃ d ∈ part ++ [c], isIndent d = false
  not_trailing : ∃ d ∈ c :: rest, isSpace d = false

/-- The last two lines show `shown` before the character `c`, and so many dashes before the caret. -/
def Error.Draws (e : Error) (file content : String) (shown : List Char) (c : Char) (dashes : Nat) :
    Prop :=
  let number := Nat.repr (lineAt content e.position.offset.toNat).number
  ∃ later, (e.render file content).drop 3 =
    [number ++ " | " ++ String.ofList (shown ++ c :: later),
      margin number.length ++ " " ++ String.ofList (List.replicate dashes '-' ++ ['^'])]

section
variable {e : Error} {content : String} {part rest : List Char} {c : Char}

theorem Error.PointsAt.draws (h : e.PointsAt content part c rest) (file : String) :
    let shown := part.dropWhile isIndent
    e.Draws file content shown c (byteLength shown) := by
  intro shown
  obtain ⟨before, after, hline, hoffset⟩ := h.place
  have hinside : byteLength part < byteLength (part ++ c :: rest) := by
    have hpos := c.utf8Size_pos
    simp only [Text.byteLength_append, byteLength]
    omega
  have hat := Text.lineAt_of_isLine hline hinside
  rw [← hoffset] at hat
  have hexcerpt : (lineAt content e.position.offset.toNat).excerpt = shown ++ c :: trimEnd rest := by
    rw [hat]
    simp only [Text.LineAt.excerpt, Text.dropWhile_append_cons h.not_indent,
      Text.trimEnd_append_cons h.not_trailing, shown]
  have hcaret : (lineAt content e.position.offset.toNat).caret =
      List.replicate (byteLength shown) '-' ++ ['^'] := by
    have hpart : byteLength part = byteLength (part.takeWhile isIndent) + byteLength shown := by
      rw [← Text.byteLength_append, List.takeWhile_append_dropWhile]
    rw [hat]
    simp only [Text.LineAt.caret, Text.LineAt.indentation,
      Text.takeWhile_append_cons h.not_indent, hpart, byteLength_takeWhile_isIndent,
      Nat.add_sub_cancel_left]
  exact ⟨trimEnd rest, by simp only [Error.render, hexcerpt, hcaret]; rfl⟩

theorem Error.Draws.dashes_eq {file : String} {shown : List Char} {m n : Nat}
    (hm : e.Draws file content shown c m) (hn : e.Draws file content shown c n) : m = n := by
  obtain ⟨_, hm⟩ := hm
  obtain ⟨_, hn⟩ := hn
  rw [hm] at hn
  have hdashes := congrArg (fun lines => (lines.map String.length).getLast?) hn
  simpa using hdashes

/-- **The caret counts bytes.** There are as many dashes as bytes are shown before the character, so
the caret stands below the character just when each of these bytes is a character. -/
theorem caret_below_iff_narrow (h : e.PointsAt content part c rest) (file : String) :
    let shown := part.dropWhile isIndent
    e.Draws file content shown c (byteLength shown) ∧
      (e.Draws file content shown c shown.length ↔ ∀ d ∈ shown, d.utf8Size = 1) := by
  intro shown
  have hdraws := h.draws file
  refine ⟨hdraws, ?_⟩
  rw [← Text.byteLength_eq_length_iff]
  constructor
  · exact fun hlength => hdraws.dashes_eq hlength
  · intro hbytes
    rwa [← hbytes]

end

/-- The second line is indented, and has a blank at its end. -/
theorem indentedLine_caret_below :
    let e : Error := ⟨.unknownName "y", .at 11 "main.lang"⟩
    let content := "a = 1\n\tx = y \n"
    e.PointsAt content "\tx = ".toList 'y' " \n".toList ∧
      e.Draws "main.lang" content "x = ".toList 'y' 4 := by
  intro e content
  have hline : IsLine content.toList "a = 1\n".toList ("\tx = ".toList ++ 'y' :: " \n".toList) [] :=
    ⟨by decide +kernel, by decide +kernel, by simp, by decide +kernel, by simp⟩
  have hpoints : e.PointsAt content "\tx = ".toList 'y' " \n".toList :=
    ⟨⟨_, _, hline, by decide +kernel⟩, ⟨'x', by decide +kernel⟩, ⟨'y', by decide +kernel⟩⟩
  refine ⟨hpoints, ?_⟩
  have hbytes : byteLength "x = ".toList = 4 := by decide +kernel
  exact (caret_below_iff_narrow hpoints "main.lang").2.mpr
    (Text.byteLength_eq_length_iff.mp hbytes)

/-- A wide character is two bytes and takes up one place, so the caret stands one place too far to
the right. -/
theorem wideCharacter_caret_beside :
    ¬ ∀ (e : Error) (file content : String) (part : List Char) (c : Char) (rest : List Char),
      e.PointsAt content part c rest →
        e.Draws file content (part.dropWhile isIndent) c (part.dropWhile isIndent).length := by
  intro h
  let e : Error := ⟨.unknownName "y", .at 8 "main.lang"⟩
  have hline : IsLine "f(\"é\", y)".toList [] ("f(\"é\", ".toList ++ ['y', ')']) [] :=
    ⟨by decide +kernel, by decide +kernel, by simp, by decide +kernel, by simp⟩
  have hpoints : e.PointsAt "f(\"é\", y)" "f(\"é\", ".toList 'y' [')'] :=
    ⟨⟨_, _, hline, by decide +kernel⟩, ⟨'y', by decide +kernel⟩, ⟨'y', by decide +kernel⟩⟩
  have hdashes := (hpoints.draws "main.lang").dashes_eq (h _ _ _ _ _ _ hpoints)
  exact absurd hdashes (by decide +kernel)

end ShapeCheck
