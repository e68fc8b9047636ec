import Mathlib.Data.List.DropRight
import ShapeCheck.Proofs.Lexing
import ShapeCheck.Text.Lines

/-!
# The line of a byte

Looking for the line of a byte goes through the lines of a text from the first one on and counts
bytes and lines on the way. What it finds can be said of the text as a whole: the line is the stretch
around the byte from one newline to the next, and its number counts the newlines before the byte.
-/

namespace ShapeCheck.Text

/-! ## Lines -/

/-- `line` reaches from behind a newline up to and including the next one, or to the end. -/
structure IsLine (text before line after : List Char) : Prop where
  split : text = before ++ line ++ after
  nonempty : line ≠ []
  starts : ∀ c ∈ before.getLast?, c = '\n'
  inside : '\n' ∉ line.dropLast
  ends : after ≠ [] → line.getLast? = some '\n'

namespace IsLine

variable {text before line after : List Char} {c : Char}

theorem cons (h : IsLine text before line after) (hc : c = '\n' ∨ before ≠ []) :
    IsLine (c :: text) (c :: before) line after := by
  refine ⟨by simp [h.split], h.nonempty, ?_, h.inside, h.ends⟩
  cases before with
  | nil => simpa using hc
  | cons d before => simpa [List.getLast?_cons_cons] using h.starts

theorem extend (h : IsLine text [] line after) (hc : c ≠ '\n') :
    IsLine (c :: text) [] (c :: line) after := by
  obtain ⟨d, line, rfl⟩ := List.exists_cons_of_ne_nil h.nonempty
  refine ⟨by simp [h.split], by simp, by simp, ?_, ?_⟩
  · simpa [hc.symm] using h.inside
  · simpa [List.getLast?_cons_cons] using h.ends

theorem exists_body (h : IsLine text before line after) :
    ∃ body, '\n' ∉ body ∧ (line = body ++ ['\n'] ∨ line = body ∧ after = []) := by
  have hline := List.dropLast_concat_getLast h.nonempty
  by_cases hlast : line.getLast h.nonempty = '\n'
  · rw [hlast] at hline
    exact ⟨line.dropLast, h.inside, Or.inl hline.symm⟩
  · have hafter : after = [] := by
      have hends := h.ends
      simp only [List.getLast?_eq_some_getLast h.nonempty, Option.some.injEq, hlast] at hends
      simpa using hends
    have hmem : '\n' ∉ line := by
      rw [← hline]
      simp [h.inside, Ne.symm hlast]
    exact ⟨line, hmem, Or.inr ⟨rfl, hafter⟩⟩

theorem count_newline (h : IsLine text before line after) (hafter : after ≠ []) :
    line.count '\n' = 1 := by
  obtain ⟨body, hbody, rfl | ⟨-, hnil⟩⟩ := h.exists_body
  · simp [List.count_eq_zero_of_not_mem hbody]
  · exact absurd hnil hafter

end IsLine

/-! ## A text and the list of its lines -/

theorem flatten_lines (cs : List Char) : (lines cs).flatten = cs := by
  fun_induction lines cs <;> simp_all

theorem ne_nil_of_mem_lines {cs l : List Char} (h : l ∈ lines cs) : l ≠ [] := by
  fun_induction lines cs generalizing l <;> grind

theorem lines_ne_nil {cs : List Char} (h : cs ≠ []) : lines cs ≠ [] := by
  intro hnil
  have hflat := flatten_lines cs
  rw [hnil] at hflat
  exact h hflat.symm

theorem isLine_of_lines {cs l : List Char} {before after : List (List Char)}
    (h : lines cs = before ++ l :: after) : IsLine cs before.flatten l after.flatten := by
  fun_induction lines cs generalizing before l with
  | case1 => simp at h
  | case2 cs ih =>
    cases before with
    | nil =>
      obtain ⟨rfl, rfl⟩ := List.cons.inj h
      exact ⟨by simp [flatten_lines], by simp, by simp, by simp, by simp⟩
    | cons b before =>
      obtain ⟨rfl, hrest⟩ := List.cons.inj h
      exact (ih hrest).cons (Or.inl rfl)
  | case3 c cs hc hnil ih =>
    have hcs := flatten_lines cs
    rw [hnil] at hcs
    subst hcs
    obtain ⟨rfl, h⟩ | ⟨b, rfl, h⟩ := List.append_eq_cons_iff.mp h.symm
    · cases h
      exact ⟨by simp, by simp, by simp, by simp, by simp⟩
    · simp at h
  | case4 c cs hc m ms hlines ih =>
    cases before with
    | nil =>
      obtain ⟨rfl, rfl⟩ := List.cons.inj h
      exact (ih (show lines cs = [] ++ m :: ms from hlines)).extend hc
    | cons b before =>
      obtain ⟨rfl, rfl⟩ := List.cons.inj h
      have hm : m ∈ lines cs := by simp [hlines]
      have hsplit : lines cs = (m :: before) ++ l :: after := hlines
      exact (ih hsplit).cons (Or.inr (by simp [ne_nil_of_mem_lines hm]))

/-- Each line but the last one has its newline. -/
theorem count_newline_of_lines {cs l : List Char} {before after : List (List Char)}
    (h : lines cs = before ++ l :: after) : before.flatten.count '\n' = before.length := by
  have hone : ∀ m ∈ before, m.count '\n' = 1 := by
    intro m hm
    obtain ⟨earlier, later, rfl⟩ := List.append_of_mem hm
    have hl : l ∈ lines cs := by simp [h]
    have hsplit : lines cs = earlier ++ m :: (later ++ l :: after) := by simp [h]
    exact (isLine_of_lines hsplit).count_newline (by simp [ne_nil_of_mem_lines hl])
  clear h
  induction before with
  | nil => rfl
  | cons m before ih =>
    obtain ⟨hm, hbefore⟩ := List.forall_mem_cons.mp hone
    simp [hm, ih hbefore, Nat.add_comm]

/-- Behind a newline a new line starts. -/
theorem lines_append {before : List Char} (h : ∀ c ∈ before.getLast?, c = '\n')
    (rest : List Char) : lines (before ++ rest) = lines before ++ lines rest := by
  induction before with
  | nil => rfl
  | cons c before ih =>
    cases before with
    | nil =>
      have hc : c = '\n' := by simpa using h
      simp [lines, hc]
    | cons d before =>
      have hrest := ih (by simpa [List.getLast?_cons_cons] using h)
      obtain ⟨m, ms, hlines⟩ := List.exists_cons_of_ne_nil (lines_ne_nil (List.cons_ne_nil d before))
      rw [hlines] at hrest
      rw [List.cons_append, lines, hrest, lines, hlines]
      by_cases hc : c = '\n' <;> simp [hc]

theorem lines_of_newline_not_mem {body : List Char} (h : '\n' ∉ body) :
    lines (body ++ ['\n']) = [body ++ ['\n']] ∧ (body ≠ [] → lines body = [body]) := by
  induction body with
  | nil => simp [lines]
  | cons c body ih =>
    simp only [List.mem_cons, not_or] at h
    obtain ⟨hwith, hwithout⟩ := ih h.2
    constructor
    · simp [lines, hwith, Ne.symm h.1]
    · intro _
      cases body with
      | nil => simp [lines, Ne.symm h.1]
      | cons d body =>
        rw [lines, hwithout (by simp)]
        simp [Ne.symm h.1]

theorem lines_of_isLine {text before line after : List Char} (h : IsLine text before line after) :
    lines text = lines before ++ line :: lines after := by
  rw [h.split, List.append_assoc, lines_append h.starts]
  obtain ⟨body, hbody, rfl | ⟨rfl, rfl⟩⟩ := h.exists_body
  · rw [lines_append (by simp), (lines_of_newline_not_mem hbody).1]
    rfl
  · rw [List.append_nil, (lines_of_newline_not_mem hbody).2 h.nonempty]
    rfl

theorem IsLine.length_lines {text before line after : List Char}
    (h : IsLine text before line after) : (lines before).length = before.count '\n' := by
  have hcount := count_newline_of_lines (lines_of_isLine h)
  rw [flatten_lines] at hcount
  exact hcount.symm

/-! ## Finding a line -/

section
variable {position number offset : Nat} {last : LineAt} {l : List Char}
  {before after : List (List Char)}

theorem findLine_of_lt (h : offset < byteLength l) :
    findLine (byteLength before.flatten + offset) number last (before ++ l :: after) =
      ⟨number + before.length, l, offset⟩ := by
  induction before generalizing number last with
  | nil => simp [findLine, byteLength, h]
  | cons m before ih =>
    have hpast : ¬ byteLength (m :: before).flatten + offset < byteLength m := by simp; omega
    have hrest : byteLength (m :: before).flatten + offset - byteLength m =
        byteLength before.flatten + offset := by simp; omega
    rw [List.cons_append, findLine, if_neg hpast, hrest, ih]
    simp [Nat.add_comm, Nat.add_left_comm]

theorem findLine_past (h : byteLength (before ++ [l]).flatten ≤ position) :
    findLine position number last (before ++ [l]) =
      ⟨number + before.length, l, byteLength (chomp l)⟩ := by
  induction before generalizing position number last with
  | nil =>
    have hpast : ¬ position < byteLength l := by simpa using h
    simp [findLine, hpast]
  | cons m before ih =>
    simp only [List.cons_append, List.flatten_cons, byteLength_append] at h
    rw [List.cons_append, findLine, if_neg (by omega), ih (by omega)]
    simp [Nat.add_comm, Nat.add_left_comm]

end

theorem lineAt_of_isLine {content : String} {before line after : List Char} {offset : Nat}
    (h : IsLine content.toList before line after) (hoffset : offset < byteLength line) :
    lineAt content (byteLength before + offset) = ⟨1 + before.count '\n', line, offset⟩ := by
  have hfound : findLine (byteLength (lines before).flatten + offset) 1 ⟨1, [], 0⟩
      (lines before ++ line :: lines after) = ⟨1 + (lines before).length, line, offset⟩ :=
    findLine_of_lt hoffset
  rwa [flatten_lines, ← lines_of_isLine h, h.length_lines] at hfound

theorem exists_isLine {text : List Char} {position : Nat} (h : position < byteLength text) :
    ∃ before line after offset, IsLine text before line after ∧
      position = byteLength before + offset ∧ offset < byteLength line := by
  have hsplit : ∀ (ls : List (List Char)) (position : Nat), position < byteLength ls.flatten →
      ∃ before l after offset, ls = before ++ l :: after ∧
        position = byteLength before.flatten + offset ∧ offset < byteLength l := by
    intro ls
    induction ls with
    | nil => simp [byteLength]
    | cons m ls ih =>
      intro position h
      by_cases hm : position < byteLength m
      · exact ⟨[], m, ls, position, rfl, by simp [byteLength], hm⟩
      · simp only [List.flatten_cons, byteLength_append] at h
        obtain ⟨before, l, after, offset, rfl, hposition, hoffset⟩ :=
          ih (position - byteLength m) (by omega)
        exact ⟨m :: before, l, after, offset, rfl, by simp; omega, hoffset⟩
  rw [← flatten_lines text] at h
  obtain ⟨before, l, after, offset, hlines, hposition, hoffset⟩ := hsplit _ _ h
  exact ⟨_, l, _, offset, isLine_of_lines hlines, hposition, hoffset⟩

/-! ## Newlines as bytes -/

def newline : UInt8 := '\n'.toUInt8

def bytes (s : String) : List UInt8 :=
  s.toByteArray.data.toList

theorem bytes_eq (s : String) : bytes s = s.toList.flatMap String.utf8EncodeChar := by
  conv => lhs; rw [← String.ofList_toList (s := s)]
  simp [bytes, String.ofList, List.utf8Encode]

theorem le_of_mem_encode {c : Char} {b : UInt8} (hb : b ∈ String.utf8EncodeChar c)
    (hc : 128 ≤ c.val.toNat) : 128 ≤ b.toNat := by
  unfold String.utf8EncodeChar at hb
  simp only [show ¬ c.val.toNat ≤ 127 by omega, if_false] at hb
  split at hb
  · simp only [List.mem_cons, List.not_mem_nil, or_false] at hb
    rcases hb with rfl | rfl <;> simp only [UInt8.toNat_ofNat'] <;> omega
  · split at hb
    · simp only [List.mem_cons, List.not_mem_nil, or_false] at hb
      rcases hb with rfl | rfl | rfl <;> simp only [UInt8.toNat_ofNat'] <;> omega
    · simp only [List.mem_cons, List.not_mem_nil, or_false] at hb
      rcases hb with rfl | rfl | rfl | rfl <;> simp only [UInt8.toNat_ofNat'] <;> omega

/-- A newline is one byte, and that byte is no part of another character. -/
theorem count_newline_char (c : Char) :
    (String.utf8EncodeChar c).count newline = if c = '\n' then 1 else 0 := by
  by_cases hc : c = '\n'
  · subst hc
    decide
  · rw [if_neg hc, List.count_eq_zero]
    intro hmem
    by_cases hwide : 128 ≤ c.val.toNat
    · have hle := le_of_mem_encode hmem hwide
      exact absurd hle (by decide)
    · have hnarrow : c.val.toNat ≤ 127 := by omega
      simp only [String.utf8EncodeChar, hnarrow, if_true, List.mem_singleton] at hmem
      have hval : newline.toNat = c.val.toNat % 256 := by
        simpa using congrArg UInt8.toNat hmem
      have hnewline : newline.toNat = '\n'.val.toNat := rfl
      exact hc (Char.ext (UInt32.toNat_inj.mp (by omega)))

theorem length_encode (cs : List Char) :
    (cs.flatMap String.utf8EncodeChar).length = byteLength cs := by
  induction cs with
  | nil => rfl
  | cons c cs ih => simp [byteLength, ih]

theorem count_newline_encode (cs : List Char) :
    (cs.flatMap String.utf8EncodeChar).count newline = cs.count '\n' := by
  induction cs with
  | nil => rfl
  | cons c cs ih => by_cases hc : c = '\n' <;> simp [count_newline_char, ih, hc, Nat.add_comm]

theorem IsLine.count_newline_take {text before line after : List Char} {offset : Nat}
    (h : IsLine text before line after) (hoffset : offset < byteLength line) :
    ((text.flatMap String.utf8EncodeChar).take (byteLength before + offset)).count newline =
      before.count '\n' := by
  -- the newline of the line, if it has one, is its last byte and is not reached
  obtain ⟨body, rest, hbody, htext, hle⟩ : ∃ body rest, '\n' ∉ body ∧
      text = before ++ (body ++ rest) ∧ offset ≤ byteLength body := by
    obtain ⟨body, hbody, rfl | ⟨rfl, rfl⟩⟩ := h.exists_body
    · refine ⟨body, '\n' :: after, hbody, by simp [h.split], ?_⟩
      have hone : byteLength ['\n'] = 1 := rfl
      rw [byteLength_append] at hoffset
      omega
    · exact ⟨line, [], hbody, by simp [h.split], Nat.le_of_lt hoffset⟩
  have hnone : newline ∉ (body.flatMap String.utf8EncodeChar).take offset := by
    intro hmem
    have hcount := count_newline_encode body
    rw [List.count_eq_zero_of_not_mem hbody, List.count_eq_zero] at hcount
    exact hcount (List.mem_of_mem_take hmem)
  rw [htext, List.flatMap_append, List.flatMap_append, ← length_encode before,
    List.take_length_add_append, List.take_append_of_le_length (by rw [length_encode]; exact hle),
    List.count_append, count_newline_encode, List.count_eq_zero_of_not_mem hnone, Nat.add_zero]

/-! ## The line at a position -/

structure LineAt.HoldsByte (content : String) (position : Nat) (line : LineAt)
    (before after : List Char) : Prop where
  isLine : IsLine content.toList before line.text after
  number_eq : line.number = 1 + ((bytes content).take position).count newline
  offset_eq : byteLength before + line.offset = position
  offset_lt : line.offset < byteLength line.text

structure LineAt.EndsText (content : String) (line : LineAt) (before body : List Char) : Prop where
  isLine : IsLine content.toList before line.text []
  number_eq : line.number = 1 + before.count '\n'
  text_eq : line.text = body ∨ line.text = body ++ ['\n']
  body_newline : '\n' ∉ body
  offset_eq : line.offset = byteLength body

theorem byteLength_toList (s : String) : byteLength s.toList = s.utf8ByteSize := by
  rw [byteLength_eq, String.ofList_toList]

theorem lineAt_holdsByte {content : String} {position : Nat} (h : position < content.utf8ByteSize) :
    ∃ before after, (lineAt content position).HoldsByte content position before after := by
  rw [← byteLength_toList] at h
  obtain ⟨before, line, after, offset, hline, rfl, hoffset⟩ := exists_isLine h
  have hfound := lineAt_of_isLine hline hoffset
  refine ⟨before, after, ?_, ?_, ?_, ?_⟩
  · rwa [hfound]
  · rw [hfound, bytes_eq, hline.count_newline_take hoffset]
  · rw [hfound]
  · rwa [hfound]

theorem chomp_of_newline_not_mem {body : List Char} (h : '\n' ∉ body) : chomp body = body := by
  have hlast : ∀ hbody : body ≠ [], ¬ decide (body.getLast hbody = '\n') = true := by
    intro hbody heq
    have hmem := List.getLast_mem hbody
    rw [of_decide_eq_true heq] at hmem
    exact h hmem
  exact List.rdropWhile_eq_self_iff.mpr hlast

theorem IsLine.chomp_eq {text before line after : List Char} (h : IsLine text before line after) :
    '\n' ∉ chomp line ∧ (line = chomp line ∨ line = chomp line ++ ['\n']) := by
  obtain ⟨body, hbody, rfl | ⟨rfl, -⟩⟩ := h.exists_body
  · have hchomp : chomp (body ++ ['\n']) = body :=
      (List.rdropWhile_concat_pos _ _ _ (by simp)).trans (chomp_of_newline_not_mem hbody)
    rw [hchomp]
    exact ⟨hbody, Or.inr rfl⟩
  · rw [chomp_of_newline_not_mem hbody]
    exact ⟨hbody, Or.inl rfl⟩

theorem lineAt_endsText {content : String} {position : Nat} (hne : content ≠ "")
    (h : content.utf8ByteSize ≤ position) :
    ∃ before body, (lineAt content position).EndsText content before body := by
  have hlines : lines content.toList ≠ [] :=
    lines_ne_nil fun hnil => hne (String.toList_eq_nil_iff.mp hnil)
  obtain ⟨before, l, hlast⟩ : ∃ before l, lines content.toList = before ++ [l] :=
    ⟨_, _, (List.dropLast_concat_getLast hlines).symm⟩
  have hline := isLine_of_lines hlast
  rw [← byteLength_toList, ← flatten_lines content.toList, hlast] at h
  have hfound : lineAt content position = ⟨1 + before.length, l, byteLength (chomp l)⟩ := by
    rw [lineAt, hlast, findLine_past h]
  obtain ⟨hbody, htext⟩ := hline.chomp_eq
  refine ⟨before.flatten, chomp l, ?_, ?_, ?_, hbody, ?_⟩
  · rwa [hfound]
  · rw [hfound, count_newline_of_lines hlast]
  · rwa [hfound]
  · rw [hfound]

/-- **The line at a position.** A position in the text is that of a byte of the line found for it,
and one behind the text stands for the end of the last line. -/
theorem lineAt_spec (content : String) (position : Nat) :
    (position < content.utf8ByteSize →
      ∃ before after, (lineAt content position).HoldsByte content position before after) ∧
    (content ≠ "" → content.utf8ByteSize ≤ position →
      ∃ before body, (lineAt content position).EndsText content before body) ∧
    (content = "" → lineAt content position = ⟨1, [], 0⟩) := by
  refine ⟨lineAt_holdsByte, lineAt_endsText, ?_⟩
  rintro rfl
  rfl

/-- In the middle of a wide character, and behind the newline that ends the text. -/
theorem lineAt_wide_character :
    let content := "x\n\nü = 1\n"
    (lineAt content 4 = ⟨3, "ü = 1\n".toList, 1⟩ ∧
      ∃ before after, (lineAt content 4).HoldsByte content 4 before after) ∧
    lineAt content 40 = ⟨3, "ü = 1\n".toList, 6⟩ ∧
      ∃ before body, (lineAt content 40).EndsText content before body := by
  intro content
  refine ⟨⟨by decide +kernel, ?_⟩, by decide +kernel, ?_⟩
  · exact (lineAt_spec content 4).1 (by decide +kernel)
  · exact (lineAt_spec content 40).2.1 (by decide +kernel) (by decide +kernel)

end ShapeCheck.Text
