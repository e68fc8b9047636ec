import Mathlib.Data.List.Forall2
import ShapeCheck.Proofs.Pieces

/-!
# Lines are cut one after the other

No piece goes on behind a new line, except that white space before it and after it becomes one
piece. So the tokens of a text that can be cut to its end stay the same when a new line and another
text follow, and then come the tokens of the other text, further on by as many bytes as stand before
it.
-/

namespace ShapeCheck

open Text

/-! ## White space -/

theorem tokensAt_run {run rest : List Char} (hrun : ∀ c ∈ run, isSpace c = true)
    (hrest : Stops isSpace rest) (file : String) (offset : Nat) :
    tokensAt file offset (run ++ rest) = tokensAt file (offset + byteLength run) rest := by
  cases run with
  | nil => rfl
  | cons c more =>
    obtain ⟨hc, hmore⟩ := List.forall_mem_cons.mp hrun
    rw [List.cons_append, tokensAt_piece (.spaces hc hmore hrest)]
    cases tokensAt file (offset + byteLength (c :: more)) rest <;> rfl

/-- White space makes no difference but in the offsets, also where more of it follows. -/
theorem tokensAt_spaces {spaces : List Char} (hspaces : ∀ c ∈ spaces, isSpace c = true)
    (file : String) (offset : Nat) (rest : List Char) :
    tokensAt file offset (spaces ++ rest) = tokensAt file (offset + byteLength spaces) rest := by
  obtain ⟨later, hrest, hrun, hlater⟩ := takeWhile_run isSpace rest
  have hall : ∀ c ∈ spaces ++ rest.takeWhile isSpace, isSpace c = true := by
    intro c hc
    rcases List.mem_append.mp hc with hc | hc
    · exact hspaces c hc
    · exact hrun c hc
  calc tokensAt file offset (spaces ++ rest)
      = tokensAt file offset (spaces ++ rest.takeWhile isSpace ++ later) := by
        rw [List.append_assoc, ← hrest]
    _ = tokensAt file (offset + byteLength spaces + byteLength (rest.takeWhile isSpace)) later := by
        rw [tokensAt_run hall hlater, byteLength_append, Nat.add_assoc]
    _ = tokensAt file (offset + byteLength spaces) (rest.takeWhile isSpace ++ later) :=
        (tokensAt_run hrun hlater file _).symm
    _ = tokensAt file (offset + byteLength spaces) rest := by rw [← hrest]

/-! ## A new line behind a text -/

theorem Lexes.newline {file : String} {offset : Nat} {cs : List Char}
    {r : Except Error (List Token)} (h : Lexes file offset cs r) (later : List Char) :
    ∀ {ts : List Token}, r = .ok ts → tokensAt file offset (cs ++ '\n' :: later) =
      (tokensAt file (offset + byteLength cs + 1) later).map (ts.dropLast ++ ·) := by
  induction h with
  | @eof offset =>
    rintro _ ⟨⟩
    have hnewline : ∀ c ∈ ['\n'], isSpace c = true := by simp [isSpace]
    calc tokensAt file offset ('\n' :: later)
        = tokensAt file (offset + 1) later := tokensAt_spaces hnewline file offset later
      _ = (tokensAt file (offset + 1) later).map ([] ++ ·) := by
          cases tokensAt file (offset + 1) later <;> rfl
  | unrecognised => rintro _ ⟨⟩
  | failing => rintro _ ⟨⟩
  | @blank offset c cs more ts hl _ ih =>
    rintro _ ⟨⟩
    obtain ⟨rest, rfl, hpiece⟩ := lexeme?_piece hl
    rw [List.drop_left] at ih
    rw [byteLength_cons_append, ← Nat.add_assoc, ← ih rfl]
    by_cases hc : isSpace c = true
    · -- this may be one piece with the new line and what follows
      have hspaces : ∀ d ∈ c :: more, isSpace d = true :=
        List.forall_mem_cons.mpr ⟨hc, (hpiece.spaces_of_isSpace hc).2⟩
      rw [← tokensAt_spaces hspaces, List.cons_append, List.append_assoc, List.cons_append]
    · have hmore := hpiece.newline (by simpa using hc) later
      rw [List.cons_append, List.append_assoc, tokensAt_piece hmore]
      cases tokensAt file (offset + byteLength (c :: more)) (rest ++ '\n' :: later) <;> rfl
  | @token offset c cs more value kind ts hl hlater ih =>
    rintro _ ⟨⟩
    obtain ⟨final, hfinal, -⟩ := hlater.ends rfl
    have hne : ts ≠ [] := by
      rintro rfl
      cases hfinal
    obtain ⟨rest, rfl, hpiece⟩ := lexeme?_piece hl
    rw [List.drop_left] at ih
    have hc : isSpace c = false := by
      by_cases hc : isSpace c = true
      · cases (hpiece.spaces_of_isSpace hc).1
      · simpa using hc
    rw [byteLength_cons_append, ← Nat.add_assoc, List.cons_append, List.append_assoc,
      tokensAt_piece (hpiece.newline hc later), ih rfl, List.dropLast_cons_of_ne_nil hne]
    cases tokensAt file (offset + byteLength (c :: more) + byteLength rest + 1) later <;> rfl

/-! ## Shifted texts -/

structure Position.ShiftedBy (n : Nat) (p q : Position) : Prop where
  offset_eq : q.offset.toNat = p.offset.toNat + n
  file_eq : q.file = p.file

structure Token.ShiftedBy (n : Nat) (t u : Token) : Prop where
  kind_eq : u.kind = t.kind
  value_eq : u.value = t.value
  start : t.span.start.ShiftedBy n u.span.start
  stop : t.span.stop.ShiftedBy n u.span.stop

structure Error.ShiftedBy (n : Nat) (e e' : Error) : Prop where
  cause_eq : e'.cause = e.cause
  position : e.position.ShiftedBy n e'.position

inductive CutsShifted (n : Nat) : Except Error (List Token) → Except Error (List Token) → Prop
  | ok {ts us : List Token} : List.Forall₂ (Token.ShiftedBy n) ts us →
    CutsShifted n (.ok ts) (.ok us)
  | error {e e' : Error} : e.ShiftedBy n e' → CutsShifted n (.error e) (.error e')

theorem Position.shiftedBy_at {offset n : Nat} {file : String} (h : offset + n < UInt32.size) :
    (Position.at offset file).ShiftedBy n (.at (offset + n) file) := by
  refine ⟨?_, rfl⟩
  rw [Position.toNat_at h, Position.toNat_at (Nat.lt_of_le_of_lt (Nat.le_add_right _ _) h)]

/-- Behind a piece that is further on, the rest is further on too. -/
theorem CutsShifted.lexeme {file : String} {offset n : Nat} {c : Char} {cs more : List Char}
    {token? : Option (TokenKind × List Char)} {r : Except Error (List Token)}
    (hl : lexeme? c cs = some ⟨more, token?⟩)
    (hsize : offset + byteLength (c :: cs) + n < UInt32.size)
    (h : offset + byteLength (c :: more) + byteLength (cs.drop more.length) + n < UInt32.size →
      CutsShifted n r (tokensAt file (offset + byteLength (c :: more) + n) (cs.drop more.length))) :
    CutsShifted n (r.map ((Lexeme.tokenAt file offset c ⟨more, token?⟩).toList ++ ·))
      (tokensAt file (offset + n) (c :: cs)) := by
  obtain ⟨rest, rfl, hpiece⟩ := lexeme?_piece hl
  rw [List.drop_left] at h
  rw [byteLength_cons_append, ← Nat.add_assoc] at hsize
  have h := h hsize
  rw [tokensAt_piece hpiece]
  unfold Lexeme.tokenAt
  rw [Nat.add_right_comm offset n]
  generalize tokensAt file (offset + byteLength (c :: more) + n) rest = r' at h ⊢
  cases h with
  | error he => exact .error he
  | ok hts =>
    cases token? with
    | none => exact .ok hts
    | some t =>
      have hstart : offset + n < UInt32.size := by omega
      have hstop : offset + byteLength (c :: more) + n < UInt32.size := by omega
      exact .ok (.cons ⟨rfl, rfl, Position.shiftedBy_at hstart, Position.shiftedBy_at hstop⟩ hts)

theorem Lexes.shifted {file : String} {offset n : Nat} {cs : List Char}
    {r : Except Error (List Token)} (h : Lexes file offset cs r) :
    offset + byteLength cs + n < UInt32.size → CutsShifted n r (tokensAt file (offset + n) cs) := by
  induction h with
  | @eof offset =>
    intro hsize
    have hplace : (Position.at offset file).ShiftedBy n (.at (offset + n) file) :=
      Position.shiftedBy_at hsize
    rw [tokensAt]
    exact .ok (.cons ⟨rfl, rfl, hplace, hplace⟩ .nil)
  | @unrecognised offset c cs hl =>
    intro hsize
    rw [tokensAt, hl]
    exact .error ⟨rfl, Position.shiftedBy_at (by omega)⟩
  | failing hl _ ih => exact fun hsize => .lexeme hl hsize ih
  | blank hl _ ih => exact fun hsize => .lexeme hl hsize ih
  | token hl _ ih => exact fun hsize => .lexeme hl hsize ih

/-- **Lines are cut one after the other.** If the first text can be cut, then the tokens of both
with a new line between them are those of the first, without the one at its end, and those of the
second behind them. If the second cannot be cut, its error is reported where it stands now. -/
theorem tokenize_newline {first second : String} {file : Option String} {tokens : List Token}
    (hsize : first.utf8ByteSize + second.utf8ByteSize < UInt32.size - 1)
    (hfirst : tokenize first file = .ok tokens) :
    (∀ later, tokenize second file = .ok later →
      ∃ shifted, tokenize (first ++ "\n" ++ second) file = .ok (tokens.dropLast ++ shifted) ∧
        List.Forall₂ (Token.ShiftedBy (first.utf8ByteSize + 1)) later shifted) ∧
    ∀ e, tokenize second file = .error e →
      ∃ e', tokenize (first ++ "\n" ++ second) file = .error e' ∧
        e.ShiftedBy (first.utf8ByteSize + 1) e' := by
  let name := file.getD Scanner.unnamed
  have hlength (s : String) : byteLength s.toList = s.utf8ByteSize := by
    rw [byteLength_eq, String.ofList_toList]
  have hjoined : tokenize (first ++ "\n" ++ second) file =
      (tokensAt name (0 + (first.utf8ByteSize + 1)) second.toList).map (tokens.dropLast ++ ·) := by
    have hrun := (tokensAt_lexes name 0 first.toList).newline second.toList hfirst
    rw [Nat.zero_add, hlength] at hrun
    rw [Nat.zero_add, ← hrun]
    unfold tokenize Scanner.start Scanner.tokens
    rw [String.toList_append, String.toList_append, List.append_assoc]
    rfl
  have hshifted : CutsShifted (first.utf8ByteSize + 1) (tokenize second file)
      (tokensAt name (0 + (first.utf8ByteSize + 1)) second.toList) :=
    (tokensAt_lexes name 0 second.toList).shifted (by rw [hlength]; omega)
  rw [hjoined]
  generalize tokensAt name (0 + (first.utf8ByteSize + 1)) second.toList = r at hshifted ⊢
  constructor
  · intro later hlater
    rw [hlater] at hshifted
    cases hshifted with
    | ok hts => exact ⟨_, rfl, hts⟩
  · intro e he
    rw [he] at hshifted
    cases hshifted with
    | error he' => exact ⟨_, rfl, he'⟩

/-- The point of `1.` does not become one with the digit in the next line, the white space does, and
the comment ends. -/
theorem brokenNumeral_newline :
    (∃ shifted, tokenize ("f(1.\t // ü" ++ "\n" ++ " 5)") none = .ok
        (((tokenize "f(1.\t // ü" none).toOption.getD []).dropLast ++ shifted) ∧
      List.Forall₂ (Token.ShiftedBy 12) ((tokenize " 5)" none).toOption.getD []) shifted) ∧
    ∃ e e', tokenize "2 §" none = .error e ∧
      tokenize ("f(1.\t // ü" ++ "\n" ++ "2 §") none = .error e' ∧ e.ShiftedBy 12 e' := by
  have hfirst : (tokenize "f(1.\t // ü" none).isOk := by decide +kernel
  have hsecond : (tokenize " 5)" none).isOk := by decide +kernel
  have hfault : (tokenize "2 §" none).isOk = false := by decide +kernel
  have htwelve : "f(1.\t // ü".utf8ByteSize + 1 = 12 := by decide +kernel
  have hsize : "f(1.\t // ü".utf8ByteSize + " 5)".utf8ByteSize < UInt32.size - 1 := by
    decide +kernel
  have hsize' : "f(1.\t // ü".utf8ByteSize + "2 §".utf8ByteSize < UInt32.size - 1 := by
    decide +kernel
  cases htokens : tokenize "f(1.\t // ü" none with
  | error e =>
    rw [htokens] at hfirst
    cases hfirst
  | ok tokens =>
    rw [← htwelve]
    constructor
    · cases hlater : tokenize " 5)" none with
      | error e =>
        rw [hlater] at hsecond
        cases hsecond
      | ok later => exact (tokenize_newline hsize htokens).1 later hlater
    · cases herror : tokenize "2 §" none with
      | ok later =>
        rw [herror] at hfault
        cases hfault
      | error e =>
        obtain ⟨e', he', hshifted⟩ := (tokenize_newline hsize' htokens).2 e herror
        exact ⟨e, e', rfl, he', hshifted⟩

end ShapeCheck
