import ShapeCheck.Proofs.Pieces

/-!
# Tokens tile the text

The tokens of a text and what lies between them are the whole text, in its order. Between tokens
there is nothing but white space and comments, and a token's span is exactly its text. Where a text
cannot be cut to its end, everything before the character at fault can.
-/

namespace ShapeCheck

open Text

/-- White space and comments, before `rest`. A comment runs to the end of its line. -/
inductive Blank : List Char → List Char → Prop
  | nil {rest : List Char} : Blank [] rest
  | spaces {spaces gap rest : List Char} : spaces ≠ [] → (∀ c ∈ spaces, isSpace c = true) →
    Blank gap rest → Blank (spaces ++ gap) rest
  | comment {text gap rest : List Char} : (∀ c ∈ text, c ≠ '\n') →
    (∀ c ∈ (gap ++ rest).head?, c = '\n') → Blank gap rest →
    Blank ('/' :: '/' :: text ++ gap) rest

def Token.Spells (t : Token) (text : List Char) : Prop :=
  match t.kind with
  | .string => ∃ body, text = '"' :: body ++ ['"'] ∧ t.value.toList = Literal.decode body
  | .atom => text = '@' :: t.value.toList
  | _ => text = t.value.toList

structure Token.Spans (t : Token) (file : String) (start stop : Nat) : Prop where
  start_eq : t.span.start.offset.toNat = start
  stop_eq : t.span.stop.offset.toNat = stop
  start_file : t.span.start.file = file
  stop_file : t.span.stop.file = file

/-- The text, which starts at byte `offset` of `file`, is what the tokens are written as, with
blanks before, between and after them. -/
inductive Tiles (file : String) : Nat → List Char → List Token → Prop
  | blank {offset : Nat} {gap : List Char} : Blank gap [] → Tiles file offset gap []
  | token {offset : Nat} {gap text rest : List Char} {t : Token} {ts : List Token} :
    Blank gap (text ++ rest) → text ≠ [] → t.Spells text →
    t.Spans file (offset + byteLength gap) (offset + byteLength gap + byteLength text) →
    Tiles file (offset + byteLength gap + byteLength text) rest ts →
    Tiles file offset (gap ++ (text ++ rest)) (t :: ts)

/-! ## Pieces as tiles -/

section
variable {c : Char} {more rest : List Char}

theorem Piece.blank (h : Piece c more rest none) {gap later : List Char}
    (hrest : rest = gap ++ later) (hgap : Blank gap later) : Blank (c :: more ++ gap) later := by
  subst hrest
  cases h with
  | spaces hc hmore => exact .spaces (by simp) (List.forall_mem_cons.mpr ⟨hc, hmore⟩) hgap
  | comment htext hend => exact .comment htext hend hgap

theorem Piece.spells {kind : TokenKind} {value : List Char}
    (h : Piece c more rest (some (kind, value))) (span : Span) :
    Token.Spells ⟨kind, String.ofList value, span⟩ (c :: more) := by
  cases h with
  | word =>
    unfold wordKind
    split
    · simp [Token.Spells]
    · split <;> simp [Token.Spells]
  | whole | fraction | atom => simp [Token.Spells]
  | literal => exact ⟨_, rfl, by simp⟩
  | mark hkind =>
    unfold punctuation? at hkind
    split at hkind <;> cases hkind <;> simp [Token.Spells]

theorem Tiles.skip {file : String} {offset : Nat} {ts : List Token}
    (hpiece : Piece c more rest none)
    (h : Tiles file (offset + byteLength (c :: more)) rest ts) :
    Tiles file offset (c :: (more ++ rest)) ts := by
  cases h with
  | blank hgap =>
    exact .blank (hpiece.blank (List.append_nil rest).symm hgap)
  | @token _ gap text later t ts hgap hne hspells hspans hlater =>
    have hoffset : offset + byteLength (c :: more) + byteLength gap =
        offset + byteLength (c :: more ++ gap) := by
      rw [byteLength_append, Nat.add_assoc]
    rw [hoffset] at hspans hlater
    have htile := Tiles.token (hpiece.blank rfl hgap) hne hspells hspans hlater
    rwa [List.append_assoc, List.cons_append] at htile

end

theorem Tiles.piece {file : String} {offset : Nat} {c : Char} {more rest value : List Char}
    {kind : TokenKind} {ts : List Token} (hpiece : Piece c more rest (some (kind, value)))
    (hsize : offset + byteLength (c :: more) < UInt32.size)
    (h : Tiles file (offset + byteLength (c :: more)) rest ts) :
    Tiles file offset (c :: (more ++ rest)) (⟨kind, String.ofList value,
      .between offset (offset + byteLength (c :: more)) file⟩ :: ts) := by
  have hstart : offset < UInt32.size := Nat.lt_of_le_of_lt (Nat.le_add_right _ _) hsize
  have hspans : Token.Spans ⟨kind, String.ofList value,
      .between offset (offset + byteLength (c :: more)) file⟩ file offset
        (offset + byteLength (c :: more)) :=
    ⟨Position.toNat_at hstart, Position.toNat_at hsize, rfl, rfl⟩
  exact @Tiles.token file offset [] (c :: more) rest _ ts .nil (by simp) (hpiece.spells _) hspans h

theorem Lexes.tiles {file : String} {offset : Nat} {cs : List Char} {r : Except Error (List Token)}
    (h : Lexes file offset cs r) : ∀ {ts : List Token}, r = .ok ts →
      offset + byteLength cs < UInt32.size →
        ∃ body, ts = body ++ [.eof (.at (offset + byteLength cs) file)] ∧
          Tiles file offset cs body := by
  induction h with
  | eof =>
    rintro _ ⟨⟩ -
    exact ⟨[], rfl, .blank .nil⟩
  | unrecognised => rintro _ ⟨⟩
  | failing => rintro _ ⟨⟩
  | blank hl _ ih =>
    rintro _ ⟨⟩ hsize
    rw [← byteLength_rest hl] at hsize ⊢
    obtain ⟨body, rfl, htiles⟩ := ih rfl hsize
    obtain ⟨rest, rfl, hpiece⟩ := lexeme?_piece hl
    rw [List.drop_left] at htiles
    exact ⟨body, rfl, .skip hpiece htiles⟩
  | token hl _ ih =>
    rintro _ ⟨⟩ hsize
    rw [← byteLength_rest hl] at hsize ⊢
    obtain ⟨body, rfl, htiles⟩ := ih rfl hsize
    obtain ⟨rest, rfl, hpiece⟩ := lexeme?_piece hl
    rw [List.drop_left] at htiles
    refine ⟨_ :: body, rfl, .piece hpiece ?_ htiles⟩
    exact Nat.lt_of_le_of_lt (Nat.le_add_right _ _) hsize

/-- What stands before the character at fault can be cut by itself: each of its pieces ends before
that character, and so does not depend on it. -/
theorem Lexes.before_error {file : String} {offset : Nat} {cs : List Char}
    {r : Except Error (List Token)} (h : Lexes file offset cs r) : ∀ {e : Error}, r = .error e →
      ∃ before c after, cs = before ++ c :: after ∧
        e = ⟨.unrecognisedToken (String.singleton c), .at (offset + byteLength before) file⟩ ∧
        ∃ ts, tokensAt file offset before = .ok ts := by
  induction h with
  | eof => rintro _ ⟨⟩
  | @unrecognised offset c cs hl =>
    rintro _ ⟨⟩
    exact ⟨[], c, cs, rfl, rfl, _, by rw [tokensAt]⟩
  | failing hl _ ih =>
    rintro _ ⟨⟩
    obtain ⟨before, d, after, hrest, he, ts, hts⟩ := ih rfl
    obtain ⟨htext, hoffset⟩ := shift hl hrest
    obtain ⟨rest, rfl, hpiece⟩ := lexeme?_piece hl
    rw [List.drop_left] at hrest
    subst hrest
    refine ⟨_, d, after, htext, by rw [he, hoffset], ?_⟩
    rw [List.cons_append, tokensAt_piece hpiece.of_append, hts]
    exact ⟨_, rfl⟩
  | blank => rintro _ ⟨⟩
  | token => rintro _ ⟨⟩

/-! ## Sources -/

/-- **Tokens tile the source.** A source short enough for offsets that can be cut is cut into tokens
that tile it, in order and without overlap, and one more at its end, which stands for no text. If it
cannot be cut, the error names the character that stands there, and what comes before it can. -/
theorem tokens_tile {source : String} (hsize : source.utf8ByteSize < UInt32.size)
    (file : Option String) :
    (∀ tokens, tokenize source file = .ok tokens →
      ∃ body final, tokens = body ++ [final] ∧ final.kind = .eof ∧
        final.Spans (file.getD Scanner.unnamed) source.utf8ByteSize source.utf8ByteSize ∧
        (∀ t ∈ body, t.kind ≠ .eof) ∧ Token.InOrder body ∧
        Tiles (file.getD Scanner.unnamed) 0 source.toList body) ∧
    ∀ e, tokenize source file = .error e →
      ∃ before c after, source.toList = before ++ c :: after ∧
        e.cause = .unrecognisedToken (String.singleton c) ∧
        e.position.offset.toNat = byteLength before ∧
        e.position.file = file.getD Scanner.unnamed ∧
        ∃ tokens, tokenize (String.ofList before) file = .ok tokens := by
  have hlength : byteLength source.toList = source.utf8ByteSize := by
    rw [byteLength_eq, String.ofList_toList]
  have hlexes := tokensAt_lexes (file.getD Scanner.unnamed) 0 source.toList
  constructor
  · intro tokens htokens
    obtain ⟨body, hbody, htiles⟩ := hlexes.tiles htokens (by omega)
    obtain ⟨before, hbefore, hfill⟩ := hlexes.fill htokens (by omega)
    obtain rfl : before = body := List.append_cancel_right (hbefore.symm.trans hbody)
    rw [Nat.zero_add, hlength] at hbody
    have hend : (Position.at source.utf8ByteSize (file.getD Scanner.unnamed)).offset.toNat =
        source.utf8ByteSize := Position.toNat_at hsize
    exact ⟨before, _, hbody, rfl, ⟨hend, hend, rfl, rfl⟩, hfill.kind, hfill.inOrder, htiles⟩
  · intro e he
    obtain ⟨before, c, after, hsource, heq, tokens, htokens⟩ := hlexes.before_error he
    rw [Nat.zero_add] at heq
    have hbound : byteLength before < UInt32.size := by
      rw [hsource, byteLength_append] at hlength
      omega
    refine ⟨before, c, after, hsource, by rw [heq], ?_, by rw [heq]; rfl, tokens, ?_⟩
    · rw [heq]
      exact Position.toNat_at hbound
    · unfold tokenize Scanner.start Scanner.tokens
      rwa [String.toList_ofList]

def mixedSource : String :=
  "// ü\nx = \"ß\\n\"\t@some // end"

def straySource : String :=
  "y = 1.2 // ü\n\t§ 3"

theorem mixedSource_tiled :
    (∃ body final, tokenize mixedSource none = .ok (body ++ [final]) ∧ body.length = 4 ∧
      Token.InOrder body ∧ Tiles "shell" 0 mixedSource.toList body) ∧
    ∃ before c after tokens, straySource.toList = before ++ c :: after ∧ byteLength before = 15 ∧
      tokenize (String.ofList before) none = .ok tokens := by
  have hmixed : mixedSource.utf8ByteSize < UInt32.size := by decide +kernel
  have hstray : straySource.utf8ByteSize < UInt32.size := by decide +kernel
  have hfive : (tokenize mixedSource none).toOption.map List.length = some 5 := by decide +kernel
  have hfault : (tokenize straySource none).isOk = false := by decide +kernel
  have hplace : ((tokenize straySource none).tryCatch fun e => .ok [.eof e.position]).toOption.map
      (·.map (·.span.start.offset)) = some [15] := by decide +kernel
  constructor
  · cases htokens : tokenize mixedSource none with
    | error e => simp [htokens, Except.toOption] at hfive
    | ok tokens =>
      obtain ⟨body, final, rfl, -, -, -, hinOrder, htiles⟩ :=
        (tokens_tile hmixed none).1 tokens htokens
      refine ⟨body, final, rfl, ?_, hinOrder, htiles⟩
      simpa [htokens, Except.toOption] using hfive
  · cases herror : tokenize straySource none with
    | ok tokens => simp [herror, Except.isOk, Except.toBool] at hfault
    | error e =>
      obtain ⟨before, c, after, hsource, -, hoffset, -, tokens, htokens⟩ :=
        (tokens_tile hstray none).2 e herror
      have hfifteen : e.position.offset = 15 := by
        simpa [herror, Except.tryCatch, Except.toOption, Token.eof] using hplace
      rw [hfifteen] at hoffset
      exact ⟨before, c, after, tokens, hsource, hoffset.symm, htokens⟩

end ShapeCheck
