import ShapeCheck.Token.Lexer

/-!
# Where tokens start

A text is cut piece by piece, and each piece is what stands at its front. So every token starts
behind as many bytes as the characters before it take, the last of them is the end of the text, and
what cannot be cut is reported at the character where no piece begins. As long as no offset wraps
around, the tokens before the last follow each other without overlap.
-/

namespace ShapeCheck

open Text (byteLength isSpace isLetter isDigit isWordChar)

theorem Text.byteLength_eq (cs : List Char) : byteLength cs = (String.ofList cs).utf8ByteSize := by
  induction cs with
  | nil => rfl
  | cons c cs ih =>
    rw [byteLength, ih, String.ofList_cons, String.utf8ByteSize_append,
      String.utf8ByteSize_singleton]

theorem Position.toNat_at {offset : Nat} {file : String} (h : offset < UInt32.size) :
    (Position.at offset file).offset.toNat = offset := by
  show offset.toUInt32.toNat = _
  rw [Nat.toUInt32_eq, UInt32.toNat_ofNat_of_lt' h]

/-! ## Pieces are prefixes -/

theorem numeralMore_isPrefix (cs : List Char) : numeralMore cs <+: cs := by
  have hwhole := List.takeWhile_prefix isDigit (l := cs)
  unfold numeralMore
  split
  · rename_i d rest hrest
    split
    · obtain ⟨later, hlater⟩ := List.takeWhile_prefix isDigit (l := rest)
      refine ⟨later, ?_⟩
      calc (cs.takeWhile isDigit ++ '.' :: d :: rest.takeWhile isDigit) ++ later
          = cs.takeWhile isDigit ++ '.' :: d :: (rest.takeWhile isDigit ++ later) := by simp
        _ = cs.takeWhile isDigit ++ cs.dropWhile isDigit := by rw [hlater, hrest]
        _ = cs := List.takeWhile_append_dropWhile
    · exact hwhole
  · exact hwhole

theorem literalBody?_isPrefix {cs body : List Char} (h : literalBody? cs = some body) :
    body ++ ['"'] <+: cs := by
  fun_induction literalBody? cs generalizing body with
  | case1 => cases h
  | case2 rest =>
    cases h
    exact ⟨rest, rfl⟩
  | case3 => cases h
  | case4 => cases h
  | case5 c rest _ ih =>
    obtain ⟨body', hbody, rfl⟩ := Option.map_eq_some_iff.mp h
    exact (List.prefix_cons_inj _).mpr ((List.prefix_cons_inj _).mpr (ih hbody))
  | case6 c rest _ _ _ ih =>
    obtain ⟨body', hbody, rfl⟩ := Option.map_eq_some_iff.mp h
    exact (List.prefix_cons_inj _).mpr (ih hbody)

theorem lexeme?_isPrefix {c : Char} {cs : List Char} {l : Lexeme} (h : lexeme? c cs = some l) :
    l.more <+: cs := by
  unfold lexeme? at h
  split at h
  · cases h
    exact List.takeWhile_prefix _
  split at h
  · cases h
    exact numeralMore_isPrefix cs
  split at h
  · cases h
    exact List.takeWhile_prefix _
  split at h
  · split at h
    · cases h
    · split at h
      · cases h
        exact (List.prefix_cons_inj _).mpr ( List.takeWhile_prefix _)
      · cases h
  split at h
  · obtain ⟨body, hbody, rfl⟩ := Option.map_eq_some_iff.mp h
    exact literalBody?_isPrefix hbody
  split at h
  · split at h
    · cases h
      exact List.takeWhile_prefix _
    · cases h
  · obtain ⟨kind, -, rfl⟩ := Option.map_eq_some_iff.mp h
    exact List.nil_prefix

/-! ## Cutting a text -/

/-- How the text `cs`, which starts at byte `offset` of `file`, is cut to its end or to the first
character that starts no piece. -/
inductive Lexes (file : String) : Nat → List Char → Except Error (List Token) → Prop
  | eof {offset : Nat} : Lexes file offset [] (.ok [.eof (.at offset file)])
  | unrecognised {offset : Nat} {c : Char} {cs : List Char} : lexeme? c cs = none →
    Lexes file offset (c :: cs) (.error ⟨.unrecognisedToken (String.singleton c), .at offset file⟩)
  | failing {offset : Nat} {c : Char} {cs more : List Char} {token? : Option (TokenKind × List Char)}
      {e : Error} : lexeme? c cs = some ⟨more, token?⟩ →
    Lexes file (offset + byteLength (c :: more)) (cs.drop more.length) (.error e) →
    Lexes file offset (c :: cs) (.error e)
  | blank {offset : Nat} {c : Char} {cs more : List Char} {later : List Token} :
    lexeme? c cs = some ⟨more, none⟩ →
    Lexes file (offset + byteLength (c :: more)) (cs.drop more.length) (.ok later) →
    Lexes file offset (c :: cs) (.ok later)
  | token {offset : Nat} {c : Char} {cs more value : List Char} {kind : TokenKind}
      {later : List Token} : lexeme? c cs = some ⟨more, some (kind, value)⟩ →
    Lexes file (offset + byteLength (c :: more)) (cs.drop more.length) (.ok later) →
    Lexes file offset (c :: cs) (.ok (⟨kind, String.ofList value,
      .between offset (offset + byteLength (c :: more)) file⟩ :: later))

theorem tokensAt_lexes (file : String) (offset : Nat) (cs : List Char) :
    Lexes file offset cs (tokensAt file offset cs) := by
  fun_induction tokensAt file offset cs with
  | case1 offset => exact .eof
  | case2 offset c cs hl => exact .unrecognised hl
  | case3 offset c cs more token? hl stop ih =>
    cases hlater : tokensAt file stop (cs.drop more.length) with
    | error e =>
      rw [hlater] at ih
      exact .failing hl ih
    | ok later =>
      rw [hlater] at ih
      cases token? with
      | none => exact .blank hl ih
      | some kv => exact .token hl ih

namespace Lexes

variable {file : String} {offset : Nat} {cs : List Char} {r : Except Error (List Token)}

theorem ends (h : Lexes file offset cs r) :
    ∀ {ts : List Token}, r = .ok ts → ∃ t ∈ ts.getLast?, t.kind = .eof := by
  induction h with
  | eof =>
    rintro _ ⟨⟩
    exact ⟨_, rfl, rfl⟩
  | unrecognised => rintro _ ⟨⟩
  | failing => rintro _ ⟨⟩
  | blank _ _ ih => exact ih
  | token _ _ ih =>
    rintro _ ⟨⟩
    obtain ⟨t, ht, hkind⟩ := ih rfl
    refine ⟨t, ?_, hkind⟩
    rw [List.getLast?_cons, Option.mem_def.mp ht]
    rfl

/-- What stands behind a piece stands behind its characters. -/
theorem shift {c : Char} {more : List Char} {token? : Option (TokenKind × List Char)}
    (h : lexeme? c cs = some ⟨more, token?⟩) {before after : List Char}
    (hrest : cs.drop more.length = before ++ after) :
    c :: cs = (c :: more ++ before) ++ after ∧
      offset + byteLength (c :: more) + byteLength before =
        offset + byteLength (c :: more ++ before) := by
  obtain ⟨rest, hcs⟩ := lexeme?_isPrefix h
  subst hcs
  rw [List.drop_left] at hrest
  subst hrest
  constructor
  · simp
  · rw [Text.byteLength_append, Nat.add_assoc]

theorem start_of_mem (h : Lexes file offset cs r) :
    ∀ {ts : List Token}, r = .ok ts → ∀ t ∈ ts, ∃ before after,
      cs = before ++ after ∧ t.span.start = .at (offset + byteLength before) file := by
  induction h with
  | eof =>
    rintro _ ⟨⟩ t ht
    rw [List.mem_singleton] at ht
    subst ht
    exact ⟨[], [], rfl, rfl⟩
  | unrecognised => rintro _ ⟨⟩
  | failing => rintro _ ⟨⟩
  | blank hl _ ih =>
    rintro _ ⟨⟩ t ht
    obtain ⟨before, after, hrest, hstart⟩ := ih rfl t ht
    obtain ⟨htext, hoffset⟩ := shift hl hrest
    exact ⟨_, after, htext, by rw [hstart, hoffset]⟩
  | @token offset c cs _ _ _ _ hl _ ih =>
    rintro _ ⟨⟩ t ht
    rcases List.mem_cons.mp ht with rfl | ht
    · exact ⟨[], c :: cs, rfl, rfl⟩
    · obtain ⟨before, after, hrest, hstart⟩ := ih rfl t ht
      obtain ⟨htext, hoffset⟩ := shift hl hrest
      exact ⟨_, after, htext, by rw [hstart, hoffset]⟩

theorem unrecognised_of_error (h : Lexes file offset cs r) :
    ∀ {e : Error}, r = .error e → ∃ before c after, cs = before ++ c :: after ∧
      lexeme? c after = none ∧
        e = ⟨.unrecognisedToken (String.singleton c), .at (offset + byteLength before) file⟩ := by
  induction h with
  | eof => rintro _ ⟨⟩
  | @unrecognised offset c cs hl =>
    rintro _ ⟨⟩
    exact ⟨[], c, cs, rfl, hl, rfl⟩
  | failing hl _ ih =>
    rintro _ ⟨⟩
    obtain ⟨before, d, after, hrest, hnone, he⟩ := ih rfl
    obtain ⟨htext, hoffset⟩ := shift hl hrest
    exact ⟨_, d, after, htext, hnone, by rw [he, hoffset]⟩
  | blank => rintro _ ⟨⟩
  | token => rintro _ ⟨⟩

end Lexes

/-! ## Tokens in order -/

theorem punctuation?_ne_eof (c : Char) : punctuation? c ≠ some .eof := by
  unfold punctuation?
  split <;> simp

theorem wordKind_ne_eof (word : List Char) : wordKind word ≠ .eof := by
  unfold wordKind
  split
  · simp
  · split <;> simp

theorem lexeme?_ne_eof {c : Char} {cs more value : List Char} {kind : TokenKind}
    (h : lexeme? c cs = some ⟨more, some (kind, value)⟩) : kind ≠ .eof := by
  unfold lexeme? at h
  split at h
  · cases h
    exact wordKind_ne_eof _
  split at h
  · cases h
    simp
  split at h
  · cases h
  split at h
  · split at h
    · cases h
    · split at h <;> cases h
      simp
  split at h
  · obtain ⟨body, -, hbody⟩ := Option.map_eq_some_iff.mp h
    cases hbody
    simp
  split at h
  · split at h <;> cases h
  · obtain ⟨mark, hmark, heq⟩ := Option.map_eq_some_iff.mp h
    cases heq
    rintro rfl
    exact punctuation?_ne_eof c hmark

structure Token.InOrder (tokens : List Token) : Prop where
  nonempty : ∀ t ∈ tokens, t.span.start.offset < t.span.stop.offset
  ordered : tokens.Pairwise fun t u => t.span.stop.offset ≤ u.span.start.offset

structure Token.Fill (offset stop : Nat) (tokens : List Token) : Prop where
  inOrder : Token.InOrder tokens
  kind : ∀ t ∈ tokens, t.kind ≠ .eof
  start : ∀ t ∈ tokens, offset ≤ t.span.start.offset.toNat
  stop : ∀ t ∈ tokens, t.span.stop.offset.toNat ≤ stop

section
variable {file : String} {offset : Nat} {c : Char} {cs more : List Char}

theorem byteLength_rest {token? : Option (TokenKind × List Char)}
    (h : lexeme? c cs = some ⟨more, token?⟩) :
    offset + byteLength (c :: more) + byteLength (cs.drop more.length) =
      offset + byteLength (c :: cs) := by
  obtain ⟨rest, hcs⟩ := lexeme?_isPrefix h
  subst hcs
  rw [List.drop_left, Nat.add_assoc, ← Text.byteLength_append, List.cons_append]

theorem byteLength_cons_pos : 0 < byteLength (c :: more) :=
  Nat.lt_of_lt_of_le c.utf8Size_pos (Nat.le_add_right _ _)

theorem Token.Fill.nil {stop : Nat} : Token.Fill offset stop [] :=
  ⟨⟨by simp, .nil⟩, by simp, by simp, by simp⟩

theorem Token.Fill.earlier {offset' stop : Nat} {tokens : List Token} (h : Fill offset' stop tokens)
    (hoffset : offset ≤ offset') : Fill offset stop tokens :=
  ⟨h.inOrder, h.kind, fun t ht => Nat.le_trans hoffset (h.start t ht), h.stop⟩

theorem Token.Fill.cons {mid stop : Nat} {tokens : List Token} (h : Fill mid stop tokens)
    (hmid : offset < mid) (hstop : mid ≤ stop) (hsize : stop < UInt32.size) {kind : TokenKind}
    (hkind : kind ≠ .eof) (value : String) :
    Fill offset stop (⟨kind, value, .between offset mid file⟩ :: tokens) := by
  have hstart : (Position.at offset file).offset.toNat = offset := Position.toNat_at (by omega)
  have hend : (Position.at mid file).offset.toNat = mid := Position.toNat_at (by omega)
  have hlater := h.earlier (Nat.le_of_lt hmid)
  refine ⟨⟨List.forall_mem_cons.mpr ⟨?_, h.inOrder.nonempty⟩, ?_⟩, ?_, ?_, ?_⟩
  · rw [UInt32.lt_iff_toNat_lt]
    exact hstart.symm ▸ hend.symm ▸ hmid
  · refine List.pairwise_cons.mpr ⟨fun t ht => ?_, h.inOrder.ordered⟩
    rw [UInt32.le_iff_toNat_le]
    exact Nat.le_trans (Nat.le_of_eq hend) (h.start t ht)
  · exact List.forall_mem_cons.mpr ⟨hkind, h.kind⟩
  · exact List.forall_mem_cons.mpr ⟨Nat.le_of_eq hstart.symm, hlater.start⟩
  · exact List.forall_mem_cons.mpr ⟨Nat.le_trans (Nat.le_of_eq hend) hstop, h.stop⟩

theorem Lexes.fill {r : Except Error (List Token)} (h : Lexes file offset cs r) :
    ∀ {ts : List Token}, r = .ok ts → offset + byteLength cs < UInt32.size →
      ∃ before, ts = before ++ [.eof (.at (offset + byteLength cs) file)] ∧
        Token.Fill offset (offset + byteLength cs) before := by
  induction h with
  | eof =>
    rintro _ ⟨⟩ -
    exact ⟨[], rfl, .nil⟩
  | unrecognised => rintro _ ⟨⟩
  | failing => rintro _ ⟨⟩
  | blank hl _ ih =>
    rintro _ ⟨⟩ hsize
    rw [← byteLength_rest hl] at hsize ⊢
    obtain ⟨before, rfl, hfill⟩ := ih rfl hsize
    exact ⟨before, rfl, hfill.earlier (Nat.le_add_right _ _)⟩
  | token hl _ ih =>
    rintro _ ⟨⟩ hsize
    rw [← byteLength_rest hl] at hsize ⊢
    obtain ⟨before, rfl, hfill⟩ := ih rfl hsize
    refine ⟨_ :: before, rfl, ?_⟩
    exact hfill.cons (Nat.lt_add_of_pos_right byteLength_cons_pos) (Nat.le_add_right _ _) hsize
      (lexeme?_ne_eof hl) _

end

end ShapeCheck
