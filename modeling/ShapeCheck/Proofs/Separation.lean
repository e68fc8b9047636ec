import ShapeCheck.Proofs.Depth
import ShapeCheck.Proofs.Joining

/-!
# `;` separates programs

A program that ends without `;` ends in the same way before a `;`: the last statement takes it, and
the next one starts behind it. What follows is read as it is read on its own.
-/

namespace ShapeCheck

open ParseM Seam

/-! ## Token lists without an end -/

namespace Cursor

theorem ofTokens_on (tokens : List Token) (file : String) (limit : Nat) :
    (ofTokens tokens file limit).On limit 0 :=
  ⟨by cases tokens <;> rfl, by cases tokens <;> rfl, ofTokens_ends tokens file limit⟩

theorem last_ofTokens (tokens : List Token) (file : String) (limit : Nat) :
    (ofTokens tokens file limit).last = .at 0 file := by
  cases tokens <;> rfl

theorem exists_tokens_ofTokens {tokens : List Token} (h : ∀ t ∈ tokens, t.kind ≠ .eof)
    (file : String) (limit : Nat) :
    ∃ stop, (ofTokens tokens file limit).tokens = tokens ++ [.eof stop] := by
  cases tokens with
  | nil => exact ⟨.at 0 file, rfl⟩
  | cons t ts =>
    have hfinal := h _ (List.getLast_mem (List.cons_ne_nil t ts))
    refine ⟨((t :: ts).getLast (List.cons_ne_nil t ts)).span.stop, ?_⟩
    simp only [ofTokens, Cursor.tokens, hfinal, if_false, List.cons_append]

end Cursor

/-! ## Statements one after another -/

namespace Stmt

variable {g : Grammar} {closing : TokenKind} {earlier body : List Stmt} {c c' c₁ : Cursor}

theorem untilRound_append (g : Grammar) (closing : TokenKind) (earlier base : List Stmt) :
    untilRound g closing (earlier ++ base) =
      Sum.map (· ++ base) (base.reverse ++ ·) <$> untilRound g closing earlier := by
  unfold untilRound
  simp only [map_bind]
  congr 1
  funext k
  split
  · simp
  · simp only [map_bind]
    congr 1
    funext k'
    split <;> simp

/-- The statements before do not matter for those that follow. -/
theorem repeats_append (base : List Stmt)
    (h : (untilLoop g closing).Repeats earlier c (.ok body c₁)) :
    (untilLoop g closing).Repeats (earlier ++ base) c (.ok (base.reverse ++ body) c₁) := by
  have hround {earlier : List Stmt} {next : List Stmt ⊕ List Stmt} {c c₁ : Cursor}
      (h : (untilLoop g closing).round earlier c = .ok next c₁) :
      (untilLoop g closing).round (earlier ++ base) c =
        .ok (next.map (· ++ base) (base.reverse ++ ·)) c₁ := by
    show untilRound g closing (earlier ++ base) c = _
    rw [untilRound_append]
    show EStateM.map _ _ c = _
    rw [EStateM.map, show untilRound g closing earlier c = _ from h]
  generalize hr : EStateM.Result.ok body c₁ = r at h
  induction h with
  | done h =>
    cases hr
    exact .done (hround h)
  | failed h => cases hr
  | again h _ ih => exact .again (hround h) (ih hr)

theorem parseAll_repeats {limit depth : Nat} (hc : c.On limit depth) :
    (untilLoop (.ofLevels (limit - depth)) .eof).Repeats [] c (parseAll c) := by
  rw [← hc.limit_eq, ← hc.depth_eq]
  have hloop := untilLoop_advances (Grammar.ofLevels_yields (c.limit - c.depth)) .eof
  exact Loop.repeats_bounded hloop _ [] c hc.ends (Nat.le_refl _)

variable {s : Seam} {levels : Nat}

/-- A round before `;` is the last one if the `;` has been left behind, and is the same on both
sides otherwise. -/
theorem untilRound_onward (h : g.Joined s levels) (hnext : s.next.kind = .semicolon)
    (ho : s.Onward c c') {next : List Stmt ⊕ List Stmt}
    (hround : untilRound g .eof earlier c = .ok next c₁) :
    next = .inr earlier.reverse ∧ c₁ = c ∧ s.Past c c' ∨
      ∃ later c₁', next = .inl later ∧ untilRound g .eof earlier c' = .ok (.inl later) c₁' ∧
        s.Onward c₁ c₁' := by
  rcases ho with hpast | ⟨ha, hkind⟩
  · have hdone : untilRound g .eof earlier c = .ok (.inr earlier.reverse) c := by
      show (if c.kind = .eof then _ else _ : ParseM (List Stmt ⊕ List Stmt)) c = _
      rw [if_pos hpast.kind]
      rfl
    cases hround.symm.trans hdone
    exact Or.inl ⟨rfl, rfl, hpast⟩
  · have hkind := hkind hnext
    have hsame : c'.kind = c.kind := congrArg Token.kind (ha.meets.current_eq hkind).symm
    have hjoins : s.Joins (untilRound g .eof earlier) (untilRound g .eof earlier) c c'
        (Sum.elim (fun _ => s.Onward) fun _ _ _ => False) := by
      apply Joins.kind_of_eq hsame
      rw [if_neg hkind]
      apply Joins.kind_of_eq hsame
      rw [if_neg hkind]
      exact (parseOne_joins h ha.meets).bind fun _ _ _ ho => .pure ho
    unfold Joins at hjoins
    rw [hround] at hjoins
    generalize untilRound g .eof earlier c' = outcome at hjoins ⊢
    cases hjoins with
    | ok hnext =>
      cases next with
      | inl later => exact Or.inr ⟨later, _, rfl, rfl, hnext⟩
      | inr _ => exact hnext.elim

/-- Where the statements before a `;` have been read, what follows the `;` is left. -/
theorem repeats_past (h : g.Joined s levels) (hnext : s.next.kind = .semicolon)
    (hrun : (untilLoop g .eof).Repeats earlier c (.ok body c₁)) (ho : s.Onward c c') :
    ∃ c₁', s.Past c₁ c₁' ∧ ∀ r, (untilLoop g .eof).Repeats body.reverse c₁' r →
      (untilLoop g .eof).Repeats earlier c' r := by
  generalize hr : EStateM.Result.ok body c₁ = r at hrun
  induction hrun generalizing c' with
  | done hround =>
    cases hr
    rcases untilRound_onward h hnext ho hround with ⟨hbody, rfl, hpast⟩ | ⟨_, _, hlater, -⟩
    · cases hbody
      exact ⟨c', hpast, fun r hrest => by rwa [List.reverse_reverse] at hrest⟩
    · cases hlater
  | failed hround => cases hr
  | again hround _ ih =>
    rcases untilRound_onward h hnext ho hround with ⟨hbody, -⟩ | ⟨_, c₂', hlater, hround', ho₂⟩
    · cases hbody
    · cases hlater
      obtain ⟨c₁', hpast, hrest⟩ := ih ho₂ hr
      exact ⟨c₁', hpast, fun r' hr' => .again hround' (hrest r' hr')⟩

end Stmt

/-! ## Programs -/

theorem parseAll_of_parseTokens {tokens : List Token} {file : String} {maxDepth : Nat}
    {body : List Stmt} {span : Span}
    (h : parseTokens tokens file maxDepth = .ok (.block body span)) :
    ∃ c, Stmt.parseAll (Cursor.ofTokens tokens file maxDepth) = .ok body c := by
  unfold parseTokens at h
  cases hparse : Stmt.parseAll (Cursor.ofTokens tokens file maxDepth) with
  | error e c => simp [hparse] at h
  | ok body' c =>
    simp only [hparse, Except.ok.injEq, Stmt.block.injEq] at h
    exact ⟨c, by rw [h.1]⟩

section
variable {first second : List Token} {separator : Token} {file : String} {maxDepth : Nat}
  {body : List Stmt} {span : Span} {stop : Position} {c : Cursor}

/-- After the statements of the first program and the `;`, reading goes on with the second one. -/
theorem repeats_of_first (hfirst : ∀ t ∈ first, t.kind ≠ .eof) (hne : first ≠ [])
    (hlast : ∀ t ∈ first.getLast?, t.kind ≠ .semicolon) (hseparator : separator.kind = .semicolon)
    (h : parseTokens first file maxDepth = .ok (.block body span)) (hc : c.On maxDepth 0)
    (hstart : c.last = .at 0 file)
    (htokens : c.tokens = first ++ separator :: second ++ [.eof stop]) :
    ∃ c₁ : Cursor, c₁.On maxDepth 0 ∧ c₁.tokens = second ++ [.eof stop] ∧
      ∀ r, (Stmt.untilLoop (.ofLevels maxDepth) .eof).Repeats body.reverse c₁ r →
        (Stmt.untilLoop (.ofLevels maxDepth) .eof).Repeats [] c r := by
  obtain ⟨c₀, hrun⟩ := parseAll_of_parseTokens h
  obtain ⟨stop₀, htokens₀⟩ := Cursor.exists_tokens_ofTokens hfirst file maxDepth
  have hon := Cursor.ofTokens_on first file maxDepth
  have hend : (separator :: second ++ [Token.eof stop]).getLast? = some (.eof stop) :=
    List.getLast?_concat
  let s : Seam := ⟨.eof stop₀, separator, second ++ [Token.eof stop], rfl, Or.inr hseparator,
    .eof stop, hend, rfl⟩
  have hbefore : s.Before first (.ofTokens first file maxDepth) c :=
    ⟨htokens₀, by simpa using htokens, hon.depth_eq.trans hc.depth_eq.symm,
      hon.limit_eq.trans hc.limit_eq.symm, hfirst, fun _ => hlast⟩
  have habreast : s.Abreast (.ofTokens first file maxDepth) c :=
    ⟨⟨first, hbefore⟩, (Cursor.last_ofTokens first file maxDepth).trans hstart.symm⟩
  have hkind : (Cursor.ofTokens first file maxDepth).kind ≠ .eof := by
    obtain ⟨t, ts, rfl⟩ := List.exists_cons_of_ne_nil hne
    exact hbefore.current.2.2
  have hrepeats := Stmt.parseAll_repeats hon
  rw [hrun] at hrepeats
  obtain ⟨c₁, hpast, hrest⟩ := Stmt.repeats_past (Grammar.ofLevels_joined maxDepth) hseparator
    hrepeats (Or.inr ⟨habreast, fun _ => hkind⟩)
  have hon₀ := (Stmt.parseAll_agree _ hon).2.2
  rw [hrun] at hon₀
  refine ⟨c₁, ⟨?_, ?_, ?_⟩, hpast.tokens', hrest⟩
  · exact hpast.limit_eq.symm.trans hon₀.limit_eq
  · exact hpast.depth_eq.symm.trans hon₀.depth_eq
  · exact ⟨.eof stop, by rw [hpast.tokens']; simp [s], rfl⟩

theorem parseAll_of_second (hsecond : ∀ t ∈ second, t.kind ≠ .eof)
    (h : parseTokens second file maxDepth = .ok (.block body span)) (hc : c.On maxDepth 0)
    (htokens : c.tokens = second ++ [.eof stop]) : ∃ c₁, Stmt.parseAll c = .ok body c₁ := by
  obtain ⟨c₀, hrun⟩ := parseAll_of_parseTokens h
  obtain ⟨stop₀, htokens₀⟩ := Cursor.exists_tokens_ofTokens hsecond file maxDepth
  have hon := Cursor.ofTokens_on second file maxDepth
  let s : Seam := ⟨.eof stop₀, .eof stop, [], rfl, Or.inl rfl, .eof stop, rfl, rfl⟩
  have hmeets : s.Meets (.ofTokens second file maxDepth) c :=
    ⟨second, htokens₀, htokens, hon.depth_eq.trans hc.depth_eq.symm,
      hon.limit_eq.trans hc.limit_eq.symm, hsecond, nofun⟩
  have hjoins := Stmt.parseAll_joins rfl hmeets
  unfold Joins at hjoins
  rw [hrun] at hjoins
  generalize Stmt.parseAll c = r at hjoins ⊢
  cases hjoins with
  | ok _ => exact ⟨_, rfl⟩

end

/-- **`;` separates programs.** The statements of a program that does not end in `;`, then `;`, then
those of another program, are the statements of the one and those of the other. -/
theorem parseTokens_separated {first second : List Token} {separator : Token} {file : String}
    {maxDepth : Nat} {body₁ body₂ : List Stmt} {span₁ span₂ : Span}
    (hfirst : ∀ t ∈ first, t.kind ≠ .eof) (hsecond : ∀ t ∈ second, t.kind ≠ .eof)
    (hne : first ≠ []) (hlast : ∀ t ∈ first.getLast?, t.kind ≠ .semicolon)
    (hseparator : separator.kind = .semicolon)
    (h₁ : parseTokens first file maxDepth = .ok (.block body₁ span₁))
    (h₂ : parseTokens second file maxDepth = .ok (.block body₂ span₂)) :
    ∃ span, parseTokens (first ++ separator :: second) file maxDepth =
      .ok (.block (body₁ ++ body₂) span) := by
  have hboth : ∀ t ∈ first ++ separator :: second, t.kind ≠ .eof := by
    simp only [List.mem_append, List.mem_cons]
    rintro t (ht | rfl | ht)
    · exact hfirst t ht
    · simp [hseparator]
    · exact hsecond t ht
  obtain ⟨stop, htokens⟩ := Cursor.exists_tokens_ofTokens hboth file maxDepth
  have hon := Cursor.ofTokens_on (first ++ separator :: second) file maxDepth
  obtain ⟨c₁, hon₁, htokens₁, hrest⟩ := repeats_of_first hfirst hne hlast hseparator h₁ hon
    (Cursor.last_ofTokens _ file maxDepth) htokens
  obtain ⟨c₂, hrun₂⟩ := parseAll_of_second hsecond h₂ hon₁ htokens₁
  have hrepeats := Stmt.parseAll_repeats hon₁
  rw [hrun₂] at hrepeats
  have happend := hrest _ (Stmt.repeats_append body₁.reverse hrepeats)
  rw [List.reverse_reverse] at happend
  have hrun := (Stmt.parseAll_repeats hon).unique happend
  refine ⟨⟨.at 0 file, c₂.position⟩, ?_⟩
  simp only [parseTokens, hrun]

def tokensOf (text : String) : List Token :=
  ((tokenize text none).toOption.getD []).dropLast

theorem exists_block {tokens : List Token} {file : String} {limit n : Nat}
    (h : (parseTokens tokens file limit).toOption.map (fun tree => tree.spans.children.length) =
      some n) :
    ∃ body span, parseTokens tokens file limit = .ok (.block body span) ∧ body.length = n := by
  unfold parseTokens at h ⊢
  cases hparse : Stmt.parseAll (Cursor.ofTokens tokens file limit) with
  | error e c => simp [hparse, Except.toOption] at h
  | ok body c =>
    simp only [hparse, Except.toOption, Option.map_some, Stmt.spans, Stmt.spansEach_eq,
      SpanTree.children, List.length_map, Option.some.injEq] at h
    exact ⟨body, _, rfl, h⟩

/-- Without the `;` the second program would start as the arguments of a call. -/
theorem parenthesis_separated :
    ∃ body₁ body₂ span, body₁.length = 1 ∧ body₂.length = 2 ∧
      parseTokens (tokensOf "f = g.h" ++ ⟨.semicolon, ";", default⟩ :: tokensOf "(x) [x]; f")
        "main" 3 = .ok (.block (body₁ ++ body₂) span) := by
  have hfirst : (parseTokens (tokensOf "f = g.h") "main" 3).toOption.map
      (fun tree => tree.spans.children.length) = some 1 := by decide +kernel
  have hsecond : (parseTokens (tokensOf "(x) [x]; f") "main" 3).toOption.map
      (fun tree => tree.spans.children.length) = some 2 := by decide +kernel
  obtain ⟨body₁, span₁, h₁, hone⟩ := exists_block hfirst
  obtain ⟨body₂, span₂, h₂, htwo⟩ := exists_block hsecond
  have hfirst : ∀ t ∈ tokensOf "f = g.h", t.kind ≠ .eof := by decide +kernel
  have hsecond : ∀ t ∈ tokensOf "(x) [x]; f", t.kind ≠ .eof := by decide +kernel
  have hne : tokensOf "f = g.h" ≠ [] := by decide +kernel
  have hlast : ∀ t ∈ (tokensOf "f = g.h").getLast?, t.kind ≠ .semicolon := by decide +kernel
  have hseparator : (⟨.semicolon, ";", default⟩ : Token).kind = .semicolon := rfl
  obtain ⟨span, h⟩ := parseTokens_separated hfirst hsecond hne hlast hseparator h₁ h₂
  exact ⟨body₁, body₂, span, hone, htwo, h⟩

end ShapeCheck
