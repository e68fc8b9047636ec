import ShapeCheck.Proofs.Seam

/-!
# Parsers do the same on both sides of a seam

One lemma for each parser, given that the parsers of its parts do the same on both sides; the levels
of nesting are the induction. What a parser knows of the first token says that it stands before the
seam.
-/

namespace ShapeCheck

open ParseM Seam

variable {s : Seam} {c c' : Cursor}

/-! ## Types -/

namespace TypeExpr

theorem parseSymbol_joins (hm : s.Meets c c') : s.Joined parseSymbol c c' :=
  (expect_joins hm (by decide)).bind fun _ _ _ ha => .pure ha

section
variable {type : ParseM TypeExpr} {levels : Nat} (hyields : ∀ c, Gives type c (ReadFrom levels c))
  (htype : ∀ c c', s.Meets c c' → s.Joined type c c')
include hyields htype

omit htype in
theorem type_moves (c : Cursor) : Moves type c :=
  (hyields c).weaken fun _ _ _ => trivial

theorem parseTuple_joins (hm : s.Meets c c') (hkind : c.kind ≠ .eof) :
    s.Joined (parseTuple type) c c' := by
  refine (advance_joins hm hkind).bind fun _ c₁ c₁' ha => ?_
  refine (commaList_joins (by decide) (fun _ => type_moves hyields) (fun _ => htype) ha).bind
    fun _ _ _ ha => ?_
  exact .spanFrom ha (.pure ha)

theorem parseRecord_joins (hm : s.Meets c c') (hkind : c.kind ≠ .eof) :
    s.Joined (parseRecord type) c c' := by
  refine .get ?_
  rw [Cursor.position, Cursor.position, ← hm.current_eq hkind]
  refine (entries_joins (type_moves hyields) htype hm).bind fun _ _ _ ha => ?_
  exact .spanFrom ha (.pure ha)

omit hyields in
theorem parseFunctionParameter_joins (hm : s.Meets c c') :
    s.Joined (parseFunctionParameter type) c c' := by
  refine .get ?_
  by_cases hnamed : c.kind = .identifier ∧ c.peekKind 1 = .colon
  · rw [if_pos hnamed, if_pos (hm.named_iff.mpr hnamed)]
    refine (advance_joins_peek hm (by simp [hnamed.1])).bind fun _ c₁ c₁' h₁ => ?_
    refine (advance_joins h₁.1.meets (by simp [h₁.2, hnamed.2])).bind fun _ c₂ c₂' ha => ?_
    exact htype c₂ c₂' ha.meets
  · rw [if_neg hnamed, if_neg (mt hm.named_iff.mp hnamed)]
    exact htype c c' hm

theorem parseFunction_joins (hm : s.Meets c c') (hkind : c.kind ≠ .eof) :
    s.Joined (parseFunction type) c c' := by
  refine (advance_joins hm hkind).bind fun _ c₁ c₁' ha => ?_
  refine (commaList_joins (by decide) (fun _ c => ?_)
    (fun _ _ _ hm => parseFunctionParameter_joins htype hm) ha).bind fun _ c₂ c₂' ha => ?_
  · exact (parseFunctionParameter_yields hyields c).weaken fun _ _ _ => trivial
  · refine (htype c₂ c₂' ha.meets).bind fun _ _ _ ha => ?_
    exact .spanFrom ha (.pure ha)

theorem parseAtomNode_joins (hm : s.Meets c c') : s.Joined (parseAtomNode type) c c' := by
  refine (expectOr_joins hm _ (by decide)).bind fun _ c₁ c₁' ha => ?_
  refine (arguments_joins (type_moves hyields) htype ha).bind fun _ _ _ ha => ?_
  exact .spanFrom ha (.pure ha)

theorem parseStart_joins (rule : TypeStart) (hm : s.Meets c c') (hkind : c.kind ≠ .eof) :
    s.Joined (parseStart type rule) c c' := by
  cases rule with
  | symbol => exact parseSymbol_joins hm
  | tuple => exact parseTuple_joins hyields htype hm hkind
  | record => exact parseRecord_joins hyields htype hm hkind
  | function => exact parseFunction_joins hyields htype hm hkind
  | atom => exact (parseAtomNode_joins hyields htype hm).bind fun _ _ _ ha => .pure ha

theorem parseFollow_joins (left : TypeExpr) (rule : TypeFollow) (hm : s.Meets c c')
    (hkind : c.kind ≠ .eof) : s.Joined (parseFollow type left rule) c c' := by
  cases rule with
  | union =>
    show s.Joined (parseUnion type left) c c'
    unfold parseUnion
    cases left.members? with
    | none => exact detailed_joins hm _
    | some atoms =>
      refine (advance_joins hm hkind).bind fun _ c₁ c₁' ha => ?_
      refine (parseAtomNode_joins hyields htype ha.meets).bind fun _ _ _ ha => ?_
      exact .spanFrom ha (.pure ha)
  | access =>
    refine (entryName_joins hm hkind).bind fun _ _ _ ha => ?_
    exact .spanFrom ha (.pure ha)

theorem parseBody_joins (power : Power) (hm : s.Meets c c') :
    s.Joined (parseBody type power) c c' := by
  have hround : ∀ left c c', s.Abreast c c' →
      s.Joins (followsRound type power left) (followsRound type power left) c c'
        (Sum.elim (fun _ => s.Abreast) (fun _ => s.Abreast)) := by
    intro left c c' ha
    apply Joins.kind ha.meets rfl
    split
    · exact .pure ha
    · cases hrule : TypeFollow.of? c.kind with
      | none => exact unexpected_joins ha.meets
      | some rule =>
        have hkind : c.kind ≠ .eof := fun heof => by simp [heof, TypeFollow.of?] at hrule
        refine (parseFollow_joins hyields htype left rule ha.meets hkind).bind fun _ _ _ ha => ?_
        exact .pure ha
  apply Joins.kind hm rfl
  cases hrule : TypeStart.of? c.kind with
  | none => exact unexpected_joins hm
  | some rule =>
    have hkind : c.kind ≠ .eof := fun heof => by simp [heof, TypeStart.of?] at hrule
    refine (parseStart_joins hyields htype rule hm hkind).bind fun left c₁ c₁' ha => ?_
    exact .remaining (loop_joins (followsLoop_advances hyields power) hround ha ha.meets)

end

theorem parseAt_joins : ∀ (levels : Nat) (power : Power) (c c' : Cursor), s.Meets c c' →
    s.Joined (parseAt levels power) c c'
  | 0, _, _, _, hm => tooDeep_joins hm
  | levels + 1, power, _, _, hm => by
    have htype := parseAt_joins levels .default
    exact nested_joins (fun _ _ hm => parseBody_joins (parseAt_yields levels) htype power hm) hm

end TypeExpr

/-! ## Expressions -/

structure Grammar.Joined (s : Seam) (levels : Nat) (g : Grammar) : Prop where
  yields : g.Yields levels
  expr : ∀ c c', s.Meets c c' → s.Joined g.expr c c'
  type : ∀ c c', s.Meets c c' → s.Joined g.type c c'
  block : ∀ c c', s.Meets c c' → s.Joined g.block c c'

namespace Expr

theorem parsePrimary_joins (hm : s.Meets c c') (hkind : c.kind ≠ .eof) :
    s.Joined parsePrimary c c' := by
  have hleaf (e : Expr) : s.Joined (do let _ ← advance; return e) c c' :=
    (advance_joins hm hkind).bind fun _ _ _ ha => .pure ha
  refine .get ?_
  rw [← hm.current_eq hkind]
  dsimp only
  split
  · split
    · exact .error hm
    · exact hleaf _
  · exact hleaf _
  · exact hleaf _
  · exact unexpected_joins hm

theorem parseImport_joins (hm : s.Meets c c') (hkind : c.kind ≠ .eof) :
    s.Joined parseImport c c' := by
  refine (advance_joins hm hkind).bind fun _ _ _ ha => ?_
  refine (expect_joins ha.meets (by decide)).bind fun _ _ _ ha => ?_
  refine (expectOr_joins ha.meets _ (by decide)).bind fun _ _ _ ha => ?_
  refine (expect_joins ha.meets (by decide)).bind fun _ _ _ ha => ?_
  exact .spanFrom ha (.pure ha)

section
variable {g : Grammar} {levels : Nat} (h : g.Joined s levels)
include h

theorem moves_of_joined (c : Cursor) : Moves g.expr c :=
  (h.yields.expr c).weaken fun _ _ _ => trivial

theorem parseList_joins {closing : TokenKind} (hclosing : closing ≠ .eof ∧ closing ≠ .semicolon)
    (ha : s.Abreast c c') : s.Joined (parseList g closing) c c' :=
  commaList_joins hclosing (fun _ => moves_of_joined h) (fun _ => h.expr) ha

theorem parseTuple_joins (hm : s.Meets c c') (hkind : c.kind ≠ .eof) :
    s.Joined (parseTuple g) c c' := by
  refine (advance_joins hm hkind).bind fun _ _ _ ha => ?_
  refine (parseList_joins h (by decide) ha).bind fun _ _ _ ha => ?_
  exact .spanFrom ha (.pure ha)

theorem parseRecord_joins (hm : s.Meets c c') (hkind : c.kind ≠ .eof) :
    s.Joined (parseRecord g) c c' := by
  refine .get ?_
  rw [Cursor.position, Cursor.position, ← hm.current_eq hkind]
  refine (entries_joins (moves_of_joined h) h.expr hm).bind fun _ _ _ ha => ?_
  exact .spanFrom ha (.pure ha)

theorem parseAtom_joins (hm : s.Meets c c') (hkind : c.kind ≠ .eof) :
    s.Joined (parseAtom g) c c' := by
  refine (advance_joins hm hkind).bind fun _ _ _ ha => ?_
  refine (arguments_joins (moves_of_joined h) h.expr ha).bind fun _ _ _ ha => ?_
  exact .spanFrom ha (.pure ha)

theorem parseParameter_joins (hm : s.Meets c c') : s.Joined (parseParameter g) c c' := by
  refine (expectOr_joins hm _ (by decide)).bind fun _ _ _ ha => ?_
  refine (declaredType_joins h.type ha).bind fun _ _ _ ha => ?_
  exact .spanFrom ha (.pure ha)

theorem parseFunctionBody_joins (hm : s.Meets c c') : s.Joined (parseFunctionBody g) c c' := by
  apply Joins.kind hm rfl
  split
  · exact h.block c c' hm
  · exact (h.expr c c' hm).bind fun _ _ _ ha => .pure ha

theorem parseFunction_joins (hm : s.Meets c c') (hkind : c.kind ≠ .eof) :
    s.Joined (parseFunction g) c c' := by
  have hmoves (c : Cursor) : Moves (parseParameter g) c :=
    (parseParameter_yields h.yields c).weaken fun _ _ _ => trivial
  refine (advance_joins hm hkind).bind fun _ _ _ ha => ?_
  refine (commaList_joins (by decide) (fun _ => hmoves)
    (fun _ _ _ hm => parseParameter_joins h hm) ha).bind fun _ _ _ ha => ?_
  refine (parseFunctionBody_joins h ha.meets).bind fun _ _ _ ha => ?_
  exact .spanFrom ha (.pure ha)

theorem parseStart_joins (rule : ExprStart) (hm : s.Meets c c') (hkind : c.kind ≠ .eof) :
    s.Joined (parseStart g rule) c c' := by
  cases rule with
  | primary => exact parsePrimary_joins hm hkind
  | tuple => exact parseTuple_joins h hm hkind
  | record => exact parseRecord_joins h hm hkind
  | atom => exact parseAtom_joins h hm hkind
  | function => exact parseFunction_joins h hm hkind
  | importFile => exact parseImport_joins hm hkind

theorem parseFollow_joins (left : Expr) (rule : ExprFollow) (hm : s.Meets c c')
    (hkind : c.kind ≠ .eof) : s.Joined (parseFollow g left rule) c c' := by
  cases rule with
  | call =>
    refine (advance_joins hm hkind).bind fun _ _ _ ha => ?_
    refine (parseList_joins h (by decide) ha).bind fun _ _ _ ha => ?_
    exact .spanFrom ha (.pure ha)
  | access =>
    refine (entryName_joins hm hkind).bind fun _ _ _ ha => ?_
    exact .spanFrom ha (.pure ha)

theorem parseBody_joins (power : Power) (hm : s.Meets c c') :
    s.Joined (parseBody g power) c c' := by
  have hround : ∀ left c c', s.Abreast c c' →
      s.Joins (followsRound g power left) (followsRound g power left) c c'
        (Sum.elim (fun _ => s.Abreast) (fun _ => s.Abreast)) := by
    intro left c c' ha
    apply Joins.kind ha.meets rfl
    split
    · exact .pure ha
    · cases hrule : ExprFollow.of? c.kind with
      | none => exact unexpected_joins ha.meets
      | some rule =>
        have hkind : c.kind ≠ .eof := fun heof => by simp [heof, ExprFollow.of?] at hrule
        exact (parseFollow_joins h left rule ha.meets hkind).bind fun _ _ _ ha => .pure ha
  apply Joins.kind hm rfl
  cases hrule : ExprStart.of? c.kind with
  | none => exact unexpected_joins hm
  | some rule =>
    have hkind : c.kind ≠ .eof := fun heof => by simp [heof, ExprStart.of?] at hrule
    refine (parseStart_joins h rule hm hkind).bind fun left c₁ c₁' ha => ?_
    exact .remaining (loop_joins (followsLoop_advances h.yields power) hround ha ha.meets)

end

end Expr

/-! ## Statements -/

namespace Stmt

section
variable {g : Grammar} {levels : Nat} (h : g.Joined s levels)
include h

theorem parseValue_joins (declared : Bool) (ha : s.Abreast c c') :
    s.Joined (parseValue g declared) c c' := by
  apply Joins.kind ha.meets rfl
  split
  case isTrue hkind =>
    refine (advance_joins ha.meets (by simp [hkind])).bind fun _ c₁ c₁' ha => ?_
    exact (h.expr c₁ c₁' ha.meets).bind fun _ _ _ ha => .pure ha
  case isFalse =>
    split
    · exact .pure ha
    · exact detailed_joins ha.meets _

theorem parseAssignment_joins (hm : s.Meets c c') : s.Joined (parseAssignment g) c c' := by
  refine (expectOr_joins hm _ (by decide)).bind fun _ _ _ ha => ?_
  refine (declaredType_joins h.type ha).bind fun _ _ _ ha => ?_
  refine (parseValue_joins h _ ha).bind fun _ _ _ ha => ?_
  exact .spanFrom ha (.pure ha)

theorem parseIdentifier_joins (hm : s.Meets c c') (hkind : c.kind ≠ .eof) :
    s.Joined (parseIdentifier g) c c' := by
  refine .get ?_
  rcases hm.peek_alike hkind with hpeek | ⟨heof, hsemicolon⟩
  · rw [← hpeek]
    split
    · exact (parseAssignment_joins h hm).bind fun _ _ _ ha => .pure ha
    · exact (parseAssignment_joins h hm).bind fun _ _ _ ha => .pure ha
    · exact (h.expr c c' hm).bind fun _ _ _ ha => .pure ha
  · rw [heof, hsemicolon]
    exact (h.expr c c' hm).bind fun _ _ _ ha => .pure ha

theorem parseExport_joins (hm : s.Meets c c') (hkind : c.kind ≠ .eof) :
    s.Joined (parseExport g) c c' := by
  refine (advance_joins hm hkind).bind fun _ c₁ c₁' ha => ?_
  apply Joins.kind ha.meets rfl
  dsimp only
  split
  · exact (detailed_joins (P := fun _ _ _ => False) ha.meets _).bind
      fun _ _ _ hfalse => hfalse.elim
  · refine (parseAssignment_joins h ha.meets).bind fun _ _ _ ha => ?_
    exact .spanFrom ha (.pure ha)

theorem parseStart_joins (rule : StmtStart) (hm : s.Meets c c') (hkind : c.kind ≠ .eof) :
    s.Joined (parseStart g rule) c c' := by
  cases rule with
  | identifier => exact parseIdentifier_joins h hm hkind
  | exported => exact parseExport_joins h hm hkind
  | block => exact h.block c c' hm

theorem parseOne_joins (hm : s.Meets c c') :
    s.Joins (parseOne g) (parseOne g) c c' fun _ => s.Onward := by
  have hskip (stmt : Stmt) (c c' : Cursor) (ha : s.Abreast c c') :
      s.Joins (do skip .semicolon; return stmt) (do skip .semicolon; return stmt) c c'
        fun _ => s.Onward :=
    (skip_semicolon_joins ha).bind fun _ _ _ ho => .pure ho
  apply Joins.kind hm rfl
  cases hrule : StmtStart.of? c.kind with
  | none =>
    have hexpr : s.Joined (Stmt.expr <$> g.expr) c c' :=
      (h.expr c c' hm).bind fun _ _ _ ha => .pure ha
    exact hexpr.bind hskip
  | some rule =>
    have hkind : c.kind ≠ .eof := fun heof => by simp [heof, StmtStart.of?] at hrule
    exact (parseStart_joins h rule hm hkind).bind hskip

omit h in
theorem untilRound_eof {closing : TokenKind} (hclosing : closing ≠ .eof) (earlier : List Stmt)
    (hkind : c.kind = .eof) :
    untilRound g closing earlier c = .error (c.detailed "unclosed block") c := by
  show (if c.kind = closing then _ else _ : ParseM (List Stmt ⊕ List Stmt)) c = _
  rw [hkind, if_neg hclosing.symm]
  show (if c.kind = .eof then _ else _ : ParseM (List Stmt ⊕ List Stmt)) c = _
  rw [if_pos hkind]
  rfl

theorem untilRound_joins {closing : TokenKind} (heof : closing = .eof → s.next.kind = .eof)
    (earlier : List Stmt) {R : Cursor → Cursor → Prop} (hm : s.Meets c c') (hR : R c c') :
    s.Joins (untilRound g closing earlier) (untilRound g closing earlier) c c'
      (Sum.elim (fun _ => s.Onward) (fun _ => R)) := by
  by_cases hsame : c'.kind = c.kind
  · apply Joins.kind_of_eq hsame
    split
    · exact .pure hR
    · apply Joins.kind_of_eq hsame
      split
      · exact (detailed_joins (P := fun _ _ _ => False) hm _).bind fun _ _ _ hfalse => hfalse.elim
      · exact (parseOne_joins h hm).bind fun _ _ _ ho => .pure ho
  · -- The first cursor stands at the end and the second one before `;`.
    rcases hm.kind_alike with hkind | ⟨hkind, hsemicolon⟩
    · exact absurd hkind.symm hsame
    · have hnext : s.next.kind = .semicolon := by
        rwa [Cursor.kind, hm.current_next hkind] at hsemicolon
      have hclosing : closing ≠ .eof := fun h => by simp [heof h] at hnext
      show s.Outcomes _ (untilRound g closing earlier c) _
      rw [untilRound_eof hclosing earlier hkind]
      exact .lost hnext

/-- Statements are read the same on both sides; where the first cursor comes to the end inside of a
block, it fails. -/
theorem parseUntil_joins {closing : TokenKind} (heof : closing = .eof → s.next.kind = .eof)
    (earlier : List Stmt) {R : Cursor → Cursor → Prop} (hmeets : ∀ {c c'}, R c c' → s.Meets c c')
    (habreast : ∀ {c c'}, s.Abreast c c' → R c c') (hR : R c c') :
    s.Joins (parseUntil g closing c.tokens.length earlier)
      (parseUntil g closing c'.tokens.length earlier) c c' fun _ => R := by
  have hround : ∀ earlier c c', s.Past c c' ∨ R c c' →
      s.Joins (untilRound g closing earlier) (untilRound g closing earlier) c c'
        (Sum.elim (fun _ c c' => s.Past c c' ∨ R c c') (fun _ => R)) := by
    intro earlier c c' hst
    rcases hst with hpast | hR
    · have hclosing : closing ≠ .eof := fun h => by simpa [heof h] using hpast.next_kind
      show s.Outcomes _ (untilRound g closing earlier c) _
      rw [untilRound_eof hclosing earlier hpast.kind]
      exact .lost hpast.next_kind
    · refine (untilRound_joins h heof earlier (hmeets hR) hR).weaken fun next c₁ c₁' hnext => ?_
      cases next with
      | inr body => exact hnext
      | inl later => exact hnext.imp id fun ha => habreast ha.1
  exact loop_joins (untilLoop_advances h.yields closing) hround (Or.inr hR) (hmeets hR)

theorem parseBlockBody_joins (hm : s.Meets c c') : s.Joined (parseBlockBody g) c c' := by
  refine (expect_joins hm (by decide)).bind fun _ c₁ c₁' ha => .remaining ?_
  have hcurly : TokenKind.closeCurly = .eof → s.next.kind = .eof := nofun
  refine (parseUntil_joins h hcurly [] Abreast.meets id ha).bind fun _ c₂ c₂' ha => ?_
  refine (expect_joins ha.meets (by decide)).bind fun _ _ _ ha => ?_
  exact .spanFrom ha (.pure ha)

end

end Stmt

theorem Grammar.ofLevels_joined : ∀ levels : Nat, (Grammar.ofLevels levels).Joined s levels
  | 0 => ⟨ofLevels_yields 0, fun _ _ => tooDeep_joins, fun _ _ => tooDeep_joins,
      fun _ _ => tooDeep_joins⟩
  | levels + 1 => by
    have h := Grammar.ofLevels_joined levels
    refine ⟨ofLevels_yields (levels + 1), fun _ _ => ?_, TypeExpr.parseAt_joins _ _, fun _ _ => ?_⟩
    · exact nested_joins fun _ _ hm => Expr.parseBody_joins h .default hm
    · exact nested_joins fun _ _ hm => Stmt.parseBlockBody_joins h hm

/-- A program is read wherever its tokens stand. -/
theorem Stmt.parseAll_joins (heof : s.next.kind = .eof) (hm : s.Meets c c') :
    s.Joins parseAll parseAll c c' fun _ => s.Meets := by
  obtain ⟨ts, hbefore⟩ := id hm
  show s.Outcomes _ (parseUntil (.ofLevels (c.limit - c.depth)) .eof c.tokens.length [] c)
    (parseUntil (.ofLevels (c'.limit - c'.depth)) .eof c'.tokens.length [] c')
  rw [← hbefore.limit_eq, ← hbefore.depth_eq]
  exact parseUntil_joins (Grammar.ofLevels_joined _) (fun _ => heof) [] id Abreast.meets hm

end ShapeCheck
