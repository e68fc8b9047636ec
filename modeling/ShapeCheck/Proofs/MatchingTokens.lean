import ShapeCheck.Proofs.Lexing
import ShapeCheck.Proofs.Likeness

/-!
# Tokens that match are read alike

Where tokens stand in a text decides where the phrases read from them stand, and nothing else. So if
the tokens of two lists match one by one, what is read from the lists matches, and if something is
wrong with one of them, the same is wrong with the other at a place that corresponds.
-/

namespace ShapeCheck

abbrev anyName : String → Bool :=
  fun _ => true

section
variable (ρ : Position → Position → Prop)

structure Token.Matches (t t' : Token) : Prop where
  kind_eq : t.kind = t'.kind
  value_eq : t.value = t'.value
  start : ρ t.span.start t'.span.start

/-- Where the token before the current one ends does not matter. -/
structure Cursor.Matches (c c' : Cursor) : Prop where
  current : c.current.Matches ρ c'.current
  ahead : List.Forall₂ (Token.Matches ρ) c.ahead c'.ahead
  depth_eq : c.depth = c'.depth
  limit_eq : c.limit = c'.limit

structure Error.Matches (e e' : Error) : Prop where
  cause_eq : e.cause = e'.cause
  position : ρ e.position e'.position

inductive OutcomesMatch {α β : Type} (R : α → β → Prop) :
    EStateM.Result Error Cursor α → EStateM.Result Error Cursor β → Prop
  | ok {a : α} {b : β} {c c' : Cursor} : R a b → c.Matches ρ c' →
    OutcomesMatch R (.ok a c) (.ok b c')
  | error {e e' : Error} {c c' : Cursor} : e.Matches ρ e' →
    OutcomesMatch R (.error e c) (.error e' c')

/-- On cursors that match the parsers yield what `R` relates, or both fail alike. -/
def ParseM.Matches {α β : Type} (R : α → β → Prop) (p : ParseM α) (p' : ParseM β) : Prop :=
  ∀ c c' : Cursor, c.Matches ρ c' → OutcomesMatch ρ R (p c) (p' c')

end

section
variable {ρ : Position → Position → Prop}

/-! ## Cursors -/

namespace Cursor.Matches

variable {c c' : Cursor} (h : c.Matches ρ c')
include h

theorem kind_eq : c.kind = c'.kind :=
  h.current.kind_eq

theorem peekKind_eq (n : Nat) : c.peekKind n = c'.peekKind n := by
  have hkinds : c.ahead.map Token.kind = c'.ahead.map Token.kind := by
    rw [← List.forall₂_eq_eq_eq, List.forall₂_map_left_iff, List.forall₂_map_right_iff]
    exact h.ahead.imp fun _ _ ht => ht.kind_eq
  unfold Cursor.peekKind
  cases n with
  | zero => exact congrArg (fun kind => (some kind).getD .eof) h.kind_eq
  | succ n =>
    rw [List.getElem?_cons_succ, List.getElem?_cons_succ, ← List.getElem?_map, hkinds,
      List.getElem?_map]

theorem remaining_eq : c.ahead.length = c'.ahead.length :=
  h.ahead.length_eq

theorem advance : c.advance.1.Matches ρ c'.advance.1 ∧ c.advance.2.Matches ρ c'.advance.2 := by
  have hahead := h.ahead
  unfold Cursor.advance
  generalize hts : c.ahead = ts at hahead
  generalize hts' : c'.ahead = ts' at hahead
  cases hahead with
  | nil => exact ⟨h.current, h⟩
  | cons ht hrest => exact ⟨h.current, ⟨ht, hrest, h.depth_eq, h.limit_eq⟩⟩

end Cursor.Matches

/-! ## Parsers -/

namespace ParseM

variable {α β α' β' : Type} {R : α → α' → Prop} {S : β → β' → Prop}

theorem Matches.pure {a : α} {a' : α'} (h : R a a') : Matches ρ R (pure a) (pure a') :=
  fun _ _ hc => .ok h hc

theorem Matches.bind {p : ParseM α} {p' : ParseM α'} {f : α → ParseM β} {f' : α' → ParseM β'}
    (hp : Matches ρ R p p') (hf : ∀ {a a'}, R a a' → Matches ρ S (f a) (f' a')) :
    Matches ρ S (p >>= f) (p' >>= f') := by
  intro c c' hc
  have hrun := hp c c' hc
  show OutcomesMatch ρ S (EStateM.bind p f c) (EStateM.bind p' f' c')
  unfold EStateM.bind
  generalize p c = r at hrun ⊢
  generalize p' c' = r' at hrun ⊢
  cases hrun with
  | ok ha hc₁ => exact hf ha _ _ hc₁
  | error he => exact .error he

theorem Matches.get {f : Cursor → ParseM β} {f' : Cursor → ParseM β'}
    (h : ∀ {c c'}, Cursor.Matches ρ c c' → Matches ρ S (f c) (f' c')) :
    Matches ρ S (get >>= f) (get >>= f') :=
  fun c c' hc => h hc c c' hc

theorem Matches.unexpected : Matches ρ R unexpected unexpected :=
  fun _ _ hc => .error ⟨congrArg Cause.unexpectedToken hc.current.value_eq, hc.current.start⟩

theorem Matches.detailed (message : String) : Matches ρ R (detailed message) (detailed message) :=
  fun _ _ hc => .error ⟨congrArg (Cause.unexpectedTokenDetailed · message) hc.current.value_eq,
    hc.current.start⟩

theorem Matches.tooDeep : Matches ρ R tooDeep tooDeep :=
  fun _ _ hc => .error ⟨congrArg Cause.nestingTooDeep hc.limit_eq, hc.current.start⟩

theorem advance_matches : Matches ρ (Token.Matches ρ) advance advance :=
  fun _ _ hc => .ok hc.advance.1 hc.advance.2

theorem nested_matches {p : ParseM α} {p' : ParseM α'} (h : Matches ρ R p p') :
    Matches ρ R (nested p) (nested p') := by
  intro c c' hc
  unfold nested Cursor.enter?
  by_cases hdeep : c'.limit ≤ c'.depth
  · have hdeep' : c.limit ≤ c.depth := by rwa [hc.limit_eq, hc.depth_eq]
    simp only [hdeep, hdeep', ite_true]
    exact .error ⟨congrArg Cause.nestingTooDeep hc.limit_eq, hc.current.start⟩
  · have hdeep' : ¬ c.limit ≤ c.depth := by rwa [hc.limit_eq, hc.depth_eq]
    have hinner : Cursor.Matches ρ { c with depth := c.depth + 1 }
        { c' with depth := c'.depth + 1 } :=
      ⟨hc.current, hc.ahead, congrArg (· + 1) hc.depth_eq, hc.limit_eq⟩
    have hrun := h _ _ hinner
    simp only [hdeep, hdeep', ite_false]
    generalize p _ = r at hrun ⊢
    generalize p' _ = r' at hrun ⊢
    cases hrun with
    | ok ha hd =>
      exact .ok ha ⟨hd.current, hd.ahead, congrArg (· - 1) hd.depth_eq, hd.limit_eq⟩
    | error he => exact .error he

end ParseM

/-! ## Trees -/

/-- Types that match go on as unions of matching atoms, or neither does. -/
theorem TypeExpr.members?_matches {t t' : TypeExpr} (ht : t.Matches ρ anyName t') :
    Option.Rel (List.Forall₂ (MatchesAtom ρ anyName)) t.members? t'.members? := by
  cases t with
  | atom a =>
    obtain ⟨a', rfl, ha⟩ := ht
    exact .some (.cons ha .nil)
  | union atoms s =>
    obtain ⟨atoms', s', rfl, hatoms, -⟩ := ht
    exact .some (matchesAtoms_iff.mp hatoms)
  | name | number | string => obtain ⟨s', rfl, -⟩ := ht; exact .none
  | tuple | record | access => obtain ⟨_, s', rfl, -⟩ := ht; exact .none
  | function => obtain ⟨_, _, s', rfl, -⟩ := ht; exact .none

theorem Expr.matchesOptional_of_rel {v v' : Option Expr}
    (h : Option.Rel (Expr.Matches ρ anyName) v v') : MatchesOptional ρ anyName v v' := by
  cases h with
  | none => rfl
  | some he => exact ⟨_, rfl, he⟩

/-- Only the starts of spans have to correspond. -/
def Likeness.matching (ρ : Position → Position → Prop) : Likeness where
  cursor := Cursor.Matches ρ
  token := Token.Matches ρ
  span s s' := ρ s.start s'.start
  type := TypeExpr.Matches ρ anyName
  atom := TypeExpr.MatchesAtom ρ anyName
  parameter := Parameter.Matches ρ anyName
  expr := Expr.Matches ρ anyName
  assignment := Stmt.MatchesAssignment ρ anyName
  stmt := Stmt.Matches ρ anyName
  current h := h.current
  peekKind_eq h := h.peekKind_eq
  remaining_eq h := h.remaining_eq
  spanFrom _ hs := hs
  kind_eq h := h.kind_eq
  value_eq h := h.value_eq
  span_of h := h.start
  types :=
    { span_of h := h.start
      name _ _ _ hs := ⟨_, rfl, rfl, hs⟩
      number hs := ⟨_, rfl, hs⟩
      string hs := ⟨_, rfl, hs⟩
      tuple hts hs := ⟨_, _, rfl, TypeExpr.matchesEach_iff.mpr hts, hs⟩
      record hes hs := ⟨_, _, rfl, TypeExpr.matchesEntries_iff.mpr hes, hs⟩
      access _ _ _ ht hs := ⟨_, _, rfl, ht, hs⟩
      function hps ht hs := ⟨_, _, _, rfl, TypeExpr.matchesEach_iff.mpr hps, ht, hs⟩
      node _ _ _ _ _ hts hs := ⟨_, _, rfl, TypeExpr.matchesEach_iff.mpr hts, hs⟩
      atom ha := ⟨_, rfl, ha⟩
      union has hs := ⟨_, _, rfl, TypeExpr.matchesAtoms_iff.mpr has, hs⟩
      members? h := TypeExpr.members?_matches h }
  exprs :=
    { span_of h := h.start
      parameter _ _ _ _ _ hd hs := ⟨rfl, rfl, hd, hs⟩
      tuple hes hs := ⟨_, _, rfl, Expr.matchesEach_iff.mpr hes, hs⟩
      record hes hs := ⟨_, _, rfl, Expr.matchesEntries_iff.mpr hes, hs⟩
      access _ _ _ he hs := ⟨_, _, rfl, he, hs⟩
      function hps hb hs := ⟨_, _, _, rfl, hps, hb, hs⟩
      call he hes hs := ⟨_, _, _, rfl, he, Expr.matchesEach_iff.mpr hes, hs⟩
      importFile _ _ _ hs := ⟨_, rfl, hs⟩
      atom _ _ _ _ _ hes hs := ⟨_, _, rfl, Expr.matchesEach_iff.mpr hes, hs⟩ }
  stmts :=
    { assignment _ _ _ _ _ _ _ hd hv hs :=
        ⟨_, _, _, rfl, rfl, hd, Expr.matchesOptional_of_rel hv, hs⟩
      assign ha := ⟨_, rfl, ha⟩
      exported ha hs := ⟨_, _, rfl, ha, hs⟩
      expr he := ⟨_, rfl, he⟩
      block hss hs := ⟨_, _, rfl, Stmt.matchesEach_iff.mpr hss, hs⟩ }

theorem Expr.parsePrimary_matches :
    ParseM.Matches ρ (Matches ρ anyName) parsePrimary parsePrimary := by
  refine .get fun {c c'} hc => ?_
  have ht := hc.current
  dsimp only
  rw [ht.kind_eq, ht.value_eq]
  split
  · split
    · exact fun _ _ _ => .error ⟨rfl, ht.start⟩
    · exact ParseM.advance_matches.bind fun _ => .pure ⟨_, rfl, ht.start⟩
  · exact ParseM.advance_matches.bind fun _ => .pure ⟨_, rfl, rfl, ht.start⟩
  · exact ParseM.advance_matches.bind fun _ => .pure ⟨_, rfl, ht.start⟩
  · exact .unexpected

theorem ParseM.matches_likens : Likens (.matching ρ) fun _ R => ParseM.Matches ρ R where
  pure := .pure
  bind := .bind
  get := .get
  unexpected := .unexpected
  detailed := .detailed
  advance := advance_matches
  primary := Expr.parsePrimary_matches

/-! ## Levels of nesting -/

theorem TypeExpr.parseAt_matches : ∀ (levels : Nat) (power : Power),
    ParseM.Matches ρ (Matches ρ anyName) (parseAt levels power) (parseAt levels power)
  | 0, _ => .tooDeep
  | levels + 1, power => by
    have htype := parseAt_matches levels .default
    exact ParseM.nested_matches (parseBody_alike ParseM.matches_likens htype power)

theorem TypeExpr.parse_matches (power : Power) :
    ParseM.Matches ρ (Matches ρ anyName) (parse power) (parse power) := by
  refine .get fun hc => ?_
  rw [hc.limit_eq, hc.depth_eq]
  exact parseAt_matches _ power

theorem Grammar.ofLevels_matches : ∀ levels : Nat,
    Grammar.Alike (.matching ρ) (fun _ R => ParseM.Matches ρ R) (.ofLevels levels)
      (.ofLevels levels)
  | 0 => ⟨.tooDeep, .tooDeep, .tooDeep⟩
  | levels + 1 => by
    have hg := Grammar.ofLevels_matches levels
    exact ⟨ParseM.nested_matches (Expr.parseBody_alike ParseM.matches_likens hg .default),
      TypeExpr.parseAt_matches (levels + 1) .default,
      ParseM.nested_matches (Stmt.parseBlockBody_alike ParseM.matches_likens hg)⟩

/-! ## Programs -/

theorem Stmt.parseAll_matches :
    ParseM.Matches ρ (List.Forall₂ (Stmt.Matches ρ anyName)) Stmt.parseAll Stmt.parseAll := by
  refine .get fun {c c'} hc => ?_
  rw [hc.limit_eq, hc.depth_eq]
  refine ParseM.matches_likens.remaining fun n => ?_
  exact parseUntil_alike ParseM.matches_likens (Grammar.ofLevels_matches _) _ n .nil

theorem getLast_rel {α β : Type} {R : α → β → Prop} {as : List α} {bs : List β}
    (h : List.Forall₂ R as bs) : ∀ (has : as ≠ []) (hbs : bs ≠ []),
      R (as.getLast has) (bs.getLast hbs) := by
  induction h with
  | nil => exact fun has => absurd rfl has
  | cons hab hrest ih =>
    cases hrest with
    | nil => exact fun _ _ => hab
    | cons => exact fun _ _ => ih (by simp) (by simp)

theorem Cursor.ofTokens_matches {ts ts' : List Token} (h : List.Forall₂ (Token.Matches ρ) ts ts')
    (hends : ∃ t ∈ ts.getLast?, t.kind = .eof) (file file' : String) (limit : Nat) :
    (ofTokens ts file limit).Matches ρ (ofTokens ts' file' limit) := by
  cases h with
  | nil =>
    obtain ⟨t, ht, -⟩ := hends
    cases ht
  | @cons t t' ts ts' ht hts =>
    have hlast := getLast_rel (.cons ht hts) (by simp) (by simp)
    have heof : ((t :: ts).getLast (by simp)).kind = .eof := by
      obtain ⟨last, hmem, hkind⟩ := hends
      rw [List.getLast?_eq_some_getLast (by simp)] at hmem
      rwa [Option.some.inj hmem]
    have heof' : ((t' :: ts').getLast (by simp)).kind = .eof := hlast.kind_eq ▸ heof
    unfold ofTokens
    dsimp only
    rw [if_pos heof, if_pos heof', List.append_nil, List.append_nil]
    exact ⟨ht, hts, rfl, rfl⟩

end

section
variable {E : Error → Error → Prop}

theorem Error.Matches.related {e e' : Error} (h : e.Matches (placesOf E) e') : E e e' := by
  obtain ⟨cause, position⟩ := e
  obtain ⟨cause', position'⟩ := e'
  obtain ⟨rfl, hposition⟩ := h
  exact hposition cause

theorem parseTokens_alike {ts ts' : List Token}
    (h : List.Forall₂ (Token.Matches (placesOf E)) ts ts')
    (hends : ∃ t ∈ ts.getLast?, t.kind = .eof)
    {file file' : String} (hstart : placesOf E (.at 0 file) (.at 0 file')) (maxDepth : Nat) :
    ParsedAlike E anyName (some (parseTokens ts file maxDepth))
      (some (parseTokens ts' file' maxDepth)) := by
  have hrun := Stmt.parseAll_matches _ _ (Cursor.ofTokens_matches h hends file file' maxDepth)
  unfold parseTokens
  generalize Stmt.parseAll (Cursor.ofTokens ts file maxDepth) = r at hrun ⊢
  generalize Stmt.parseAll (Cursor.ofTokens ts' file' maxDepth) = r' at hrun ⊢
  cases hrun with
  | ok hbody _ => exact .parsed ⟨_, _, rfl, Stmt.matchesEach_iff.mpr hbody, hstart⟩
  | error he => exact .unparsable he.related

/-! ## Texts -/

/-- The texts are cut into tokens that match, or neither can be cut. -/
inductive CutAlike (E : Error → Error → Prop) :
    Except Error (List Token) → Except Error (List Token) → Prop
  | ok {ts ts' : List Token} : List.Forall₂ (Token.Matches (placesOf E)) ts ts' →
    CutAlike E (.ok ts) (.ok ts')
  | error {e e' : Error} : E e e' → CutAlike E (.error e) (.error e')

theorem parseSource_alike {text text' file file' : String}
    (h : CutAlike E (tokenize text (some file)) (tokenize text' (some file')))
    (hstart : placesOf E (.at 0 file) (.at 0 file')) (maxDepth : Nat) :
    ParsedAlike E anyName (some (parseSource text file maxDepth))
      (some (parseSource text' file' maxDepth)) := by
  have hends : ∀ {ts : List Token}, tokenize text (some file) = .ok ts →
      ∃ t ∈ ts.getLast?, t.kind = .eof := (tokensAt_lexes file 0 text.toList).ends
  unfold parseSource
  generalize tokenize text (some file) = r at h hends ⊢
  generalize tokenize text' (some file') = r' at h ⊢
  cases h with
  | ok hts => exact parseTokens_alike hts (hends rfl) hstart maxDepth
  | error he => exact .unparsable he

/-- A text that stands in another file is cut in the same way. -/
theorem tokensAt_alike {file file' : String}
    (h : ∀ n, placesOf E (.at n file) (.at n file')) (offset : Nat) (cs : List Char) :
    CutAlike E (tokensAt file offset cs) (tokensAt file' offset cs) := by
  have hlexes := tokensAt_lexes file offset cs
  generalize tokensAt file offset cs = r at hlexes ⊢
  induction hlexes with
  | eof =>
    rw [tokensAt]
    exact .ok (.cons ⟨rfl, rfl, h _⟩ .nil)
  | unrecognised hl =>
    rw [tokensAt, hl]
    exact .error (h _ _)
  | failing hl _ ih =>
    rw [tokensAt, hl]
    dsimp only
    generalize tokensAt file' _ _ = r' at ih ⊢
    cases ih with
    | error he => exact .error he
  | blank hl _ ih =>
    rw [tokensAt, hl]
    dsimp only
    generalize tokensAt file' _ _ = r' at ih ⊢
    cases ih with
    | ok hts => exact .ok hts
  | token hl _ ih =>
    rw [tokensAt, hl]
    dsimp only
    generalize tokensAt file' _ _ = r' at ih ⊢
    cases ih with
    | ok hts => exact .ok (.cons ⟨rfl, rfl, h _⟩ hts)

end

end ShapeCheck
