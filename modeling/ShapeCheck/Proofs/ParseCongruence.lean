import ShapeCheck.Proofs.Likeness

/-!
# Parsers are built from a few steps

Only the parsers of the parts of a phrase count levels. So a relation between parsers that each of
the other steps is in, and that is closed under sequencing, holds of the parsers of every phrase, as
soon as it holds of the parsers of its parts. Where the relation says that both yield the same, this
is likeness with equality for all that parsers yield.
-/

namespace ShapeCheck

/-- A relation between parsers that each step is in. What a step sees of the cursor is neither its
depth nor its limit. -/
structure ParseM.Congruence (J : (α : Type) → ParseM α → ParseM α → Prop) : Prop where
  pure : ∀ {α : Type} (a : α), J α (pure a) (pure a)
  bind : ∀ {α β : Type} {p p' : ParseM α} {f f' : α → ParseM β}, J α p p' →
    (∀ a, J β (f a) (f' a)) → J β (p >>= f) (p' >>= f')
  get : ∀ {α : Type} {f f' : Cursor → ParseM α},
    (∀ c depth limit, J α (f c) (f' { c with depth, limit })) → J α (get >>= f) (get >>= f')
  unexpected : ∀ {α : Type}, J α unexpected unexpected
  detailed : ∀ {α : Type} (message : String), J α (detailed message) (detailed message)
  advance : J Token advance advance
  primary : J Expr Expr.parsePrimary Expr.parsePrimary

/-- A relation that failing is in, whatever the error, holds of the parser of single tokens. -/
theorem ParseM.congruence_of_throw {J : (α : Type) → ParseM α → ParseM α → Prop}
    (hpure : ∀ {α : Type} (a : α), J α (pure a) (pure a))
    (hbind : ∀ {α β : Type} {p p' : ParseM α} {f f' : α → ParseM β}, J α p p' →
      (∀ a, J β (f a) (f' a)) → J β (p >>= f) (p' >>= f'))
    (hget : ∀ {α : Type} {f f' : Cursor → ParseM α},
      (∀ c depth limit, J α (f c) (f' { c with depth, limit })) → J α (get >>= f) (get >>= f'))
    (hthrow : ∀ {α : Type} (e : Error), J α (throw e) (throw e))
    (hadvance : J Token advance advance) : Congruence J where
  pure := hpure
  bind := hbind
  get := hget
  unexpected := hget fun c _ _ => hthrow c.unexpected
  detailed message := hget fun c _ _ => hthrow (c.detailed message)
  advance := hadvance
  primary := by
    refine hget fun c _ _ => ?_
    dsimp only
    split
    · split
      · exact hthrow _
      · exact hbind hadvance fun _ => hpure _
    · exact hbind hadvance fun _ => hpure _
    · exact hbind hadvance fun _ => hpure _
    · exact hget fun c _ _ => hthrow c.unexpected

/-! ## Sameness -/

theorem eq_of_forall₂ {α : Type} {as as' : List α} (h : List.Forall₂ Eq as as') : as = as' := by
  rwa [List.forall₂_eq_eq_eq] at h

theorem eq_of_entryMatches {α : Type} {e e' : String × α} (h : EntryMatches Eq e e') : e = e' :=
  Prod.ext h.1 h.2

theorem eq_of_entriesMatch {α : Type} {es es' : List (String × α)}
    (h : List.Forall₂ (EntryMatches Eq) es es') : es = es' :=
  eq_of_forall₂ (h.imp fun _ _ => eq_of_entryMatches)

theorem eq_of_optionRel {α : Type} {o o' : Option α} (h : Option.Rel Eq o o') : o = o' := by
  cases h with
  | none => rfl
  | some ha => rw [ha]

/-- Everything is the same, except for the depths and the limits of the cursors. -/
def Likeness.same : Likeness where
  cursor c c' := ∃ depth limit, c' = { c with depth, limit }
  token := Eq
  span := Eq
  type := Eq
  atom := Eq
  parameter := Eq
  expr := Eq
  assignment := Eq
  stmt := Eq
  current h := by obtain ⟨_, _, rfl⟩ := h; rfl
  peekKind_eq h _ := by obtain ⟨_, _, rfl⟩ := h; rfl
  remaining_eq h := by obtain ⟨_, _, rfl⟩ := h; rfl
  spanFrom h hs := by obtain ⟨_, _, rfl⟩ := h; rw [hs]; rfl
  kind_eq h := congrArg Token.kind h
  value_eq h := congrArg Token.value h
  span_of h := congrArg Token.span h
  types :=
    { span_of h := congrArg TypeExpr.span h
      name x _ _ h := congrArg (TypeExpr.name x) h
      number h := congrArg TypeExpr.number h
      string h := congrArg TypeExpr.string h
      tuple hts h := by rw [eq_of_forall₂ hts, h]
      record hes h := by rw [eq_of_entriesMatch hes, h]
      access x _ _ ht h := by rw [ht, h]
      function hps ht h := by rw [eq_of_forall₂ hps, ht, h]
      node x _ _ _ _ hts h := by rw [eq_of_forall₂ hts, h]
      atom h := congrArg TypeExpr.atom h
      union has h := by rw [eq_of_forall₂ has, h]
      members? h := by
        rw [h, List.forall₂_eq_eq_eq]
        cases TypeExpr.members? _ with
        | none => exact .none
        | some as => exact .some rfl }
  exprs :=
    { span_of h := congrArg Expr.span h
      parameter x _ _ _ _ hd h := by rw [eq_of_optionRel hd, h]
      tuple hes h := by rw [eq_of_forall₂ hes, h]
      record hes h := by rw [eq_of_entriesMatch hes, h]
      access x _ _ he h := by rw [he, h]
      function hps hb h := by rw [eq_of_forall₂ hps, hb, h]
      call he hes h := by rw [he, eq_of_forall₂ hes, h]
      importFile path _ _ h := congrArg (Expr.importFile path) h
      atom x _ _ _ _ hes h := by rw [eq_of_forall₂ hes, h] }
  stmts :=
    { assignment x _ _ _ _ _ _ hd hv h := by rw [eq_of_optionRel hd, eq_of_optionRel hv, h]
      assign h := congrArg Stmt.assign h
      exported ha h := by rw [ha, h]
      expr h := congrArg Stmt.expr h
      block hss h := by rw [eq_of_forall₂ hss, h] }

section
variable {J : (α : Type) → ParseM α → ParseM α → Prop} {α : Type}

/-- Followed by parsers that `J` relates whenever `R` relates what they are given, `p` and `p'` lead
to parsers that `J` relates. -/
def ParseM.Followed (J : (α : Type) → ParseM α → ParseM α → Prop) (α : Type) (R : α → α → Prop)
    (p p' : ParseM α) : Prop :=
  ∀ {β : Type} {f f' : α → ParseM β}, (∀ {a a'}, R a a' → J β (f a) (f' a')) →
    J β (p >>= f) (p' >>= f')

structure Grammar.Related (J : (α : Type) → ParseM α → ParseM α → Prop) (g g' : Grammar) :
    Prop where
  expr : J Expr g.expr g'.expr
  type : J TypeExpr g.type g'.type
  block : J Stmt g.block g'.block

variable (hJ : ParseM.Congruence J)
include hJ

namespace ParseM.Congruence

theorem likens : Likens .same (Followed J) where
  pure h _ _ _ hf := by
    rw [pure_bind, pure_bind]
    exact hf h
  bind hp hf _ _ _ hk := by
    rw [bind_assoc, bind_assoc]
    exact hp fun ha => hf ha hk
  get h _ _ _ hf := by
    rw [bind_assoc, bind_assoc]
    exact hJ.get fun _ depth limit => h ⟨depth, limit, rfl⟩ hf
  -- Nothing follows a failure.
  unexpected _ := hJ.unexpected
  detailed message _ _ _ _ := hJ.detailed message
  advance hf := hJ.bind hJ.advance fun _ => hf rfl
  primary hf := hJ.bind hJ.primary fun _ => hf rfl

theorem followed {p p' : ParseM α} (h : J α p p') : Followed J α Eq p p' :=
  fun hf => hJ.bind h fun _ => hf rfl

theorem of_followed {R : α → α → Prop} (hR : ∀ {a a'}, R a a' → a = a') {p p' : ParseM α}
    (h : Followed J α R p p') : J α p p' := by
  have hpure {a a' : α} (ha : R a a') : J α (Pure.pure a) (Pure.pure a') := by
    rw [hR ha]
    exact hJ.pure a'
  have hrun := h hpure
  rwa [bind_pure, bind_pure] at hrun

theorem alike {g g' : Grammar} (h : Grammar.Related J g g') : g.Alike .same (Followed J) g' :=
  ⟨hJ.followed h.expr, hJ.followed h.type, hJ.followed h.block⟩

/-! ## Steps -/

theorem remaining {f f' : Nat → ParseM α} (h : ∀ n, J α (f n) (f' n)) :
    J α (ParseM.remaining >>= f) (ParseM.remaining >>= f') :=
  hJ.get fun c _ _ => h (c.ahead.length + 1)

theorem commaList (closing : TokenKind) {item item' : List α → ParseM α}
    (h : ∀ earlier, J α (item earlier) (item' earlier)) :
    J _ (ParseM.commaList closing item) (ParseM.commaList closing item') := by
  refine hJ.of_followed eq_of_forall₂ (hJ.likens.commaList closing fun hearlier => ?_)
  rw [eq_of_forall₂ hearlier]
  exact hJ.followed (h _)

theorem entryOf {value value' : ParseM α} (h : J α value value') (earlier : List (String × α)) :
    J _ (ParseM.entryOf value earlier) (ParseM.entryOf value' earlier) := by
  refine hJ.of_followed eq_of_entryMatches (hJ.likens.entryOf (hJ.followed h) ?_)
  exact List.forall₂_same.mpr fun _ _ => ⟨rfl, rfl⟩

end ParseM.Congruence

/-! ## Phrases -/

section
variable {type type' : ParseM TypeExpr} (h : J TypeExpr type type')
include h

theorem TypeExpr.parseFunctionParameter_congr :
    J _ (parseFunctionParameter type) (parseFunctionParameter type') :=
  hJ.of_followed id (parseFunctionParameter_alike hJ.likens (hJ.followed h))

theorem TypeExpr.parseBody_congr (power : Power) :
    J _ (parseBody type power) (parseBody type' power) :=
  hJ.of_followed id (parseBody_alike hJ.likens (hJ.followed h) power)

end

section
variable {g g' : Grammar} (hg : Grammar.Related J g g')
include hg

theorem Expr.parseParameter_congr : J _ (parseParameter g) (parseParameter g') :=
  hJ.of_followed id (parseParameter_alike hJ.likens (hJ.alike hg))

theorem Expr.parseBody_congr (power : Power) : J _ (parseBody g power) (parseBody g' power) :=
  hJ.of_followed id (parseBody_alike hJ.likens (hJ.alike hg) power)

theorem Stmt.parseOne_congr : J _ (parseOne g) (parseOne g') :=
  hJ.of_followed id (parseOne_alike hJ.likens (hJ.alike hg))

theorem Stmt.parseUntil_congr (closing : TokenKind) (n : Nat) (earlier : List Stmt) :
    J _ (parseUntil g closing n earlier) (parseUntil g' closing n earlier) := by
  have hearlier : List.Forall₂ Eq earlier earlier := List.forall₂_same.mpr fun _ _ => rfl
  exact hJ.of_followed eq_of_forall₂
    (parseUntil_alike hJ.likens (hJ.alike hg) closing n hearlier)

theorem Stmt.parseBlockBody_congr : J _ (parseBlockBody g) (parseBlockBody g') :=
  hJ.of_followed id (parseBlockBody_alike hJ.likens (hJ.alike hg))

end

/-! ## Levels of nesting -/

variable (htooDeep : ∀ {α : Type} (p : ParseM α), J α ParseM.tooDeep p)
variable (hnested : ∀ {α : Type} {p p' : ParseM α}, J α p p' →
  J α (ParseM.nested p) (ParseM.nested p'))
include htooDeep hnested

theorem TypeExpr.parseAt_congr : ∀ {n n' : Nat}, n ≤ n' → ∀ power,
    J TypeExpr (parseAt n power) (parseAt n' power)
  | 0, _, _, _ => htooDeep _
  | n + 1, n' + 1, h, power => by
    have htype := parseAt_congr (Nat.le_of_succ_le_succ h) .default
    exact hnested (parseBody_congr hJ htype power)

/-- A relation that is kept one level deeper, and that holds where no level is left, holds of the
parsers of all phrases. -/
theorem Grammar.ofLevels_congr : ∀ {n n' : Nat}, n ≤ n' →
    Grammar.Related J (.ofLevels n) (.ofLevels n')
  | 0, _, _ => ⟨htooDeep _, htooDeep _, htooDeep _⟩
  | n + 1, n' + 1, h => by
    have hg := Grammar.ofLevels_congr (Nat.le_of_succ_le_succ h)
    exact ⟨hnested (Expr.parseBody_congr hJ hg .default),
      TypeExpr.parseAt_congr hJ htooDeep hnested h .default,
      hnested (Stmt.parseBlockBody_congr hJ hg)⟩

end

end ShapeCheck
