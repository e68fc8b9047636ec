import ShapeCheck.Parse.Program
import ShapeCheck.Proofs.Matching

/-!
# Parsers make like of like

A parser looks at the tokens, leaves tokens behind and fails, one step after another, and builds
trees from what the parsers of the parts of its phrase yield. It looks at kinds and values of tokens
and passes spans on. So if a notion of likeness for tokens, spans and trees is kept by the
constructors, and a relation between parsers holds of the single steps, is closed under sequencing
and knows that what is yielded is alike, then the relation holds of the parsers of every phrase, as
soon as it holds of the parsers of its parts.
-/

namespace ShapeCheck

/-! ## Likeness -/

section
variable (σ : Span → Span → Prop) (T : TypeExpr → TypeExpr → Prop)
  (N : AtomNode TypeExpr → AtomNode TypeExpr → Prop) (P : Parameter → Parameter → Prop)
  (E : Expr → Expr → Prop) (D : Assignment Expr → Assignment Expr → Prop) (S : Stmt → Stmt → Prop)

structure TypeExpr.Likens : Prop where
  span_of : ∀ {t t'}, T t t' → σ t.span t'.span
  name : ∀ x {s s'}, σ s s' → T (.name x s) (.name x s')
  number : ∀ {s s'}, σ s s' → T (.number s) (.number s')
  string : ∀ {s s'}, σ s s' → T (.string s) (.string s')
  tuple : ∀ {ts ts' s s'}, List.Forall₂ T ts ts' → σ s s' → T (.tuple ts s) (.tuple ts' s')
  record : ∀ {es es' s s'}, List.Forall₂ (EntryMatches T) es es' → σ s s' →
    T (.record es s) (.record es' s')
  access : ∀ {t t'} x {s s'}, T t t' → σ s s' → T (.access t x s) (.access t' x s')
  function : ∀ {ps ps' t t' s s'}, List.Forall₂ T ps ps' → T t t' → σ s s' →
    T (.function ps t s) (.function ps' t' s')
  node : ∀ x {ts ts' s s'}, List.Forall₂ T ts ts' → σ s s' → N ⟨x, ts, s⟩ ⟨x, ts', s'⟩
  atom : ∀ {a a'}, N a a' → T (.atom a) (.atom a')
  union : ∀ {as as' s s'}, List.Forall₂ N as as' → σ s s' → T (.union as s) (.union as' s')
  members? : ∀ {t t'}, T t t' → Option.Rel (List.Forall₂ N) t.members? t'.members?

/-- The forms that are single tokens are left out. -/
structure Expr.Likens : Prop where
  span_of : ∀ {e e'}, E e e' → σ e.span e'.span
  parameter : ∀ x {d d' s s'}, Option.Rel T d d' → σ s s' → P ⟨x, d, s⟩ ⟨x, d', s'⟩
  tuple : ∀ {es es' s s'}, List.Forall₂ E es es' → σ s s' → E (.tuple es s) (.tuple es' s')
  record : ∀ {es es' s s'}, List.Forall₂ (EntryMatches E) es es' → σ s s' →
    E (.record es s) (.record es' s')
  access : ∀ {e e'} x {s s'}, E e e' → σ s s' → E (.access e x s) (.access e' x s')
  function : ∀ {ps ps' b b' s s'}, List.Forall₂ P ps ps' → S b b' → σ s s' →
    E (.function ps b s) (.function ps' b' s')
  call : ∀ {e e' es es' s s'}, E e e' → List.Forall₂ E es es' → σ s s' →
    E (.call e es s) (.call e' es' s')
  importFile : ∀ path {s s'}, σ s s' → E (.importFile path s) (.importFile path s')
  atom : ∀ x {es es' s s'}, List.Forall₂ E es es' → σ s s' → E (.atom x es s) (.atom x es' s')

structure Stmt.Likens : Prop where
  assignment : ∀ x {d d' v v' s s'}, Option.Rel T d d' → Option.Rel E v v' → σ s s' →
    D ⟨x, d, v, s⟩ ⟨x, d', v', s'⟩
  assign : ∀ {a a'}, D a a' → S (.assign a) (.assign a')
  exported : ∀ {a a' s s'}, D a a' → σ s s' → S (.exported a s) (.exported a' s')
  expr : ∀ {e e'}, E e e' → S (.expr e) (.expr e')
  block : ∀ {ss ss' s s'}, List.Forall₂ S ss ss' → σ s s' → S (.block ss s) (.block ss' s')

end

structure Likeness where
  cursor : Cursor → Cursor → Prop
  token : Token → Token → Prop
  span : Span → Span → Prop
  type : TypeExpr → TypeExpr → Prop
  atom : AtomNode TypeExpr → AtomNode TypeExpr → Prop
  parameter : Parameter → Parameter → Prop
  expr : Expr → Expr → Prop
  assignment : Assignment Expr → Assignment Expr → Prop
  stmt : Stmt → Stmt → Prop
  current : ∀ {c c'}, cursor c c' → token c.current c'.current
  peekKind_eq : ∀ {c c'}, cursor c c' → ∀ n, c.peekKind n = c'.peekKind n
  remaining_eq : ∀ {c c'}, cursor c c' → c.ahead.length = c'.ahead.length
  spanFrom : ∀ {c c' s s'}, cursor c c' → span s s' →
    span (c.spanFrom s.start) (c'.spanFrom s'.start)
  kind_eq : ∀ {t t'}, token t t' → t.kind = t'.kind
  value_eq : ∀ {t t'}, token t t' → t.value = t'.value
  span_of : ∀ {t t'}, token t t' → span t.span t'.span
  types : TypeExpr.Likens span type atom
  exprs : Expr.Likens span type parameter expr stmt
  stmts : Stmt.Likens span type expr assignment stmt

/-- A relation between parsers that each step is in. `J α R p p'` says among other things that `R`
relates what `p` and `p'` yield. Whether a numeral can be read is a matter of its text, so the
parser of single tokens counts as a step. -/
structure ParseM.Likens (A : Likeness)
    (J : (α : Type) → (α → α → Prop) → ParseM α → ParseM α → Prop) : Prop where
  pure : ∀ {α : Type} {R : α → α → Prop} {a a' : α}, R a a' → J α R (pure a) (pure a')
  bind : ∀ {α β : Type} {R : α → α → Prop} {S : β → β → Prop} {p p' : ParseM α}
    {f f' : α → ParseM β}, J α R p p' → (∀ {a a'}, R a a' → J β S (f a) (f' a')) →
      J β S (p >>= f) (p' >>= f')
  get : ∀ {α : Type} {R : α → α → Prop} {f f' : Cursor → ParseM α},
    (∀ {c c'}, A.cursor c c' → J α R (f c) (f' c')) → J α R (get >>= f) (get >>= f')
  unexpected : ∀ {α : Type} {R : α → α → Prop}, J α R unexpected unexpected
  detailed : ∀ {α : Type} {R : α → α → Prop} (message : String),
    J α R (detailed message) (detailed message)
  advance : J Token A.token advance advance
  primary : J Expr A.expr Expr.parsePrimary Expr.parsePrimary

/-- An entry of a record, given those before it, latest first. -/
def ParseM.entryOf {α : Type} (value : ParseM α) (earlier : List (String × α)) :
    ParseM (String × α) := do
  let name := (← get).current.value
  if earlier.any (·.1 = name) then detailed "duplicate record entry"
  let name ← expectOr .identifier "expected record entry name"
  let _ ← expect .colon
  return (name.value, ← value)

theorem any_name_eq {α : Type} {R : α → α → Prop} {earlier earlier' : List (String × α)}
    (h : List.Forall₂ (EntryMatches R) earlier earlier') (name : String) :
    (earlier.any fun e => decide (e.1 = name)) = earlier'.any fun e => decide (e.1 = name) := by
  induction h with
  | nil => rfl
  | cons he _ ih => rw [List.any_cons, List.any_cons, he.1, ih]

section
variable {A : Likeness} {J : (α : Type) → (α → α → Prop) → ParseM α → ParseM α → Prop}
  (hJ : ParseM.Likens A J)
variable {α : Type} {R : α → α → Prop}
include hJ

/-! ## Steps -/

namespace ParseM.Likens

theorem kind {f f' : TokenKind → ParseM α} (h : ∀ k, J α R (f k) (f' k)) :
    J α R (ParseM.kind >>= f) (ParseM.kind >>= f') := by
  refine hJ.get fun {c c'} hc => ?_
  have hkind : c.kind = c'.kind := A.kind_eq (A.current hc)
  rw [hkind]
  exact h c'.kind

theorem remaining {f f' : Nat → ParseM α} (h : ∀ n, J α R (f n) (f' n)) :
    J α R (ParseM.remaining >>= f) (ParseM.remaining >>= f') := by
  refine hJ.get fun {c c'} hc => ?_
  rw [A.remaining_eq hc]
  exact h _

theorem spanFrom {s s' : Span} {f f' : Span → ParseM α} (hs : A.span s s')
    (h : ∀ {s s'}, A.span s s' → J α R (f s) (f' s')) :
    J α R (ParseM.spanFrom s.start >>= f) (ParseM.spanFrom s'.start >>= f') :=
  hJ.get fun hc => h (A.spanFrom hc hs)

theorem expect (k : TokenKind) : J Token A.token (ParseM.expect k) (ParseM.expect k) := by
  refine hJ.kind fun k' => ?_
  split
  · exact hJ.advance
  · exact hJ.unexpected

theorem expectOr (k : TokenKind) (message : String) :
    J Token A.token (ParseM.expectOr k message) (ParseM.expectOr k message) := by
  refine hJ.kind fun k' => ?_
  split
  · exact hJ.advance
  · exact hJ.detailed message

theorem skip (k : TokenKind) : J Unit Eq (ParseM.skip k) (ParseM.skip k) := by
  refine hJ.kind fun k' => ?_
  split
  · exact hJ.bind hJ.advance fun _ => hJ.pure rfl
  · exact hJ.pure rfl

theorem entryName : J String Eq ParseM.entryName ParseM.entryName := by
  refine hJ.bind hJ.advance fun _ => ?_
  exact hJ.bind (hJ.expectOr .identifier _) fun ht => hJ.pure (A.value_eq ht)

/-! ### Lists -/

theorem items (closing : TokenKind) {item item' : List α → ParseM α}
    (h : ∀ {earlier earlier'}, List.Forall₂ R earlier earlier' →
      J α R (item earlier) (item' earlier')) :
    ∀ (n : Nat) {earlier earlier' : List α}, List.Forall₂ R earlier earlier' →
      J _ (List.Forall₂ R) (ParseM.items closing item n earlier)
        (ParseM.items closing item' n earlier')
  | 0, _, _, hearlier => hJ.pure (List.rel_reverse hearlier)
  | n + 1, _, _, hearlier => by
    refine hJ.kind fun k => ?_
    split
    · exact hJ.pure (List.rel_reverse hearlier)
    · refine hJ.bind (h hearlier) fun ha => hJ.kind fun k' => ?_
      split
      · exact hJ.bind hJ.advance fun _ => items closing h n (.cons ha hearlier)
      · exact hJ.pure (List.rel_reverse (.cons ha hearlier))

theorem commaList (closing : TokenKind) {item item' : List α → ParseM α}
    (h : ∀ {earlier earlier'}, List.Forall₂ R earlier earlier' →
      J α R (item earlier) (item' earlier')) :
    J _ (List.Forall₂ R) (ParseM.commaList closing item) (ParseM.commaList closing item') := by
  refine hJ.remaining fun n => ?_
  refine hJ.bind (hJ.items closing h n .nil) fun has => ?_
  exact hJ.bind (hJ.expect closing) fun _ => hJ.pure has

section
variable {p p' : ParseM α} (h : J α R p p')
include h

theorem entryOf {earlier earlier' : List (String × α)}
    (hearlier : List.Forall₂ (EntryMatches R) earlier earlier') :
    J _ (EntryMatches R) (ParseM.entryOf p earlier) (ParseM.entryOf p' earlier') := by
  refine hJ.get fun {c c'} hc => ?_
  have hentry : J (String × α) (EntryMatches R)
      (do
        let name ← ParseM.expectOr .identifier "expected record entry name"
        let _ ← ParseM.expect .colon
        return (name.value, ← p))
      (do
        let name ← ParseM.expectOr .identifier "expected record entry name"
        let _ ← ParseM.expect .colon
        return (name.value, ← p')) := by
    refine hJ.bind (hJ.expectOr .identifier _) fun ht => ?_
    refine hJ.bind (hJ.expect .colon) fun _ => ?_
    exact hJ.bind h fun ha => hJ.pure ⟨A.value_eq ht, ha⟩
  dsimp only
  rw [A.value_eq (A.current hc), any_name_eq hearlier]
  split
  · exact hJ.bind (R := Eq) (hJ.detailed _) fun _ => hentry
  · exact hentry

theorem entries : J _ (List.Forall₂ (EntryMatches R)) (ParseM.entries p) (ParseM.entries p') := by
  refine hJ.bind (hJ.skip .percent) fun _ => ?_
  refine hJ.bind (hJ.expect .openCurly) fun _ => ?_
  exact hJ.commaList .closeCurly (hJ.entryOf h)

theorem arguments : J _ (List.Forall₂ R) (ParseM.arguments p) (ParseM.arguments p') := by
  refine hJ.kind fun k => ?_
  split
  · exact hJ.bind hJ.advance fun _ => hJ.commaList .closeParen fun _ => h
  · exact hJ.pure .nil

theorem declaredType : J _ (Option.Rel R) (ParseM.declaredType p) (ParseM.declaredType p') := by
  refine hJ.kind fun k => ?_
  split
  · exact hJ.bind hJ.advance fun _ => hJ.bind h fun ht => hJ.pure (.some ht)
  · exact hJ.pure .none

end

end ParseM.Likens

/-! ## Types -/

namespace TypeExpr

theorem parseSymbol_alike : J _ A.type parseSymbol parseSymbol := by
  refine hJ.bind (hJ.expect .identifier) fun ht => hJ.pure ?_
  rw [A.value_eq ht]
  split
  · exact A.types.number (A.span_of ht)
  · split
    · exact A.types.string (A.span_of ht)
    · exact A.types.name _ (A.span_of ht)

section
variable {type type' : ParseM TypeExpr} (h : J _ A.type type type')
include h

theorem parseTuple_alike : J _ A.type (parseTuple type) (parseTuple type') := by
  refine hJ.bind hJ.advance fun ht => ?_
  refine hJ.bind (hJ.commaList .closeBracket fun _ => h) fun hitems => ?_
  exact hJ.spanFrom (A.span_of ht) fun hs => hJ.pure (A.types.tuple hitems hs)

theorem parseRecord_alike : J _ A.type (parseRecord type) (parseRecord type') := by
  refine hJ.get fun hc => ?_
  refine hJ.bind (hJ.entries h) fun hentries => ?_
  exact hJ.spanFrom (A.span_of (A.current hc)) fun hs => hJ.pure (A.types.record hentries hs)

theorem parseFunctionParameter_alike :
    J _ A.type (parseFunctionParameter type) (parseFunctionParameter type') := by
  refine hJ.get fun {c c'} hc => ?_
  have hkind : c.kind = c'.kind := A.kind_eq (A.current hc)
  rw [hkind, A.peekKind_eq hc]
  split
  · exact hJ.bind hJ.advance fun _ => hJ.bind hJ.advance fun _ => h
  · exact h

theorem parseFunction_alike : J _ A.type (parseFunction type) (parseFunction type') := by
  have hparameter := parseFunctionParameter_alike hJ h
  refine hJ.bind hJ.advance fun ht => ?_
  refine hJ.bind (hJ.commaList .closeParen fun _ => hparameter) fun hparameters => ?_
  refine hJ.bind h fun hresult => ?_
  exact hJ.spanFrom (A.span_of ht) fun hs => hJ.pure (A.types.function hparameters hresult hs)

theorem parseAtomNode_alike : J _ A.atom (parseAtomNode type) (parseAtomNode type') := by
  refine hJ.bind (hJ.expectOr .atom _) fun ht => ?_
  refine hJ.bind (hJ.arguments h) fun harguments => ?_
  rw [A.value_eq ht]
  exact hJ.spanFrom (A.span_of ht) fun hs => hJ.pure (A.types.node _ harguments hs)

theorem parseStart_alike (rule : TypeStart) :
    J _ A.type (parseStart type rule) (parseStart type' rule) := by
  cases rule with
  | symbol => exact parseSymbol_alike hJ
  | tuple => exact parseTuple_alike hJ h
  | record => exact parseRecord_alike hJ h
  | function => exact parseFunction_alike hJ h
  | atom => exact hJ.bind (parseAtomNode_alike hJ h) fun ha => hJ.pure (A.types.atom ha)

section
variable {left left' : TypeExpr} (hleft : A.type left left')
include hleft

theorem parseUnion_alike : J _ A.type (parseUnion type left) (parseUnion type' left') := by
  have hmembers := A.types.members? hleft
  unfold parseUnion
  generalize left.members? = o at hmembers ⊢
  generalize left'.members? = o' at hmembers ⊢
  cases hmembers with
  | none => exact hJ.detailed _
  | some hatoms =>
    refine hJ.bind hJ.advance fun _ => ?_
    refine hJ.bind (parseAtomNode_alike hJ h) fun ha => ?_
    refine hJ.spanFrom (A.types.span_of hleft) fun hs => hJ.pure ?_
    exact A.types.union (List.rel_append hatoms (.cons ha .nil)) hs

theorem parseFollow_alike (rule : TypeFollow) :
    J _ A.type (parseFollow type left rule) (parseFollow type' left' rule) := by
  cases rule with
  | union => exact parseUnion_alike hJ h hleft
  | access =>
    refine hJ.bind hJ.entryName fun {x x'} hx => ?_
    subst hx
    exact hJ.spanFrom (A.types.span_of hleft) fun hs => hJ.pure (A.types.access x hleft hs)

end

theorem parseFollows_alike (power : Power) : ∀ (n : Nat) {left left' : TypeExpr},
    A.type left left' →
      J _ A.type (parseFollows type power n left) (parseFollows type' power n left')
  | 0, _, _, hleft => hJ.pure hleft
  | n + 1, _, _, hleft => by
    refine hJ.kind fun k => ?_
    split
    · exact hJ.pure hleft
    · cases TypeFollow.of? k with
      | none => exact hJ.unexpected
      | some rule =>
        exact hJ.bind (parseFollow_alike hJ h hleft rule) fun hnext =>
          parseFollows_alike power n hnext

theorem parseBody_alike (power : Power) :
    J _ A.type (parseBody type power) (parseBody type' power) := by
  refine hJ.kind fun k => ?_
  cases TypeStart.of? k with
  | none => exact hJ.unexpected
  | some rule =>
    refine hJ.bind (parseStart_alike hJ h rule) fun hleft => hJ.remaining fun n => ?_
    exact parseFollows_alike hJ h power n hleft

end

end TypeExpr

end

/-! ## Expressions -/

structure Grammar.Alike (A : Likeness)
    (J : (α : Type) → (α → α → Prop) → ParseM α → ParseM α → Prop) (g g' : Grammar) : Prop where
  expr : J Expr A.expr g.expr g'.expr
  type : J TypeExpr A.type g.type g'.type
  block : J Stmt A.stmt g.block g'.block

section
variable {A : Likeness} {J : (α : Type) → (α → α → Prop) → ParseM α → ParseM α → Prop}
  (hJ : ParseM.Likens A J)
variable {g g' : Grammar} (hg : Grammar.Alike A J g g')
include hJ

namespace Expr

theorem parseImport_alike : J _ A.expr parseImport parseImport := by
  refine hJ.bind hJ.advance fun ht => ?_
  refine hJ.bind (hJ.expect .openParen) fun _ => ?_
  refine hJ.bind (hJ.expectOr .string _) fun hpath => ?_
  refine hJ.bind (hJ.expect .closeParen) fun _ => ?_
  rw [A.value_eq hpath]
  exact hJ.spanFrom (A.span_of ht) fun hs => hJ.pure (A.exprs.importFile _ hs)

theorem parseAccess_alike {left left' : Expr} (hleft : A.expr left left') :
    J _ A.expr (parseAccess left) (parseAccess left') := by
  refine hJ.bind hJ.entryName fun {x x'} hx => ?_
  subst hx
  exact hJ.spanFrom (A.exprs.span_of hleft) fun hs => hJ.pure (A.exprs.access x hleft hs)

include hg

theorem parseTuple_alike : J _ A.expr (parseTuple g) (parseTuple g') := by
  refine hJ.bind hJ.advance fun ht => ?_
  refine hJ.bind (hJ.commaList .closeBracket fun _ => hg.expr) fun hitems => ?_
  exact hJ.spanFrom (A.span_of ht) fun hs => hJ.pure (A.exprs.tuple hitems hs)

theorem parseRecord_alike : J _ A.expr (parseRecord g) (parseRecord g') := by
  refine hJ.get fun hc => ?_
  refine hJ.bind (hJ.entries hg.expr) fun hentries => ?_
  exact hJ.spanFrom (A.span_of (A.current hc)) fun hs => hJ.pure (A.exprs.record hentries hs)

theorem parseAtom_alike : J _ A.expr (parseAtom g) (parseAtom g') := by
  refine hJ.bind hJ.advance fun ht => ?_
  refine hJ.bind (hJ.arguments hg.expr) fun harguments => ?_
  rw [A.value_eq ht]
  exact hJ.spanFrom (A.span_of ht) fun hs => hJ.pure (A.exprs.atom _ harguments hs)

theorem parseParameter_alike : J _ A.parameter (parseParameter g) (parseParameter g') := by
  refine hJ.bind (hJ.expectOr .identifier _) fun ht => ?_
  refine hJ.bind (hJ.declaredType hg.type) fun hdeclared => ?_
  rw [A.value_eq ht]
  exact hJ.spanFrom (A.span_of ht) fun hs => hJ.pure (A.exprs.parameter _ hdeclared hs)

theorem parseFunctionBody_alike : J _ A.stmt (parseFunctionBody g) (parseFunctionBody g') := by
  refine hJ.kind fun k => ?_
  split
  · exact hg.block
  · exact hJ.bind hg.expr fun he => hJ.pure (A.stmts.expr he)

theorem parseFunction_alike : J _ A.expr (parseFunction g) (parseFunction g') := by
  have hparameter := parseParameter_alike hJ hg
  refine hJ.bind hJ.advance fun ht => ?_
  refine hJ.bind (hJ.commaList .closeParen fun _ => hparameter) fun hparameters => ?_
  refine hJ.bind (parseFunctionBody_alike hJ hg) fun hbody => ?_
  exact hJ.spanFrom (A.span_of ht) fun hs => hJ.pure (A.exprs.function hparameters hbody hs)

theorem parseCall_alike {left left' : Expr} (hleft : A.expr left left') :
    J _ A.expr (parseCall g left) (parseCall g' left') := by
  refine hJ.bind hJ.advance fun _ => ?_
  refine hJ.bind (hJ.commaList .closeParen fun _ => hg.expr) fun harguments => ?_
  exact hJ.spanFrom (A.exprs.span_of hleft) fun hs => hJ.pure (A.exprs.call hleft harguments hs)

theorem parseStart_alike (rule : ExprStart) :
    J _ A.expr (parseStart g rule) (parseStart g' rule) := by
  cases rule with
  | primary => exact hJ.primary
  | tuple => exact parseTuple_alike hJ hg
  | record => exact parseRecord_alike hJ hg
  | atom => exact parseAtom_alike hJ hg
  | function => exact parseFunction_alike hJ hg
  | importFile => exact parseImport_alike hJ

theorem parseFollow_alike {left left' : Expr} (hleft : A.expr left left') (rule : ExprFollow) :
    J _ A.expr (parseFollow g left rule) (parseFollow g' left' rule) := by
  cases rule with
  | call => exact parseCall_alike hJ hg hleft
  | access => exact parseAccess_alike hJ hleft

theorem parseFollows_alike (power : Power) : ∀ (n : Nat) {left left' : Expr},
    A.expr left left' → J _ A.expr (parseFollows g power n left) (parseFollows g' power n left')
  | 0, _, _, hleft => hJ.pure hleft
  | n + 1, _, _, hleft => by
    refine hJ.kind fun k => ?_
    split
    · exact hJ.pure hleft
    · cases ExprFollow.of? k with
      | none => exact hJ.unexpected
      | some rule =>
        exact hJ.bind (parseFollow_alike hJ hg hleft rule) fun hnext =>
          parseFollows_alike power n hnext

theorem parseBody_alike (power : Power) : J _ A.expr (parseBody g power) (parseBody g' power) := by
  refine hJ.kind fun k => ?_
  cases ExprStart.of? k with
  | none => exact hJ.unexpected
  | some rule =>
    refine hJ.bind (parseStart_alike hJ hg rule) fun hleft => hJ.remaining fun n => ?_
    exact parseFollows_alike hJ hg power n hleft

end Expr

/-! ## Statements -/

namespace Stmt

include hg

theorem parseValue_alike (declared : Bool) :
    J _ (Option.Rel A.expr) (parseValue g declared) (parseValue g' declared) := by
  refine hJ.kind fun k => ?_
  split
  · exact hJ.bind hJ.advance fun _ => hJ.bind hg.expr fun he => hJ.pure (.some he)
  · split
    · exact hJ.pure .none
    · exact hJ.detailed _

theorem parseAssignment_alike : J _ A.assignment (parseAssignment g) (parseAssignment g') := by
  refine hJ.bind (hJ.expectOr .identifier _) fun ht => ?_
  refine hJ.bind (hJ.declaredType hg.type) fun {declared declared'} hdeclared => ?_
  have hsome : declared.isSome = declared'.isSome := by cases hdeclared <;> rfl
  rw [hsome, A.value_eq ht]
  refine hJ.bind (parseValue_alike hJ hg _) fun hvalue => ?_
  exact hJ.spanFrom (A.span_of ht) fun hs => hJ.pure (A.stmts.assignment _ hdeclared hvalue hs)

theorem parseIdentifier_alike : J _ A.stmt (parseIdentifier g) (parseIdentifier g') := by
  have hassign := hJ.bind (parseAssignment_alike hJ hg) fun ha => hJ.pure (A.stmts.assign ha)
  refine hJ.get fun hc => ?_
  rw [A.peekKind_eq hc]
  split
  · exact hassign
  · exact hassign
  · exact hJ.bind hg.expr fun he => hJ.pure (A.stmts.expr he)

theorem parseExport_alike : J _ A.stmt (parseExport g) (parseExport g') := by
  refine hJ.bind hJ.advance fun ht => hJ.kind fun k => ?_
  have hrest := hJ.bind (parseAssignment_alike hJ hg) fun ha =>
    hJ.spanFrom (A.span_of ht) fun hs => hJ.pure (A.stmts.exported ha hs)
  dsimp only
  split
  · exact hJ.bind (R := Eq) (hJ.detailed _) fun _ => hrest
  · exact hrest

theorem parseStart_alike (rule : StmtStart) :
    J _ A.stmt (parseStart g rule) (parseStart g' rule) := by
  cases rule with
  | identifier => exact parseIdentifier_alike hJ hg
  | exported => exact parseExport_alike hJ hg
  | block => exact hg.block

theorem parseOne_alike : J _ A.stmt (parseOne g) (parseOne g') := by
  have hskip {s s' : Stmt} (hs : A.stmt s s') :
      J _ A.stmt (do ParseM.skip .semicolon; return s) (do ParseM.skip .semicolon; return s') :=
    hJ.bind (hJ.skip .semicolon) fun _ => hJ.pure hs
  refine hJ.kind fun k => ?_
  cases StmtStart.of? k with
  | some rule => exact hJ.bind (parseStart_alike hJ hg rule) hskip
  | none =>
    have hexpr : J _ A.stmt (.expr <$> g.expr) (.expr <$> g'.expr) :=
      hJ.bind hg.expr fun he => hJ.pure (A.stmts.expr he)
    exact hJ.bind hexpr hskip

theorem parseUntil_alike (closing : TokenKind) : ∀ (n : Nat) {earlier earlier' : List Stmt},
    List.Forall₂ A.stmt earlier earlier' →
      J _ (List.Forall₂ A.stmt) (parseUntil g closing n earlier) (parseUntil g' closing n earlier')
  | 0, _, _, hearlier => hJ.pure (List.rel_reverse hearlier)
  | n + 1, _, _, hearlier => by
    refine hJ.kind fun k => ?_
    split
    · exact hJ.pure (List.rel_reverse hearlier)
    · have hnext := hJ.bind (parseOne_alike hJ hg) fun hs =>
        parseUntil_alike closing n (.cons hs hearlier)
      refine hJ.kind fun k' => ?_
      split
      · exact hJ.bind (R := Eq) (hJ.detailed _) fun _ => hnext
      · exact hnext

theorem parseBlockBody_alike : J _ A.stmt (parseBlockBody g) (parseBlockBody g') := by
  refine hJ.bind (hJ.expect .openCurly) fun ht => hJ.remaining fun n => ?_
  refine hJ.bind (parseUntil_alike hJ hg _ n .nil) fun hbody => ?_
  refine hJ.bind (hJ.expect .closeCurly) fun _ => ?_
  exact hJ.spanFrom (A.span_of ht) fun hs => hJ.pure (A.stmts.block hbody hs)

end Stmt

end

end ShapeCheck
