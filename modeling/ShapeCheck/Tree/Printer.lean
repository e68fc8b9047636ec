import ShapeCheck.Token
import ShapeCheck.Tree

/-!
# Trees as tokens

Every tree has one way to be written: a semicolon follows each statement, records open with `%`,
atoms have parentheses even where they hold nothing, no comma follows the last item of a list, and
the parameters of a function type have no names. The tokens stand nowhere in particular.

How a number is written is left open: `numeral` gives its text.
-/

namespace ShapeCheck

/-- The text of the kinds of tokens that have only one. -/
def TokenKind.text : TokenKind → String
  | eof => "EOF"
  | openBracket => "["
  | closeBracket => "]"
  | openCurly => "\x7b"
  | closeCurly => "\x7d"
  | openParen => "("
  | closeParen => ")"
  | assignment => "="
  | pipe => "|"
  | percent => "%"
  | dot => "."
  | semicolon => ";"
  | colon => ":"
  | comma => ","
  | importWord => "import"
  | exportWord => "export"
  | number | string | identifier | atom => ""

namespace Token

def word (kind : TokenKind) (value : String) : Token :=
  ⟨kind, value, default⟩

def mark (kind : TokenKind) : Token :=
  word kind kind.text

@[simp] theorem kind_word (kind : TokenKind) (value : String) : (word kind value).kind = kind := rfl

@[simp] theorem value_word (kind : TokenKind) (value : String) : (word kind value).value = value :=
  rfl

@[simp] theorem kind_mark (kind : TokenKind) : (mark kind).kind = kind := rfl

def separated (kind : TokenKind) : List (List Token) → List Token
  | [] => []
  | piece :: pieces => piece ++ pieces.flatMap (mark kind :: ·)

def entry (name : String) (piece : List Token) : List Token :=
  word .identifier name :: mark .colon :: piece

def listed (closing : TokenKind) (pieces : List (List Token)) : List Token :=
  separated .comma pieces ++ [mark closing]

end Token

open Token (word mark separated entry listed)

/-! ## Types -/

mutual
def TypeExpr.tokens : TypeExpr → List Token
  | .name x _ => [word .identifier x]
  | .number _ => [word .identifier "number"]
  | .string _ => [word .identifier "string"]
  | .tuple items _ => mark .openBracket :: listed .closeBracket (TypeExpr.tokensEach items)
  | .record entries _ =>
    mark .percent :: mark .openCurly :: listed .closeCurly (TypeExpr.tokensEntries entries)
  | .access t entry _ => TypeExpr.tokens t ++ [mark .dot, word .identifier entry]
  | .function parameters result _ =>
    mark .openParen :: listed .closeParen (TypeExpr.tokensEach parameters) ++ TypeExpr.tokens result
  | .atom a => TypeExpr.tokensAtom a
  | .union atoms _ => separated .pipe (TypeExpr.tokensAtoms atoms)
termination_by structural t => t
def TypeExpr.tokensEach : List TypeExpr → List (List Token)
  | [] => []
  | t :: ts => TypeExpr.tokens t :: TypeExpr.tokensEach ts
termination_by structural ts => ts
def TypeExpr.tokensEntries : List (String × TypeExpr) → List (List Token)
  | [] => []
  | (x, t) :: es => entry x (TypeExpr.tokens t) :: TypeExpr.tokensEntries es
termination_by structural es => es
def TypeExpr.tokensAtom : AtomNode TypeExpr → List Token
  | ⟨x, arguments, _⟩ =>
    word .atom x :: mark .openParen :: listed .closeParen (TypeExpr.tokensEach arguments)
termination_by structural a => a
def TypeExpr.tokensAtoms : List (AtomNode TypeExpr) → List (List Token)
  | [] => []
  | a :: as => TypeExpr.tokensAtom a :: TypeExpr.tokensAtoms as
termination_by structural as => as
end

def TypeExpr.tokensDeclared : Option TypeExpr → List Token
  | none => []
  | some t => mark .colon :: t.tokens

def Parameter.tokens (p : Parameter) : List Token :=
  word .identifier p.name :: TypeExpr.tokensDeclared p.declared

/-! ## Expressions and statements -/

section
variable (numeral : Binary64 → String)

mutual
def Expr.tokens : Expr → List Token
  | .name x _ => [word .identifier x]
  | .number value _ => [word .number (numeral value)]
  | .string value _ => [word .string value]
  | .tuple items _ => mark .openBracket :: listed .closeBracket (Expr.tokensEach items)
  | .record entries _ =>
    mark .percent :: mark .openCurly :: listed .closeCurly (Expr.tokensEntries entries)
  | .access e entry _ => Expr.tokens e ++ [mark .dot, word .identifier entry]
  | .function parameters body _ =>
    mark .openParen :: listed .closeParen (parameters.map Parameter.tokens) ++ Stmt.tokens body
  | .call callee arguments _ =>
    Expr.tokens callee ++ mark .openParen :: listed .closeParen (Expr.tokensEach arguments)
  | .importFile path _ =>
    [mark .importWord, mark .openParen, word .string path, mark .closeParen]
  | .atom x arguments _ =>
    word .atom x :: mark .openParen :: listed .closeParen (Expr.tokensEach arguments)
termination_by structural e => e
def Expr.tokensEach : List Expr → List (List Token)
  | [] => []
  | e :: es => Expr.tokens e :: Expr.tokensEach es
termination_by structural es => es
def Expr.tokensEntries : List (String × Expr) → List (List Token)
  | [] => []
  | (x, e) :: es => entry x (Expr.tokens e) :: Expr.tokensEntries es
termination_by structural es => es
def Expr.tokensValue : Option Expr → List Token
  | none => []
  | some e => mark .assignment :: Expr.tokens e
termination_by structural e => e
def Stmt.tokensAssignment : Assignment Expr → List Token
  | ⟨x, declared, value, _⟩ =>
    word .identifier x :: TypeExpr.tokensDeclared declared ++ Expr.tokensValue value
termination_by structural a => a
/-- A statement without the semicolon after it. -/
def Stmt.tokens : Stmt → List Token
  | .block body _ => mark .openCurly :: Stmt.tokensEach body ++ [mark .closeCurly]
  | .assign a => Stmt.tokensAssignment a
  | .exported a _ => mark .exportWord :: Stmt.tokensAssignment a
  | .expr e => Expr.tokens e
  | .type t => t.tokens
termination_by structural s => s
def Stmt.tokensEach : List Stmt → List Token
  | [] => []
  | s :: ss => Stmt.tokens s ++ mark .semicolon :: Stmt.tokensEach ss
termination_by structural ss => ss
end

/-- The tokens of a file with the given root. No braces stand around the root block. -/
def Stmt.print : Stmt → List Token
  | .block body _ => Stmt.tokensEach numeral body
  | s => s.tokens numeral

end

/-! ## Trees without places -/

mutual
def TypeExpr.unplaced : TypeExpr → TypeExpr
  | .name x _ => .name x default
  | .number _ => .number default
  | .string _ => .string default
  | .tuple items _ => .tuple (TypeExpr.unplacedEach items) default
  | .record entries _ => .record (TypeExpr.unplacedEntries entries) default
  | .access t entry _ => .access (TypeExpr.unplaced t) entry default
  | .function parameters result _ =>
    .function (TypeExpr.unplacedEach parameters) (TypeExpr.unplaced result) default
  | .atom a => .atom (TypeExpr.unplacedAtom a)
  | .union atoms _ => .union (TypeExpr.unplacedAtoms atoms) default
termination_by structural t => t
def TypeExpr.unplacedEach : List TypeExpr → List TypeExpr
  | [] => []
  | t :: ts => TypeExpr.unplaced t :: TypeExpr.unplacedEach ts
termination_by structural ts => ts
def TypeExpr.unplacedEntries : List (String × TypeExpr) → List (String × TypeExpr)
  | [] => []
  | (x, t) :: es => (x, TypeExpr.unplaced t) :: TypeExpr.unplacedEntries es
termination_by structural es => es
def TypeExpr.unplacedAtom : AtomNode TypeExpr → AtomNode TypeExpr
  | ⟨x, arguments, _⟩ => ⟨x, TypeExpr.unplacedEach arguments, default⟩
termination_by structural a => a
def TypeExpr.unplacedAtoms : List (AtomNode TypeExpr) → List (AtomNode TypeExpr)
  | [] => []
  | a :: as => TypeExpr.unplacedAtom a :: TypeExpr.unplacedAtoms as
termination_by structural as => as
end

def Parameter.unplaced (p : Parameter) : Parameter :=
  ⟨p.name, p.declared.map TypeExpr.unplaced, default⟩

mutual
def Expr.unplaced : Expr → Expr
  | .name x _ => .name x default
  | .number value _ => .number value default
  | .string value _ => .string value default
  | .tuple items _ => .tuple (Expr.unplacedEach items) default
  | .record entries _ => .record (Expr.unplacedEntries entries) default
  | .access e entry _ => .access (Expr.unplaced e) entry default
  | .function parameters body _ =>
    .function (parameters.map Parameter.unplaced) (Stmt.unplaced body) default
  | .call callee arguments _ =>
    .call (Expr.unplaced callee) (Expr.unplacedEach arguments) default
  | .importFile path _ => .importFile path default
  | .atom x arguments _ => .atom x (Expr.unplacedEach arguments) default
termination_by structural e => e
def Expr.unplacedEach : List Expr → List Expr
  | [] => []
  | e :: es => Expr.unplaced e :: Expr.unplacedEach es
termination_by structural es => es
def Expr.unplacedEntries : List (String × Expr) → List (String × Expr)
  | [] => []
  | (x, e) :: es => (x, Expr.unplaced e) :: Expr.unplacedEntries es
termination_by structural es => es
def Expr.unplacedValue : Option Expr → Option Expr
  | none => none
  | some e => some (Expr.unplaced e)
termination_by structural e => e
def Stmt.unplacedAssignment : Assignment Expr → Assignment Expr
  | ⟨x, declared, value, _⟩ =>
    ⟨x, declared.map TypeExpr.unplaced, Expr.unplacedValue value, default⟩
termination_by structural a => a
def Stmt.unplaced : Stmt → Stmt
  | .block body _ => .block (Stmt.unplacedEach body) default
  | .assign a => .assign (Stmt.unplacedAssignment a)
  | .exported a _ => .exported (Stmt.unplacedAssignment a) default
  | .expr e => .expr (Expr.unplaced e)
  | .type t => .type t.unplaced
termination_by structural s => s
def Stmt.unplacedEach : List Stmt → List Stmt
  | [] => []
  | s :: ss => Stmt.unplaced s :: Stmt.unplacedEach ss
termination_by structural ss => ss
end

/-! ## Lists of parts -/

@[simp] theorem TypeExpr.tokensEach_eq_map (ts : List TypeExpr) :
    TypeExpr.tokensEach ts = ts.map TypeExpr.tokens := by
  induction ts with
  | nil => rfl
  | cons x ts ih => simp [TypeExpr.tokensEach, ih]

@[simp] theorem TypeExpr.tokensAtoms_eq_map (as : List (AtomNode TypeExpr)) :
    TypeExpr.tokensAtoms as = as.map TypeExpr.tokensAtom := by
  induction as with
  | nil => rfl
  | cons x as ih => simp [TypeExpr.tokensAtoms, ih]

@[simp] theorem TypeExpr.tokensEntries_eq_map (es : List (String × TypeExpr)) :
    TypeExpr.tokensEntries es = es.map fun e => entry e.1 e.2.tokens := by
  induction es with
  | nil => rfl
  | cons x es ih => simp [TypeExpr.tokensEntries, ih]

@[simp] theorem TypeExpr.unplacedEach_eq_map (ts : List TypeExpr) :
    TypeExpr.unplacedEach ts = ts.map TypeExpr.unplaced := by
  induction ts with
  | nil => rfl
  | cons x ts ih => simp [TypeExpr.unplacedEach, ih]

@[simp] theorem TypeExpr.unplacedAtoms_eq_map (as : List (AtomNode TypeExpr)) :
    TypeExpr.unplacedAtoms as = as.map TypeExpr.unplacedAtom := by
  induction as with
  | nil => rfl
  | cons x as ih => simp [TypeExpr.unplacedAtoms, ih]

@[simp] theorem TypeExpr.unplacedEntries_eq_map (es : List (String × TypeExpr)) :
    TypeExpr.unplacedEntries es = es.map (Prod.map id TypeExpr.unplaced) := by
  induction es with
  | nil => rfl
  | cons x es ih => simp [TypeExpr.unplacedEntries, Prod.map, ih]

@[simp] theorem Expr.tokensEach_eq_map (numeral : Binary64 → String) (es : List Expr) :
    Expr.tokensEach numeral es = es.map (Expr.tokens numeral) := by
  induction es with
  | nil => rfl
  | cons x es ih => simp [Expr.tokensEach, ih]

@[simp] theorem Expr.tokensEntries_eq_map (numeral : Binary64 → String)
    (es : List (String × Expr)) :
    Expr.tokensEntries numeral es = es.map fun e => entry e.1 (e.2.tokens numeral) := by
  induction es with
  | nil => rfl
  | cons x es ih => simp [Expr.tokensEntries, ih]

@[simp] theorem Expr.unplacedEach_eq_map (es : List Expr) :
    Expr.unplacedEach es = es.map Expr.unplaced := by
  induction es with
  | nil => rfl
  | cons x es ih => simp [Expr.unplacedEach, ih]

@[simp] theorem Expr.unplacedEntries_eq_map (es : List (String × Expr)) :
    Expr.unplacedEntries es = es.map (Prod.map id Expr.unplaced) := by
  induction es with
  | nil => rfl
  | cons x es ih => simp [Expr.unplacedEntries, Prod.map, ih]

@[simp] theorem Stmt.unplacedEach_eq_map (ss : List Stmt) :
    Stmt.unplacedEach ss = ss.map Stmt.unplaced := by
  induction ss with
  | nil => rfl
  | cons x ss ih => simp [Stmt.unplacedEach, ih]

@[simp] theorem Expr.unplacedValue_eq_map (e : Option Expr) :
    Expr.unplacedValue e = e.map Expr.unplaced := by
  cases e <;> rfl

end ShapeCheck
