import ShapeCheck.Binary64
import ShapeCheck.Position

/-!
# Syntax trees

A program is a block of statements. Statements hold expressions and type expressions, and an
expression holds statements again where it is a function with a block as its body. Every node
carries the span of the tokens it was read from.
-/

namespace ShapeCheck

/-! ## Type expressions -/

/-- An atom with parts of kind `τ`, as in `@some(number)`. -/
structure AtomNode (τ : Type) where
  name : String
  arguments : List τ
  span : Span

inductive TypeExpr where
  /-- The type of the variable `name`. -/
  | name (name : String) (span : Span)
  | number (span : Span)
  | string (span : Span)
  | tuple (items : List TypeExpr) (span : Span)
  | record (entries : List (String × TypeExpr)) (span : Span)
  | access (record : TypeExpr) (entry : String) (span : Span)
  | function (parameters : List TypeExpr) (result : TypeExpr) (span : Span)
  | atom (atom : AtomNode TypeExpr)
  | union (atoms : List (AtomNode TypeExpr)) (span : Span)

def TypeExpr.span : TypeExpr → Span
  | name _ s | number s | string s | tuple _ s | record _ s | access _ _ s | function _ _ s => s
  | atom a => a.span
  | union _ s => s

/-! ## Expressions and statements -/

structure Parameter where
  name : String
  /-- The type that is written after the name, if there is one. -/
  declared : Option TypeExpr
  span : Span

/-- `name: declared = value`, where a type, a value or both are given. -/
structure Assignment (ε : Type) where
  name : String
  declared : Option TypeExpr
  value : Option ε
  span : Span

mutual

inductive Expr where
  | name (name : String) (span : Span)
  | number (value : Binary64) (span : Span)
  | string (value : String) (span : Span)
  | tuple (items : List Expr) (span : Span)
  | record (entries : List (String × Expr)) (span : Span)
  | access (record : Expr) (entry : String) (span : Span)
  | function (parameters : List Parameter) (body : Stmt) (span : Span)
  | call (callee : Expr) (arguments : List Expr) (span : Span)
  | importFile (path : String) (span : Span)
  | atom (name : String) (arguments : List Expr) (span : Span)

inductive Stmt where
  | block (body : List Stmt) (span : Span)
  | assign (assignment : Assignment Expr)
  | exported (assignment : Assignment Expr) (span : Span)
  | expr (expr : Expr)
  | type (type : TypeExpr)

end

def Expr.span : Expr → Span
  | name _ s | number _ s | string _ s | tuple _ s | record _ s | access _ _ s | function _ _ s => s
  | call _ _ s | importFile _ s | atom _ _ s => s

instance : Inhabited TypeExpr := ⟨.number default⟩

instance : Inhabited Expr := ⟨.name "" default⟩

instance : Inhabited Stmt := ⟨.block [] default⟩

end ShapeCheck
