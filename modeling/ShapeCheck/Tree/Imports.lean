import ShapeCheck.Path
import ShapeCheck.Tree

/-!
# The imports of a program
-/

namespace ShapeCheck

mutual
def Expr.imports : Expr → List String
  | .name _ _ | .number _ _ | .string _ _ => []
  | .tuple items _ => Expr.importsEach items
  | .record entries _ => Expr.importsEntries entries
  | .access e _ _ => Expr.imports e
  | .function _ body _ => Stmt.imports body
  | .call callee arguments _ => Expr.imports callee ++ Expr.importsEach arguments
  | .importFile path _ => [path]
  | .atom _ arguments _ => Expr.importsEach arguments
termination_by structural e => e
def Expr.importsEach : List Expr → List String
  | [] => []
  | e :: es => Expr.imports e ++ Expr.importsEach es
termination_by structural es => es
def Expr.importsEntries : List (String × Expr) → List String
  | [] => []
  | (_, e) :: es => Expr.imports e ++ Expr.importsEntries es
termination_by structural es => es
def Expr.importsOptional : Option Expr → List String
  | none => []
  | some e => Expr.imports e
termination_by structural e => e
def Stmt.importsAssignment : Assignment Expr → List String
  | ⟨_, _, value, _⟩ => Expr.importsOptional value
termination_by structural a => a
def Stmt.imports : Stmt → List String
  | .block body _ => Stmt.importsEach body
  | .assign a => Stmt.importsAssignment a
  | .exported a _ => Stmt.importsAssignment a
  | .expr e => Expr.imports e
  | .type _ => []
termination_by structural s => s
def Stmt.importsEach : List Stmt → List String
  | [] => []
  | s :: ss => Stmt.imports s ++ Stmt.importsEach ss
termination_by structural ss => ss
end

def Stmt.importedFiles (path : String) (tree : Stmt) : List String :=
  tree.imports.filterMap (Path.target? path)

end ShapeCheck
