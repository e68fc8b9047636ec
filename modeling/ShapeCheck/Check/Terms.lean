import ShapeCheck.Check.Types

/-!
# Checking expressions and statements

`imports` says how the imports in a phrase are checked; everything else follows the tree.
-/

namespace ShapeCheck

open CheckM

/-- The type of a parameter. In the body it is a value, whatever its declared type says. -/
def Parameter.checkType (p : Parameter) : CheckM Ty :=
  match p.declared with
  | some t => do
    let type := (← t.check).withValue true
    note (.annotated type)
    return type
  | none => onContext .allocated Context.allocate

def Parameter.check (p : Parameter) : CheckM Variable := do
  let type ← p.checkType
  let redeclared ← checkRedeclared p.name p.span
  declare p.name redeclared type

def Parameter.checkEach : List Parameter → CheckM (List Variable)
  | [] => return []
  | p :: ps => do
    let v ← p.check
    return v :: (← checkEach ps)

variable (imports : Importer)

mutual
def Expr.check : Expr → CheckM Ty
  | .name x span => nested span (checkName x span)
  | .number _ span => nested span do return .number true
  | .string _ span => nested span do return .string true
  | .tuple items span => nested span do return .tuple true (← Expr.checkValues items)
  | .record entries span => nested span do
    return .record true (Entries.ofList (← Expr.checkEntries entries))
  | .access e entry span => nested span do
    let accessed ← Expr.check e
    let type ← checkAccess accessed entry span
    note (.read accessed entry type)
    return type
  | .function parameters body span => nested span do
    modifyContext Context.push
    let bound ← Parameter.checkEach parameters
    let result ← Stmt.check body
    let (parameters, result) := refreshParameters (← read Context.innermost) bound result
    modifyContext Context.pop
    return .function result.hasValue parameters result
  | .call callee arguments span => nested span do
    let type ← Expr.check callee
    let signature ← signature? type callee.span
    let arguments ← Expr.checkValues arguments
    match signature with
    | none => return .ignore
    | some (parameters, result) => checkCall parameters result arguments span
  | .importFile path span => nested span (imports path span)
  | .atom x arguments span => nested span do
    let arguments ← Expr.checkValues arguments
    return .atom ⟨x, arguments, true⟩
termination_by structural e => e
def Expr.checkValues : List Expr → CheckM (List Ty)
  | [] => return []
  | e :: es => do
    let type ← Expr.check e
    requireValue type e.span
    return type :: (← Expr.checkValues es)
termination_by structural es => es
def Expr.checkEntries : List (String × Expr) → CheckM (List (String × Ty))
  | [] => return []
  | (x, e) :: es => do
    let type ← Expr.check e
    requireValue type e.span
    note (.filled x type)
    return (x, type) :: (← Expr.checkEntries es)
termination_by structural es => es
def Expr.checkOptional : Option Expr → CheckM (Option Ty)
  | none => return none
  | some e => do
    let type ← Expr.check e
    requireValue type e.span
    return some type
termination_by structural e => e
def Stmt.checkAssignment : Assignment Expr → CheckM Variable
  | ⟨name, declared, value, span⟩ => do
    let redeclared ← checkRedeclared name span
    let declared ← TypeExpr.checkOptional declared
    let value ← Expr.checkOptional value
    requireFit name declared value span
    let type := assignedType declared value
    noteDeclared declared type
    declare name redeclared type
termination_by structural a => a
def Stmt.check : Stmt → CheckM Ty
  | .block [] span => nested span do
    report .emptyBlock span
    return .empty
  | .block (first :: rest) span => nested span do
    modifyContext Context.push
    let type ← Stmt.check first
    let type ← Stmt.checkRest type rest
    modifyContext Context.pop
    return type
  | .assign a => nested a.span do
    let _ ← Stmt.checkAssignment a
    return .empty
  | .exported a span => nested span do
    let atFileRoot ← read Context.atFileRoot
    let redeclared ← read (Context.isDeclared a.name)
    let v ← Stmt.checkAssignment a
    if !atFileRoot then report .nestedExport span
    else if !redeclared then modifyContext (Context.exportVariable v)
    return .empty
  | .expr e => Expr.check e
  | .type t => t.check
termination_by structural s => s
/-- The type of the last of the statements, or `type` if there is none. -/
def Stmt.checkRest (type : Ty) : List Stmt → CheckM Ty
  | [] => return type
  | s :: ss => do
    let type ← Stmt.check s
    Stmt.checkRest type ss
termination_by structural ss => ss
end

end ShapeCheck
