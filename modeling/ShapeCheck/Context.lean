import ShapeCheck.Config
import ShapeCheck.Error
import ShapeCheck.Scope

/-!
# The state of checking one file
-/

namespace ShapeCheck

/-- What stays the same for a whole run, imported files included. -/
structure Environment where
  globals : List Variable
  config : Config

structure Context where
  environment : Environment
  /-- The normalized path of the file. -/
  path : String
  /-- The paths of the files that are being checked, this one included, outermost first. -/
  importStack : List String
  /-- The open scopes, innermost first. -/
  scopes : List Scope
  exports : List Variable
  errors : List Error
  /-- The number of the next placeholder. -/
  nextId : Nat
  /-- How many phrases are open around the current one. -/
  depth : Nat

namespace Context

/-- Before the first statement. The outermost scope holds the globals of the environment. -/
def start (environment : Environment) (path : String) (importStack : List String) : Context where
  environment
  path
  importStack
  scopes := [.ofDeclarations environment.globals]
  exports := []
  errors := []
  nextId := 0
  depth := 0

/-! ## Scopes -/

def push (c : Context) : Context :=
  { c with scopes := [] :: c.scopes }

def pop (c : Context) : Context :=
  { c with scopes := c.scopes.tail }

def declare (v : Variable) (c : Context) : Context :=
  match c.scopes with
  | [] => { c with scopes := [[v]] }
  | scope :: outer => { c with scopes := (v :: scope) :: outer }

/-- The latest declaration of the name in the innermost scope that has one. -/
def resolve? (name : String) (c : Context) : Option Variable :=
  c.scopes.findSome? (Scope.get? name)

def innermost (c : Context) : Scope :=
  c.scopes.headD []

def isDeclared (name : String) (c : Context) : Bool :=
  (c.innermost.get? name).isSome

/-- Whether the innermost scope is that of the root block, which lies in the scope of the
environment. -/
def atFileRoot (c : Context) : Bool :=
  c.scopes.length = 2

/-! ## Results -/

def report (cause : Cause) (span : Span) (c : Context) : Context :=
  { c with errors := c.errors ++ [⟨cause, span.start⟩] }

def exportVariable (v : Variable) (c : Context) : Context :=
  { c with exports := c.exports ++ [v] }

/-! ## Nesting -/

def enter? (c : Context) : Option Context :=
  if c.environment.config.maxDepth ≤ c.depth then none else some { c with depth := c.depth + 1 }

def leave (c : Context) : Context :=
  { c with depth := c.depth - 1 }

end Context

end ShapeCheck
