import ShapeCheck.Inference
import ShapeCheck.Ty.Subtype
import ShapeCheck.Workspace

/-!
# Steps of a check

Checking a phrase yields its type. On the way it changes the context of the file and, through
imports, the workspace. What fails is reported and has the type `ignore`, which is never reported
again.
-/

namespace ShapeCheck

structure Checking where
  context : Context
  workspace : Workspace

abbrev CheckM := StateM Checking

abbrev Importer := String → Span → CheckM Ty

namespace CheckM

def context : CheckM Context := do
  return (← get).context

def read {α : Type} (f : Context → α) : CheckM α := do
  return f (← context)

def note (event : Event) : CheckM Unit :=
  modify fun s => { s with workspace := s.workspace.note ⟨event, s.context⟩ }

def modifyContext (f : Context → Context) : CheckM Unit := do
  modify fun s => { s with context := f s.context }
  note .changed

/-- Runs a step that yields a value and a new context; `event` says what the value means. -/
def onContext {α : Type} (event : α → Event) (f : Context → α × Context) : CheckM α := do
  let a ← modifyGet fun s =>
    let (a, context) := f s.context
    (a, { s with context })
  note (event a)
  return a

def onWorkspace {α : Type} (f : Workspace → α × Workspace) : CheckM α :=
  modifyGet fun s =>
    let (a, workspace) := f s.workspace
    (a, { s with workspace })

def report (cause : Cause) (span : Span) : CheckM Unit :=
  modifyContext (Context.report cause span)

def fail (cause : Cause) (span : Span) : CheckM Ty := do
  report cause span
  return .ignore

/-- Checks one level deeper, or reports the phrase if the limit is reached. -/
def nested (span : Span) (check : CheckM Ty) : CheckM Ty := do
  let c ← context
  let type ← match c.enter? with
    | none => fail (.nestingTooDeep c.environment.config.maxDepth) span
    | some inner => do
      modifyContext fun _ => inner
      let type ← check
      modifyContext Context.leave
      pure type
  note (.typed type)
  return type

/-! ## Names and entries -/

def checkName (name : String) (span : Span) : CheckM Ty := do
  match ← read (Context.resolve? name) with
  | some v => return v.type
  | none => fail (.unknownName name) span

def checkAccess (accessed : Ty) (entry : String) (span : Span) : CheckM Ty := do
  match accessed with
  | .ignore => return .ignore
  | .record _ entries =>
    match Entries.get? entry entries with
    | some type => return type
    | none => fail (.missingEntry accessed entry) span
  | _ => fail (.notRecord accessed) span

def requireValue (type : Ty) (span : Span) : CheckM Unit := do
  if !type.hasValue then report (.valueExpected type) span

/-! ## Declarations -/

def checkRedeclared (name : String) (span : Span) : CheckM Bool := do
  let redeclared ← read (Context.isDeclared name)
  if redeclared then report (.alreadyDeclared name) span
  return redeclared

/-- Declares a variable. One that is redeclared fails, and shadows the earlier declaration. -/
def declare (name : String) (redeclared : Bool) (type : Ty) : CheckM Variable := do
  let v : Variable := ⟨name, if redeclared then .ignore else type⟩
  modifyContext (Context.declare v)
  return v

/-- Reports a value that does not fit the declared type. What has failed before is not compared. -/
def requireFit (name : String) (declared value : Option Ty) (span : Span) : CheckM Unit := do
  match declared, value with
  | some expected, some received =>
    if !expected.containsIgnore && !received.containsIgnore && !received.subtype .strict expected then
      report (.variableMismatch name expected received) span
  | _, _ => return ()

/-- The type of an assigned variable: the declared one or that of the value. It has a value if the
value has one. -/
def assignedType (declared value : Option Ty) : Ty :=
  ((declared.or value).getD .ignore).withValue ((value.map Ty.hasValue).getD false)

def noteDeclared (declared : Option Ty) (type : Ty) : CheckM Unit := do
  if declared.isSome then note (.annotated type)

/-! ## Calls -/

/-- Parameters and result of a callee. What cannot be called is reported and has none. -/
def signature? (callee : Ty) (span : Span) : CheckM (Option (List Ty × Ty)) := do
  match callee with
  | .ignore => return none
  | .function true parameters result => return some (parameters, result)
  | _ =>
    report (if callee.hasValue then .notCallable callee else .valueExpected callee) span
    return none

/-- The type of a call. Calling a function always produces a value. -/
def checkCall (parameters : List Ty) (result : Ty) (arguments : List Ty) (span : Span) :
    CheckM Ty := do
  if Ty.anyContainsIgnore arguments || Ty.anyContainsIgnore parameters then return .ignore
  if !Ty.subtypes .inferring arguments parameters then
    fail (.argumentMismatch parameters arguments) span
  else
    let type ← onContext (fun _ => .settled (callSubstitution parameters arguments))
      (Context.resolveCall parameters arguments result)
    return type.withValue true

end CheckM

end ShapeCheck
