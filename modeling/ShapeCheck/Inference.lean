import ShapeCheck.Context
import ShapeCheck.Ty.Placeholder

/-!
# Finding out what placeholders stand for

A parameter without a declared type gets a placeholder. A call that pairs a placeholder with
another type settles it, and it is replaced wherever it stands.
-/

namespace ShapeCheck

open Ty (Substitution)

def Variable.substitute (id : Nat) (replacement : Ty) (v : Variable) : Variable :=
  { v with type := Ty.substitute id replacement v.type }

namespace Context

/-- A placeholder that stands nowhere yet. It is the type of a parameter, hence of a value. -/
def allocate (c : Context) : Ty × Context :=
  (.placeholder true c.nextId, { c with nextId := c.nextId + 1 })

def substitute (id : Nat) (replacement : Ty) (c : Context) : Context :=
  { c with
    scopes := c.scopes.map fun scope => scope.map (Variable.substitute id replacement)
    exports := c.exports.map (Variable.substitute id replacement) }

def apply (σ : Substitution) (c : Context) : Context :=
  σ.foldl (fun c s => c.substitute s.1 s.2) c

end Context

/-! ## Calls -/

/-- What a call settles, argument by argument. A placeholder among the arguments takes the type of
its parameter, one among the parameters that of its argument. Each step also applies to the
parameters after it. -/
def callSubstitution : List Ty → List Ty → Substitution
  | parameter :: parameters, argument :: arguments =>
    match argument.placeholder?, parameter.placeholder? with
    | some id, none =>
      (id, parameter) :: callSubstitution (Ty.substituteEach id parameter parameters) arguments
    | none, some id =>
      (id, argument) :: callSubstitution (Ty.substituteEach id argument parameters) arguments
    | _, _ => callSubstitution parameters arguments
  | _, _ => []
termination_by structural _ arguments => arguments

def Context.resolveCall (parameters arguments : List Ty) (result : Ty) (c : Context) :
    Ty × Context :=
  let σ := callSubstitution parameters arguments
  (result.apply σ, c.apply σ)

/-! ## Function bodies -/

/-- The parameters of a function after its body was checked in `scope`, and its result, in which
the placeholders that the body settled are replaced. -/
def refreshParameters (scope : Scope) : List Variable → Ty → List Ty × Ty
  | [], result => ([], result)
  | parameter :: parameters, result =>
    let current := ((scope.get? parameter.name).getD parameter).type
    let result := match parameter.type.placeholder? with
      | none => result
      | some id =>
        if current.placeholder? = some id then result else Ty.substitute id current result
    let (types, result) := refreshParameters scope parameters result
    (current :: types, result)

/-! ## Other files -/

def renumberVariables : List Variable → Ty.Renaming → List Variable × Ty.Renaming
  | [], ρ => ([], ρ)
  | v :: vs, ρ =>
    let (type, ρ) := v.type.renumber ρ
    let (vs, ρ) := renumberVariables vs ρ
    ({ v with type } :: vs, ρ)

/-- The variables of another file with placeholders that stand nowhere in this one. -/
def Context.instantiate (vs : List Variable) (c : Context) : List Variable × Context :=
  let (vs, ρ) := renumberVariables vs ⟨c.nextId, []⟩
  (vs, { c with nextId := ρ.next })

end ShapeCheck
