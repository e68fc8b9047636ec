import ShapeCheck.Text.Join
import ShapeCheck.Ty.Basic

/-!
# The text of a type

Types are written as annotations are. What no annotation can say has words of its own: `?3` for a
placeholder, `empty` and `ignore`.
-/

namespace ShapeCheck.Ty

open Text (join)

mutual
def render : Ty → String
  | number _ => "number"
  | string _ => "string"
  | tuple _ items => "[" ++ join ", " (renderEach items) ++ "]"
  | record _ entries => "%\x7b" ++ join ", " (renderEntries entries) ++ "\x7d"
  | function _ parameters result =>
    "(" ++ join ", " (renderEach parameters) ++ ") " ++ render result
  | atom a => renderAtom a
  | union _ atoms => join " | " (renderAtoms atoms)
  | placeholder _ id => "?" ++ Nat.repr id
  | empty => "empty"
  | ignore => "ignore"
def renderEach : List Ty → List String
  | [] => []
  | t :: ts => render t :: renderEach ts
def renderEntries : List (String × Ty) → List String
  | [] => []
  | (name, t) :: es => (name ++ ": " ++ render t) :: renderEntries es
def renderAtom : Atom Ty → String
  | ⟨name, [], _⟩ => "@" ++ name
  | ⟨name, t :: ts, _⟩ => "@" ++ name ++ "(" ++ join ", " (render t :: renderEach ts) ++ ")"
def renderAtoms : List (Atom Ty) → List String
  | [] => []
  | a :: as => renderAtom a :: renderAtoms as
end

def renderAll (ts : List Ty) : String :=
  join ", " (renderEach ts)

end ShapeCheck.Ty
