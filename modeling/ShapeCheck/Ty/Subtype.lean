import ShapeCheck.Ty.Basic

/-!
# Subtyping

`subtype mode sub base` says whether a value of type `sub` may stand where `base` is expected.
Marks play no part. Only unions are wider than their members: everything else is compared part by
part, and the parameters of a function in the same direction as its result.
-/

namespace ShapeCheck

inductive Mode where
  /-- A placeholder matches itself only. -/
  | strict
  /-- A placeholder matches anything: a call may still find out what it is. -/
  | inferring
deriving Repr, DecidableEq

namespace Ty

mutual
def subtype (mode : Mode) (sub base : Ty) : Bool :=
  if mode = .inferring ∧ (sub.placeholder?.isSome ∨ base.placeholder?.isSome) then true
  else match sub, base with
    | number _, number _ => true
    | string _, string _ => true
    | tuple _ xs, tuple _ ys => subtypes mode xs ys
    | record _ xs, record _ ys => subentries mode xs ys
    | function _ ps r, function _ qs s => subtypes mode ps qs && subtype mode r s
    | atom a, atom b => subatom mode a b
    | atom a, union _ bs => bs.any fun b => subatom mode a b
    | union _ as, union _ bs => subatoms mode as bs
    | placeholder _ i, placeholder _ j => i == j
    | empty, empty => true
    | _, _ => false
termination_by structural sub
/-- Lists of one length, compared place by place. -/
def subtypes (mode : Mode) : List Ty → List Ty → Bool
  | [], [] => true
  | x :: xs, y :: ys => subtype mode x y && subtypes mode xs ys
  | _, _ => false
termination_by structural xs => xs
/-- Both sides ascend by name, so equal names stand at equal places. -/
def subentries (mode : Mode) : List (String × Ty) → List (String × Ty) → Bool
  | [], [] => true
  | (n, x) :: xs, (m, y) :: ys => n == m && subtype mode x y && subentries mode xs ys
  | _, _ => false
termination_by structural xs => xs
def subatom (mode : Mode) : Atom Ty → Atom Ty → Bool
  | ⟨n, xs, _⟩, b => n == b.name && subtypes mode xs b.arguments
termination_by structural a => a
/-- Every atom on the left is below some atom on the right. -/
def subatoms (mode : Mode) : List (Atom Ty) → List (Atom Ty) → Bool
  | [], _ => true
  | a :: as, bs => (bs.any fun b => subatom mode a b) && subatoms mode as bs
termination_by structural as => as
end

end Ty

end ShapeCheck
