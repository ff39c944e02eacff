import LetLower.Ty.Unify

/-!
# The problems that a problem leads to

Function types are unified argument first, and what that solves is put into the results, which are
unified in turn. `Calls` lists these problems, and `unifyStep` is unification with the answers to
them left open.
-/

namespace LetLower.Ty

/-- The problems that unifying two types leads to at once. -/
inductive Calls : Ty × Ty → Ty × Ty → Prop
  | arguments {a a' b b' : Ty} : Calls (fn a a', fn b b') (a, b)
  | results {a a' b b' : Ty} {u : Unifier} (h : unify a b = .ok u) :
      Calls (fn a a', fn b b') (a'.apply u.subst, b'.apply u.subst)

variable (answer : Ty → Ty → Except UnifyError Unifier)

/-- Solve `a = b`, with the answers to the problems that it leads to. -/
def solveStep (a b : Ty) : Except UnifyError Subst :=
  match a, b with
  | scheme .., _ | _, scheme .. => .error (.quantified a b)
  | var x, b => (bindVar x b).map Subtype.val
  | a, var x => (bindVar x a).map Subtype.val
  | bool, bool => .ok ∅
  | int, int => .ok ∅
  | fn a a', fn b b' =>
    match answer a b with
    | .error e => .error e
    | .ok u =>
      match answer (a'.apply u.subst) (b'.apply u.subst) with
      | .error e => .error e
      | .ok u' => .ok (Subst.compose u'.subst u.subst)
  | bool, _ | int, _ | fn .., _ => .error (.mismatch b a)
  | unknown, _ => .error .unknown

def unifyStep (a b : Ty) : Except UnifyError Unifier :=
  (solveStep answer a b).map fun s => ⟨a.apply s, s⟩

end LetLower.Ty
