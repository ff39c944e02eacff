import LetLower.NameSet
import LetLower.Fault

/-!
# Types

Booleans, integers, functions, variables, and types quantified over a set of variables. The
latter belong in environments; they may stand anywhere in a value of `Ty`, and unification is
where they are refused. `unknown` is a type that is none of these: it has no variables and no
text.
-/

namespace LetLower

inductive Ty where
  | bool
  | int
  | fn (argument result : Ty)
  | var (name : String)
  | scheme (bound : NameSet) (body : Ty)
  | unknown
deriving DecidableEq, Repr, Inhabited

namespace Ty

def arrows (arguments : List Ty) (result : Ty) : Ty := arguments.foldr fn result

def free : Ty → NameSet
  | var x => .single x
  | fn a r => a.free.union r.free
  | scheme bound body => body.free.diff bound
  | bool | int | unknown => ∅

def occurs (x : String) (t : Ty) : Bool := x ∈ t.free

def size : Ty → Nat
  | fn a r => a.size + r.size + 1
  | scheme _ body => body.size + 1
  | bool | int | var _ | unknown => 1

def isFunction : Ty → Bool
  | fn .. => true
  | _ => false

/-- No part is unknown. -/
def isKnown : Ty → Bool
  | unknown => false
  | fn a r => a.isKnown && r.isKnown
  | scheme _ body => body.isKnown
  | bool | int | var _ => true

/-- No part is quantified, and none is unknown. -/
def IsPlain : Ty → Prop
  | bool | int | var _ => True
  | fn a r => a.IsPlain ∧ r.IsPlain
  | scheme .. | unknown => False

instance decidableIsPlain : (t : Ty) → Decidable t.IsPlain
  | bool | int | var _ => .isTrue trivial
  | fn a r =>
    match decidableIsPlain a, decidableIsPlain r with
    | .isTrue ha, .isTrue hr => .isTrue ⟨ha, hr⟩
    | .isFalse ha, _ => .isFalse fun h => ha h.1
    | _, .isFalse hr => .isFalse fun h => hr h.2
  | scheme .. | unknown => .isFalse id

/-- No part is quantified; a part may be unknown. -/
def IsUnquantified : Ty → Prop
  | bool | int | var _ | unknown => True
  | fn a r => a.IsUnquantified ∧ r.IsUnquantified
  | scheme .. => False

instance decidableIsUnquantified : (t : Ty) → Decidable t.IsUnquantified
  | bool | int | var _ | unknown => .isTrue trivial
  | fn a r =>
    match decidableIsUnquantified a, decidableIsUnquantified r with
    | .isTrue ha, .isTrue hr => .isTrue ⟨ha, hr⟩
    | .isFalse ha, _ => .isFalse fun h => ha h.1
    | _, .isFalse hr => .isFalse fun h => hr h.2
  | scheme .. => .isFalse id

theorem IsPlain.isUnquantified {t : Ty} (h : t.IsPlain) : t.IsUnquantified := by
  induction t with
  | fn a r iha ihr => exact ⟨iha h.1, ihr h.2⟩
  | scheme _ _ _ => exact h
  | unknown => exact h.elim
  | bool | int | var _ => trivial

theorem IsPlain.isKnown {t : Ty} (h : t.IsPlain) : t.isKnown := by
  induction t with
  | fn a r iha ihr => simp [Ty.isKnown, iha h.1, ihr h.2]
  | scheme _ _ _ => exact h.elim
  | unknown => exact h.elim
  | bool | int | var _ => rfl

/-- The text of a type. The arrow associates to the right, and a function that is an argument
stands in parentheses. An unknown type has none; `render?` refuses it. -/
def render : Ty → String
  | bool => "bool"
  | int => "int"
  | var x => x
  | fn a r =>
    (if a.isFunction then "(" ++ a.render ++ ")" else a.render) ++ " -> " ++ r.render
  | scheme bound body =>
    if bound.isEmpty then body.render
    else "forall " ++ " ".intercalate bound.names ++ ". " ++ body.render
  | unknown => "?"

def render? (t : Ty) : Except Fault String :=
  if t.isKnown then .ok t.render else .error .unknownType

end Ty

/-- A type and the variables in it that stand for any type. -/
structure Scheme where
  bound : NameSet
  body : Ty
deriving DecidableEq, Repr, Inhabited

namespace Scheme

def mono (t : Ty) : Scheme := ⟨∅, t⟩

def toTy (s : Scheme) : Ty := .scheme s.bound s.body

def free (s : Scheme) : NameSet := s.toTy.free

/-- Nothing in it is left open. -/
def IsClosed (s : Scheme) : Prop := ∀ x, x ∉ s.free

end Scheme
end LetLower
