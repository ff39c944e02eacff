import LetLower.Pass
import LetLower.Expr.Rename

/-!
# Inlining

Functions are taken out of an annotated tree by putting them where they are used.

* A `let` that binds a function goes away; the function stands at every use.
* A known function that is applied is replaced by its body, its parameter by the argument.
* `let x = (let y = v in b) in r` becomes `let y' = v in let x = b in r`.
* A `let` whose body is a function moves inside it: `p' -> let x = v in b`.

A binder is renamed when something that may be put into its scope mentions its name. A body is
gone through again after something was put in; on trees without types this need not end, so the
nesting is bounded by a given depth.
-/

namespace LetLower

/-- What the names in scope stand for. -/
abbrev InlineEnv := Bindings Expr

/-- A binder entered: the name it has inside, what stands for names there, and the renaming that
its scope needs. -/
structure Entered where
  name : String
  env : InlineEnv
  renamed : Option (String × String)

namespace Expr

def mentionedIn (x : String) : List Expr → Except Fault Bool
  | [] => .ok false
  | e :: es =>
    match e.free? with
    | .error f => .error f
    | .ok free => if x ∈ free then .ok true else mentionedIn x es

/-- Enter a binder for a name, which stands for `value` if that is given. The binder shadows what
stood for the name outside. -/
def enter (env : InlineEnv) (x : String) (value : Option Expr) : Pass Entered := do
  let inner := env.erase x
  let clash ← Pass.orFault (mentionedIn x (inner.values ++ value.toList))
  let bind (y : String) : InlineEnv :=
    match value with
    | some v => inner.insert y v
    | none => inner
  if clash then
    let y ← Pass.freshFrom x
    Pass.note (.renamed x y)
    return ⟨y, bind y, some (x, y)⟩
  else return ⟨x, bind x, none⟩

end Expr

/-- A part of the scope of a binder, under the name that it has inside. -/
def Entered.scope (b : Entered) (e : Expr) : Pass Expr :=
  match b.renamed with
  | some (x, y) => Pass.orFault (e.rename? x y)
  | none => return e

namespace Expr

def function? : Expr → Option (String × Expr)
  | lam m x b => if m.ty.isSome then some (x, b) else none
  | _ => none

/-- Take the inner `let` of a value out, under a fresh name: what was `let x = (let y = v in w) in
b` becomes `let y' = v in let x = w in b`. -/
def rotate (m : Mark) (x : String) (nested : Mark) (y : String) (v w b : Expr) : Pass Expr := do
  let fresh ← Pass.freshFrom y
  Pass.note (.rotated x y fresh)
  let w ← Pass.orFault (w.rename? y fresh)
  return letIn { nested with ty := m.ty } fresh v (letIn m x w b)

/-- Build `let x = v in body`. Functions that the body consists of come to stand outside, with
fresh parameters, so that `v` mentions none of them. -/
def letOver (m : Mark) (x : String) (v : Expr) : Expr → Pass Expr
  | lam fm p b => do
    if fm.ty.isSome then
      let q ← Pass.freshFrom p
      Pass.note (.reassociated x p q)
      if b.isAnnotatedFor p then
        let inner ← letOver m x v (b.rename p q)
        return lam fm q inner
      else Pass.fault .notAnnotated
    else Pass.fault (.untypedNode (lam fm p b).reportedKind)
  | body => do
    let t ← Pass.orFault body.getTy
    return letIn { m with ty := some t } x v body
termination_by body => body.size
decreasing_by simp [size, size_rename]

abbrev Inliner := Expr → InlineEnv → Pass Expr

/-! One rule for each kind of node; `run` inlines in the trees that come up. -/

section Rules

variable (run : Inliner) (m : Mark) (x : String)

def inlineLam (b : Expr) (env : InlineEnv) : Pass Expr := do
  let inside ← enter env x none
  let b ← inside.scope b
  return lam m inside.name (← run b inside.env)

/-- Inline in the scope of a name that goes away: a value stands for it. -/
def inlinePut (v b : Expr) (env : InlineEnv) : Pass Expr := do
  let inside ← enter env x (some v)
  let b ← inside.scope b
  run b inside.env

def inlineApp (f a : Expr) (env : InlineEnv) : Pass Expr := do
  let f ← run f env
  let a ← run a env
  match f.function? with
  | none => return app m f a
  | some (x, b) =>
    Pass.note (.inlined f x a)
    inlinePut run x a b env

/-- Inline in a `let` whose value is no `let`. -/
def inlineLet (v b : Expr) (env : InlineEnv) : Pass Expr := do
  let v ← run v env
  let t ← Pass.orFault v.getTy
  if t.isFunction then
    Pass.note (.eliminated x v)
    inlinePut run x v b env
  else
    let inside ← enter env x none
    let b ← inside.scope b
    let b ← run b inside.env
    letOver m inside.name v b

def inlineLetRec (v b : Expr) (env : InlineEnv) : Pass Expr := do
  let inside ← enter env x none
  let v ← inside.scope v
  let b ← inside.scope b
  let v ← run v inside.env
  let b ← run b inside.env
  return letRec m inside.name v b

def inlineBinary (op : Operator) (l r : Expr) (env : InlineEnv) : Pass Expr := do
  let l ← run l env
  let r ← run r env
  return binary m op l r

def inlineCond (c t e : Expr) (env : InlineEnv) : Pass Expr := do
  let c ← run c env
  let t ← run t env
  let e ← run e env
  return cond m c t e

end Rules

def inlineStep (run : Inliner) (e : Expr) (env : InlineEnv) : Pass Expr :=
  if !e.hasTy then Pass.fault .notAnnotated
  else match e with
  | int .. | bool .. | bare _ => return e
  | var _ x => return (env.get? x).getD e
  | lam m x b => inlineLam run m x b env
  | app m f a => inlineApp run m f a env
  | letRec m x v b => inlineLetRec run m x v b env
  | letIn m x (letIn ⟨loc, some t⟩ y v w) b => do
    let e ← rotate m x ⟨loc, some t⟩ y v w b
    run e env
  | letIn m x v b => inlineLet run m x v b env
  | binary m op l r => inlineBinary run m op l r env
  | cond m c t e => inlineCond run m c t e env

/-- Inline in a tree, to a given depth. -/
def inlineIn : Nat → Inliner
  | 0, _, _ => Pass.fault .tooDeep
  | depth + 1, e, env => inlineStep (inlineIn depth) e env

end Expr
end LetLower
