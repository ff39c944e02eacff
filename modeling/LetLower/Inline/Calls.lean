import LetLower.Inline
import Mathlib.Logic.Relation

/-!
# The calls of a run of inlining

Inlining goes through a tree call by call. `InlineCall.Makes` lists the calls that a call makes
at once, each with the state in which it is made. A call that is reached need not return, nor need
the run that it is part of.
-/

namespace LetLower

namespace Expr

/-- Put in what stands for the names. No binder is renamed. -/
def fill (env : InlineEnv) : Expr → Expr
  | int m n => int m n
  | bool m b => bool m b
  | var m x => (env.get? x).getD (var m x)
  | lam m x b => lam m x (b.fill (env.erase x))
  | app m f a => app m (f.fill env) (a.fill env)
  | letIn m x v b => letIn m x (v.fill env) (b.fill (env.erase x))
  | letRec m x v b => letRec m x (v.fill (env.erase x)) (b.fill (env.erase x))
  | binary m op l r => binary m op (l.fill env) (r.fill env)
  | cond m c t e => cond m (c.fill env) (t.fill env) (e.fill env)
  | bare m => bare m

def isTypedLet : Expr → Bool
  | letIn m .. => m.ty.isSome
  | _ => false

end Expr

open LetLower.Expr

/-- A call of inlining: the depth that is left, the tree, what stands for the names around it, and
the state in which it is made. -/
structure InlineCall where
  depth : Nat
  tree : Expr
  env : InlineEnv
  state : PassState

namespace InlineCall

def run (c : InlineCall) : EStateM.Result Failure PassState Expr :=
  inlineIn c.depth c.tree c.env c.state

def runWith (answer : Inliner) (c : InlineCall) :
    EStateM.Result Failure PassState Expr :=
  match c.depth with
  | 0 => Pass.fault .tooDeep c.state
  | _ + 1 => inlineStep answer c.tree c.env c.state

/-- No name that the call replaces is left, neither in what it puts in nor in its result. The names
of the result are names of the tree that it does not replace, and names of what it puts in. -/
structure IsApart (c : InlineCall) : Prop where
  values : ∀ x ∈ c.env, ∀ y w, c.env.get? y = some w → x ∉ w.free
  free : ∀ r s, c.run = .ok r s → ∀ z ∈ r.free,
    z ∈ c.tree.free ∧ z ∉ c.env ∨ ∃ y w, c.env.get? y = some w ∧ z ∈ w.free
  keys : ∀ r s, c.run = .ok r s → ∀ x ∈ c.env, x ∉ r.free
  again : ∀ r s, c.run = .ok r s → r.fill c.env = r

/-- The calls that a call makes at once. Each is made when those before it have returned. -/
inductive Makes : InlineCall → InlineCall → Prop
  | lam {depth m x b env s inside s₁ b' s₂} (hm : m.ty.isSome)
      (hi : enter env x none s = .ok inside s₁) (hb : inside.scope b s₁ = .ok b' s₂) :
      Makes ⟨depth + 1, .lam m x b, env, s⟩ ⟨depth, b', inside.env, s₂⟩
  | callee {depth m f a env s} (hm : m.ty.isSome) :
      Makes ⟨depth + 1, .app m f a, env, s⟩ ⟨depth, f, env, s⟩
  | argument {depth m f a env s f' s₁} (hm : m.ty.isSome)
      (hf : inlineIn depth f env s = .ok f' s₁) :
      Makes ⟨depth + 1, .app m f a, env, s⟩ ⟨depth, a, env, s₁⟩
  | beta {depth m f a env s f' s₁ a' s₂ x b s₃ inside s₄ b' s₅} (hm : m.ty.isSome)
      (hf : inlineIn depth f env s = .ok f' s₁) (ha : inlineIn depth a env s₁ = .ok a' s₂)
      (hx : f'.function? = some (x, b)) (hn : Pass.note (.inlined f' x a') s₂ = .ok () s₃)
      (hi : enter env x (some a') s₃ = .ok inside s₄) (hb : inside.scope b s₄ = .ok b' s₅) :
      Makes ⟨depth + 1, .app m f a, env, s⟩ ⟨depth, b', inside.env, s₅⟩
  | recValue {depth m x v b env s inside s₁ v' s₂ b' s₃} (hm : m.ty.isSome)
      (hi : enter env x none s = .ok inside s₁) (hv : inside.scope v s₁ = .ok v' s₂)
      (hb : inside.scope b s₂ = .ok b' s₃) :
      Makes ⟨depth + 1, .letRec m x v b, env, s⟩ ⟨depth, v', inside.env, s₃⟩
  | recBody {depth m x v b env s inside s₁ v' s₂ b' s₃ v'' s₄} (hm : m.ty.isSome)
      (hi : enter env x none s = .ok inside s₁) (hv : inside.scope v s₁ = .ok v' s₂)
      (hb : inside.scope b s₂ = .ok b' s₃) (hr : inlineIn depth v' inside.env s₃ = .ok v'' s₄) :
      Makes ⟨depth + 1, .letRec m x v b, env, s⟩ ⟨depth, b', inside.env, s₄⟩
  | rotated {depth m x loc t y v w b env s e s₁} (hm : m.ty.isSome)
      (hr : rotate m x ⟨loc, some t⟩ y v w b s = .ok e s₁) :
      Makes ⟨depth + 1, .letIn m x (.letIn ⟨loc, some t⟩ y v w) b, env, s⟩ ⟨depth, e, env, s₁⟩
  | value {depth m x v b env s} (hm : m.ty.isSome) (hl : v.isTypedLet = false) :
      Makes ⟨depth + 1, .letIn m x v b, env, s⟩ ⟨depth, v, env, s⟩
  | eliminated {depth m x v b env s v' s₁ t s₂ inside s₃ b' s₄} (hm : m.ty.isSome)
      (hl : v.isTypedLet = false) (hv : inlineIn depth v env s = .ok v' s₁)
      (ht : v'.getTy = .ok t) (hf : t.isFunction)
      (hn : Pass.note (.eliminated x v') s₁ = .ok () s₂)
      (hi : enter env x (some v') s₂ = .ok inside s₃) (hb : inside.scope b s₃ = .ok b' s₄) :
      Makes ⟨depth + 1, .letIn m x v b, env, s⟩ ⟨depth, b', inside.env, s₄⟩
  | kept {depth m x v b env s v' s₁ t inside s₂ b' s₃} (hm : m.ty.isSome)
      (hl : v.isTypedLet = false) (hv : inlineIn depth v env s = .ok v' s₁)
      (ht : v'.getTy = .ok t) (hf : t.isFunction = false)
      (hi : enter env x none s₁ = .ok inside s₂) (hb : inside.scope b s₂ = .ok b' s₃) :
      Makes ⟨depth + 1, .letIn m x v b, env, s⟩ ⟨depth, b', inside.env, s₃⟩
  | left {depth m op l r env s} (hm : m.ty.isSome) :
      Makes ⟨depth + 1, .binary m op l r, env, s⟩ ⟨depth, l, env, s⟩
  | right {depth m op l r env s l' s₁} (hm : m.ty.isSome)
      (hl : inlineIn depth l env s = .ok l' s₁) :
      Makes ⟨depth + 1, .binary m op l r, env, s⟩ ⟨depth, r, env, s₁⟩
  | condition {depth m c t e env s} (hm : m.ty.isSome) :
      Makes ⟨depth + 1, .cond m c t e, env, s⟩ ⟨depth, c, env, s⟩
  | yes {depth m c t e env s c' s₁} (hm : m.ty.isSome)
      (hc : inlineIn depth c env s = .ok c' s₁) :
      Makes ⟨depth + 1, .cond m c t e, env, s⟩ ⟨depth, t, env, s₁⟩
  | no {depth m c t e env s c' s₁ t' s₂} (hm : m.ty.isSome)
      (hc : inlineIn depth c env s = .ok c' s₁) (ht : inlineIn depth t env s₁ = .ok t' s₂) :
      Makes ⟨depth + 1, .cond m c t e, env, s⟩ ⟨depth, e, env, s₂⟩

/-- The calls of the run that a call starts. -/
abbrev Reaches : InlineCall → InlineCall → Prop := Relation.ReflTransGen Makes

def first (depth : Nat) (e : Expr) (names : NameSupply) : InlineCall := ⟨depth, e, ∅, { names }⟩

end InlineCall
end LetLower
