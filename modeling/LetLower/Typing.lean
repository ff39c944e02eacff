import LetLower.Expr.Basic
import LetLower.Ty.Env

/-!
# Typing

The rules for types, without regard to how a type is found. A name has any instance of its scheme.
A parameter has one type throughout the body. What a `let` binds is generalised over the variables
that the environment does not mention; what a `let rec` binds has one type in its own value, and is
generalised after it.

`Derives agrees env e t` asks in addition that at each node the mark and the type of the node are
related by `agrees`. With nothing asked this is `HasType`, and with each node marked with its type
it is `IsDerivation`: the tree itself is the derivation.
-/

namespace LetLower

/-- A substitution puts in no quantified and no unknown type. -/
def Subst.IsPlain (s : Subst) : Prop := ∀ x t, s.get? x = some t → t.IsPlain

/-- A type is what a scheme says with types put in for its bound variables. -/
def Scheme.HasInstance (c : Scheme) (t : Ty) : Prop :=
  ∃ s : Subst, s.IsPlain ∧ (∀ x ∈ s, x ∈ c.bound) ∧ t = c.body.apply s

theorem Scheme.hasInstance_mono (t : Ty) : (Scheme.mono t).HasInstance t :=
  ⟨∅, fun _ _ h => by simp at h, fun x h => absurd h (Bindings.not_mem_empty x), by simp [mono]⟩

/-- One type arises from another by putting in types for variables. -/
def Ty.IsInstanceOf (t u : Ty) : Prop := ∃ s : Subst, s.IsPlain ∧ t = u.apply s

namespace Expr

inductive Derives (agrees : Mark → Ty → Prop) : TyEnv → Expr → Ty → Prop
  | int {env m n} (hm : agrees m .int) : Derives agrees env (.int m n) .int
  | bool {env m b} (hm : agrees m .bool) : Derives agrees env (.bool m b) .bool
  | var {env m x c t} (hm : agrees m t) (hx : env.get? x = some c) (hc : c.HasInstance t) :
      Derives agrees env (.var m x) t
  | lam {env m x b a r} (hm : agrees m (.fn a r)) (ha : a.IsPlain)
      (hb : Derives agrees (env.insert x (.mono a)) b r) : Derives agrees env (.lam m x b) (.fn a r)
  | app {env m f e a r} (hm : agrees m r) (hf : Derives agrees env f (.fn a r))
      (he : Derives agrees env e a) : Derives agrees env (.app m f e) r
  | letIn {env m x v b a t} (hm : agrees m t) (hv : Derives agrees env v a)
      (hb : Derives agrees (env.insert x (env.generalize a)) b t) :
      Derives agrees env (.letIn m x v b) t
  | letRec {env m x v b a t} (hm : agrees m t) (ha : a.IsPlain)
      (hv : Derives agrees (env.insert x (.mono a)) v a)
      (hb : Derives agrees (env.insert x (env.generalize a)) b t) :
      Derives agrees env (.letRec m x v b) t
  | binary {env m op l r} (hm : agrees m op.resultTy) (hl : Derives agrees env l .int)
      (hr : Derives agrees env r .int) : Derives agrees env (.binary m op l r) op.resultTy
  | cond {env m c y n t} (hm : agrees m t) (hc : Derives agrees env c .bool)
      (hy : Derives agrees env y t) (hn : Derives agrees env n t) :
      Derives agrees env (.cond m c y n) t

/-- The expression has the type, whatever its nodes are marked with. -/
def HasType (env : TyEnv) (e : Expr) (t : Ty) : Prop := Derives (fun _ _ => True) env e t

/-- The types that the nodes are marked with derive the type of the root. -/
def IsDerivation (env : TyEnv) (e : Expr) (t : Ty) : Prop :=
  Derives (fun m t => m.ty = some t) env e t

theorem Derives.mono {agrees agrees' : Mark → Ty → Prop} {env : TyEnv} {e : Expr} {t : Ty}
    (h : ∀ m t, agrees m t → agrees' m t) (he : Derives agrees env e t) :
    Derives agrees' env e t := by
  induction he with
  | int hm => exact .int (h _ _ hm)
  | bool hm => exact .bool (h _ _ hm)
  | var hm hx hc => exact .var (h _ _ hm) hx hc
  | lam hm ha _ ih => exact .lam (h _ _ hm) ha ih
  | app hm _ _ ihf ihe => exact .app (h _ _ hm) ihf ihe
  | letIn hm _ _ ihv ihb => exact .letIn (h _ _ hm) ihv ihb
  | letRec hm ha _ _ ihv ihb => exact .letRec (h _ _ hm) ha ihv ihb
  | binary hm _ _ ihl ihr => exact .binary (h _ _ hm) ihl ihr
  | cond hm _ _ _ ihc ihy ihn => exact .cond (h _ _ hm) ihc ihy ihn

theorem IsDerivation.hasType {env : TyEnv} {e : Expr} {t : Ty} (h : e.IsDerivation env t) :
    e.HasType env t :=
  Derives.mono (fun _ _ _ => trivial) h

end Expr

/-- All schemes are closed, and quantify over the whole of their type. -/
def TyEnv.IsClosed (env : TyEnv) : Prop := ∀ x c, env.get? x = some c → c.IsClosed ∧ c.body.IsPlain

end LetLower
