import LetLower.Infer
import Mathlib.Logic.Relation

/-!
# The calls of a run of inference

Inference goes through a tree part by part. `InferCall.Makes` lists the calls that a call makes at
once, one for each part, and `InferCall.Updates` the substitutions that it puts into its environment
for the parts that follow. A call that is reached need not return, nor need the run that it is part
of.
-/

namespace LetLower

/-- A call of inference: the tree, its environment, and the state in which it is made. -/
structure InferCall where
  tree : Expr
  env : TyEnv
  state : PassState

namespace InferCall

def run (c : InferCall) : EStateM.Result Failure PassState Inferred := c.tree.inferIn c.env c.state

/-- The call, with the answers to the calls that it makes and a way to update its environment. -/
def runWith (answer : Expr → Inference) (update : Subst → TyEnv → TyEnv)
    (c : InferCall) : EStateM.Result Failure PassState Inferred :=
  c.tree.inferStep answer update c.env c.state

/-- The call puts the substitution into its environment in the state given last. -/
inductive Updates : InferCall → Subst → PassState → Prop
  | app {m f a env s r s₁} (hf : f.inferIn env s = .ok r s₁) :
      Updates ⟨.app m f a, env, s⟩ r.subst s₁
  | letIn {m x v b env s r s₁} (hv : v.inferIn env s = .ok r s₁) :
      Updates ⟨.letIn m x v b, env, s⟩ r.subst s₁
  | letRec {m x v b env s own s₁ r s₂ u s₃ found s₄} (ho : Pass.freshVar s = .ok own s₁)
      (hv : v.inferIn (env.insert x (.mono own)) s₁ = .ok r s₂)
      (hu : Pass.unify r.ty (own.apply r.subst) m.loc s₂ = .ok u s₃)
      (hs : Pass.compose u.subst r.subst s₃ = .ok found s₄) :
      Updates ⟨.letRec m x v b, env, s⟩ found s₄
  | right {m op l r env s p s₁ u s₂ found s₃} (hl : l.inferIn env s = .ok p s₁)
      (hu : Pass.unify p.ty .int (l.loc.or m.loc) s₁ = .ok u s₂)
      (hs : Pass.compose u.subst p.subst s₂ = .ok found s₃) :
      Updates ⟨.binary m op l r, env, s⟩ found s₃
  | yes {m c t e env s p s₁ u s₂ found s₃} (hc : c.inferIn env s = .ok p s₁)
      (hu : Pass.unify p.ty .bool (c.loc.or m.loc) s₁ = .ok u s₂)
      (hs : Pass.compose u.subst p.subst s₂ = .ok found s₃) :
      Updates ⟨.cond m c t e, env, s⟩ found s₃
  | no {m c t e env s p s₁ u s₂ found s₃ q s₄ found' s₅} (hc : c.inferIn env s = .ok p s₁)
      (hu : Pass.unify p.ty .bool (c.loc.or m.loc) s₁ = .ok u s₂)
      (hs : Pass.compose u.subst p.subst s₂ = .ok found s₃)
      (hy : t.inferIn (env.apply found) s₃ = .ok q s₄)
      (hs' : Pass.compose q.subst found s₄ = .ok found' s₅) :
      Updates ⟨.cond m c t e, env, s⟩ found' s₅

/-- The calls that a call makes at once. Each is made when those before it have returned. -/
inductive Makes : InferCall → InferCall → Prop
  | lam {m x b env s a s₁} (ha : Pass.freshVar s = .ok a s₁) :
      Makes ⟨.lam m x b, env, s⟩ ⟨b, env.insert x (.mono a), s₁⟩
  | callee {m f a env s} : Makes ⟨.app m f a, env, s⟩ ⟨f, env, s⟩
  | argument {m f a env s r s₁} (hf : f.inferIn env s = .ok r s₁) :
      Makes ⟨.app m f a, env, s⟩ ⟨a, env.apply r.subst, s₁⟩
  | value {m x v b env s} : Makes ⟨.letIn m x v b, env, s⟩ ⟨v, env, s⟩
  | body {m x v b env s r s₁ c s₂ s₃} (hv : v.inferIn env s = .ok r s₁)
      (hc : Pass.generalize (env.apply r.subst) (r.ty.apply r.subst) s₁ = .ok c s₂)
      (hn : Pass.note (.bound false x c) s₂ = .ok () s₃) :
      Makes ⟨.letIn m x v b, env, s⟩ ⟨b, Bindings.insert (env.apply r.subst) x c, s₃⟩
  | recValue {m x v b env s own s₁} (ho : Pass.freshVar s = .ok own s₁) :
      Makes ⟨.letRec m x v b, env, s⟩ ⟨v, env.insert x (.mono own), s₁⟩
  | recBody {m x v b env s own s₁ r s₂ u s₃ found s₄ c s₅ s₆}
      (ho : Pass.freshVar s = .ok own s₁)
      (hv : v.inferIn (env.insert x (.mono own)) s₁ = .ok r s₂)
      (hu : Pass.unify r.ty (own.apply r.subst) m.loc s₂ = .ok u s₃)
      (hs : Pass.compose u.subst r.subst s₃ = .ok found s₄)
      (hc : Pass.generalize (env.apply found) u.type s₄ = .ok c s₅)
      (hn : Pass.note (.bound true x c) s₅ = .ok () s₆) :
      Makes ⟨.letRec m x v b, env, s⟩ ⟨b, Bindings.insert (env.apply found) x c, s₆⟩
  | left {m op l r env s} : Makes ⟨.binary m op l r, env, s⟩ ⟨l, env, s⟩
  | right {m op l r env s p s₁ u s₂ found s₃} (hl : l.inferIn env s = .ok p s₁)
      (hu : Pass.unify p.ty .int (l.loc.or m.loc) s₁ = .ok u s₂)
      (hs : Pass.compose u.subst p.subst s₂ = .ok found s₃) :
      Makes ⟨.binary m op l r, env, s⟩ ⟨r, env.apply found, s₃⟩
  | condition {m c t e env s} : Makes ⟨.cond m c t e, env, s⟩ ⟨c, env, s⟩
  | yes {m c t e env s p s₁ u s₂ found s₃} (hc : c.inferIn env s = .ok p s₁)
      (hu : Pass.unify p.ty .bool (c.loc.or m.loc) s₁ = .ok u s₂)
      (hs : Pass.compose u.subst p.subst s₂ = .ok found s₃) :
      Makes ⟨.cond m c t e, env, s⟩ ⟨t, env.apply found, s₃⟩
  | no {m c t e env s p s₁ u s₂ found s₃ q s₄ found' s₅} (hc : c.inferIn env s = .ok p s₁)
      (hu : Pass.unify p.ty .bool (c.loc.or m.loc) s₁ = .ok u s₂)
      (hs : Pass.compose u.subst p.subst s₂ = .ok found s₃)
      (hy : t.inferIn (env.apply found) s₃ = .ok q s₄)
      (hs' : Pass.compose q.subst found s₄ = .ok found' s₅) :
      Makes ⟨.cond m c t e, env, s⟩ ⟨e, env.apply found', s₅⟩

abbrev Reaches : InferCall → InferCall → Prop := Relation.ReflTransGen Makes

def first (e : Expr) (env : TyEnv) (names : NameSupply) : InferCall := ⟨e, env, { names }⟩

end InferCall
end LetLower
