import LetLower.Pass
import LetLower.Expr.Annotated

/-!
# Type inference

Every part is inferred in the environment as all parts before it have left it, and gives a tree
with types, the type of the whole, and the substitution it found. Types already put into the tree
are completed by one final pass of the whole substitution. A `let` generalises; a `let rec` is
used at one type in its own value and at any instance in its body.
-/

namespace LetLower

/-- What inference finds: a tree with types, its type, and what was solved on the way. -/
structure Inferred where
  tree : Expr
  ty : Ty
  subst : Subst

namespace Inferred

def completed (r : Inferred) : Expr := r.tree.substitute r.subst

end Inferred

/-- The inference of an expression, in an environment. -/
abbrev Inference := TyEnv → Pass Inferred

namespace Expr

/-! One rule for each kind of node, from the inferences of its parts. A part that has to be of a
certain type is reported at its own place, or at that of the node if it has none. -/

section Rules

variable (update : Subst → TyEnv → TyEnv) (m : Mark) (x : String)

def inferLeaf (t : Ty) (node : Mark → Expr) : Pass Inferred :=
  return ⟨node { m with ty := some t }, t, ∅⟩

def inferVar (env : TyEnv) : Pass Inferred :=
  match env.get? x with
  | none => Pass.report (.undefinedVariable x m.loc)
  | some c => do
    let t ← Pass.instantiate c
    inferLeaf m t (var · x)

def inferLam (body : Inference) (env : TyEnv) : Pass Inferred := do
  let a ← Pass.freshVar
  let body ← body (env.insert x (.mono a))
  let t := .fn (a.apply body.subst) body.ty
  return ⟨lam { m with ty := some t } x body.tree, t, body.subst⟩

def inferApp (callee argument : Inference) (env : TyEnv) : Pass Inferred := do
  let callee ← callee env
  let argument ← argument (update callee.subst env)
  let result ← Pass.freshVar
  let u ← Pass.unify (callee.ty.apply argument.subst) (.fn argument.ty result) m.loc
  let whole ← Pass.composeAll [callee.subst, argument.subst, u.subst]
  let t := result.apply u.subst
  return ⟨app { m with ty := some t } callee.tree argument.tree, t, whole⟩

def inferLet (value body : Inference) (env : TyEnv) : Pass Inferred := do
  let value ← value env
  let env := update value.subst env
  let c ← Pass.generalize env (value.ty.apply value.subst)
  Pass.note (.bound false x c)
  let body ← body (env.insert x c)
  let whole ← Pass.compose body.subst value.subst
  return ⟨letIn { m with ty := some body.ty } x value.tree body.tree, body.ty, whole⟩

def inferLetRec (value body : Inference) (env : TyEnv) : Pass Inferred := do
  let own ← Pass.freshVar
  let value ← value (env.insert x (.mono own))
  let u ← Pass.unify value.ty (own.apply value.subst) m.loc
  let found ← Pass.compose u.subst value.subst
  let env := update found env
  let c ← Pass.generalize env u.type
  Pass.note (.bound true x c)
  let body ← body (env.insert x c)
  let whole ← Pass.compose body.subst found
  let tree := letRec { m with ty := some body.ty } x (value.tree.substitute u.subst) body.tree
  return ⟨tree, body.ty, whole⟩

def inferBinary (op : Operator) (leftLoc rightLoc : Option Location) (left right : Inference)
    (env : TyEnv) : Pass Inferred := do
  let left ← left env
  let u ← Pass.unify left.ty .int (leftLoc.or m.loc)
  let found ← Pass.compose u.subst left.subst
  let right ← right (update found env)
  let u ← Pass.unify right.ty .int (rightLoc.or m.loc)
  let found ← Pass.compose right.subst found
  let whole ← Pass.compose u.subst found
  let t := op.resultTy
  return ⟨binary { m with ty := some t } op left.tree right.tree, t, whole⟩

def inferCond (conditionLoc : Option Location) (condition yes no : Inference)
    (env : TyEnv) : Pass Inferred := do
  let condition ← condition env
  let u ← Pass.unify condition.ty .bool (conditionLoc.or m.loc)
  let found ← Pass.compose u.subst condition.subst
  let yes ← yes (update found env)
  let found ← Pass.compose yes.subst found
  let no ← no (update found env)
  let found ← Pass.compose no.subst found
  let u ← Pass.unify (yes.ty.apply no.subst) no.ty m.loc
  let whole ← Pass.compose u.subst found
  let tree := cond { m with ty := some u.type } condition.tree yes.tree no.tree
  return ⟨tree, u.type, whole⟩

end Rules

/-- Infer an expression, with the answers for its parts and a way to put a substitution into an
environment. -/
def inferStep (answer : Expr → Inference) (update : Subst → TyEnv → TyEnv) :
    Expr → TyEnv → Pass Inferred
  | int m n, _ => inferLeaf m .int (int · n)
  | bool m b, _ => inferLeaf m .bool (bool · b)
  | var m x, env => inferVar m x env
  | lam m x b, env => inferLam m x (answer b) env
  | app m f a, env => inferApp update m (answer f) (answer a) env
  | letIn m x v b, env => inferLet update m x (answer v) (answer b) env
  | letRec m x v b, env => inferLetRec update m x (answer v) (answer b) env
  | binary m op l r, env => inferBinary update m op l.loc r.loc (answer l) (answer r) env
  | cond m c t e, env => inferCond update m c.loc (answer c) (answer t) (answer e) env
  | bare _, _ => Pass.fault .unknownNode

def inferIn : Expr → TyEnv → Pass Inferred
  | int m n, _ => inferLeaf m .int (int · n)
  | bool m b, _ => inferLeaf m .bool (bool · b)
  | var m x, env => inferVar m x env
  | lam m x b, env => inferLam m x b.inferIn env
  | app m f a, env => inferApp TyEnv.apply m f.inferIn a.inferIn env
  | letIn m x v b, env => inferLet TyEnv.apply m x v.inferIn b.inferIn env
  | letRec m x v b, env => inferLetRec TyEnv.apply m x v.inferIn b.inferIn env
  | binary m op l r, env => inferBinary TyEnv.apply m op l.loc r.loc l.inferIn r.inferIn env
  | cond m c t e, env => inferCond TyEnv.apply m c.loc c.inferIn t.inferIn e.inferIn env
  | bare _, _ => Pass.fault .unknownNode

theorem inferIn_eq_inferStep (e : Expr) : e.inferIn = e.inferStep inferIn TyEnv.apply := by
  cases e <;> rfl

/-- Infer an expression; the types in the tree are not yet completed. -/
def infer (e : Expr) (env : TyEnv) : Pass Inferred := do
  let r ← e.inferIn env
  Pass.note (.inferred r.ty r.subst)
  return r

/-- Infer an expression and complete every type in the tree. -/
def inferTypes (e : Expr) (env : TyEnv) : Pass Expr := return (← e.infer env).completed

end Expr
end LetLower
