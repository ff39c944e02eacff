import LetLower.Expr.Subtrees

/-!
# Normal trees

What inlining leaves nothing to do in: no known function is applied, no `let` binds one, and none
has a function for its body. Beside it stands the class of programs that can always be lowered once
they are normal.
-/

namespace LetLower.Expr

def isLam : Expr → Bool
  | lam .. => true
  | _ => false

/-- A known function is applied or bound here, or stands right below a `let`. -/
def isReducible : Expr → Bool
  | app _ f _ => f.isLam
  | letIn _ _ v b => v.isLam || b.isLam
  | _ => false

def IsNormal (e : Expr) : Prop := ∀ s ∈ e.subtrees, s.isReducible = false

instance (e : Expr) : Decidable e.IsNormal :=
  inferInstanceAs (Decidable (∀ s ∈ e.subtrees, s.isReducible = false))

def bindsFunction : Expr → Bool
  | letIn _ _ v _ => v.ty?.any Ty.isFunction
  | _ => false

/-- No `let` in the tree binds a function, going by the types in it. -/
def BindsData (e : Expr) : Prop := ∀ s ∈ e.subtrees, s.bindsFunction = false

instance (e : Expr) : Decidable e.BindsData :=
  inferInstanceAs (Decidable (∀ s ∈ e.subtrees, s.bindsFunction = false))

/-- A node whose type is left open: it is a variable. -/
def isOpen (e : Expr) : Bool :=
  match e.ty? with
  | some (.var _) => true
  | _ => false

/-- A `let` whose value has an open type. -/
def bindsOpen : Expr → Bool
  | letIn _ _ v _ => v.isOpen
  | _ => false

def yieldsFunction : Expr → Bool
  | letIn m _ _ _ => m.ty.any Ty.isFunction
  | _ => false

/-- Every `let` in the tree has a value for its result, going by the types in it. -/
def YieldsData (e : Expr) : Prop := ∀ s ∈ e.subtrees, s.yieldsFunction = false

instance (e : Expr) : Decidable e.YieldsData :=
  inferInstanceAs (Decidable (∀ s ∈ e.subtrees, s.yieldsFunction = false))

def isStraight : Expr → Bool
  | int .. | bool .. | var .. | lam .. | app .. | letIn .. | binary _ .add _ _ => true
  | letRec .. | binary .. | cond .. | bare _ => false

/-- Nothing in the tree branches, recurs, or computes anything but sums. -/
def IsStraightLine (e : Expr) : Prop := ∀ s ∈ e.subtrees, s.isStraight

instance (e : Expr) : Decidable e.IsStraightLine :=
  inferInstanceAs (Decidable (∀ s ∈ e.subtrees, s.isStraight))

/-- Wherever the name occurs free it is applied to at least `n` arguments, if the whole tree is
applied to `k`. -/
def isAppliedTo (x : String) (n : Nat) : Nat → Expr → Bool
  | k, var _ y => y ≠ x || n ≤ k
  | k, app _ f a => f.isAppliedTo x n (k + 1) && a.isAppliedTo x n 0
  | _, lam _ y b => y = x || b.isAppliedTo x n 0
  | _, letIn _ y v b => v.isAppliedTo x n 0 && (y = x || b.isAppliedTo x n 0)
  | _, letRec _ y v b => y = x || v.isAppliedTo x n 0 && b.isAppliedTo x n 0
  | _, binary _ _ l r => l.isAppliedTo x n 0 && r.isAppliedTo x n 0
  | _, cond _ c t e => c.isAppliedTo x n 0 && t.isAppliedTo x n 0 && e.isAppliedTo x n 0
  | _, int .. | _, bool .. | _, bare _ => true

end LetLower.Expr
