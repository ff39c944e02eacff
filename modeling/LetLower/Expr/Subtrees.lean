import LetLower.Expr.Basic

/-!
# The parts of a tree

All nodes of a tree in one list, and all names that a tree is written with, bound or free.
-/

namespace LetLower.Expr

/-- The tree and all that stands below it, from the root down and from left to right. -/
def subtrees : Expr → List Expr
  | int m n => [int m n]
  | bool m b => [bool m b]
  | var m x => [var m x]
  | lam m x b => lam m x b :: b.subtrees
  | app m f a => app m f a :: (f.subtrees ++ a.subtrees)
  | letIn m x v b => letIn m x v b :: (v.subtrees ++ b.subtrees)
  | letRec m x v b => letRec m x v b :: (v.subtrees ++ b.subtrees)
  | binary m op l r => binary m op l r :: (l.subtrees ++ r.subtrees)
  | cond m c t e => cond m c t e :: (c.subtrees ++ t.subtrees ++ e.subtrees)
  | bare m => [bare m]

theorem mem_subtrees_self (e : Expr) : e ∈ e.subtrees := by cases e <;> simp [subtrees]

def isLet : Expr → Bool
  | letIn .. => true
  | _ => false

def lets (e : Expr) : Nat := e.subtrees.countP isLet

def marks (e : Expr) : List Mark := e.subtrees.map mark

/-- The names in the tree, those of binders and those that are used. -/
def names : Expr → List String
  | int .. | bool .. | bare _ => []
  | var _ x => [x]
  | lam _ x b => x :: b.names
  | app _ a b | binary _ _ a b => a.names ++ b.names
  | letIn _ x v b | letRec _ x v b => x :: (v.names ++ b.names)
  | cond _ c t e => c.names ++ t.names ++ e.names

theorem mem_names_of_mem_free {e : Expr} {x : String} (h : x ∈ e.free) : x ∈ e.names := by
  induction e with
  | int | bool | bare => simp [free] at h
  | var m y => simpa [free, names] using h
  | lam m y b ih => exact .tail _ (ih (NameSet.mem_erase.1 h).1)
  | app m f a ihf iha => exact List.mem_append.2 ((NameSet.mem_union.1 h).imp ihf iha)
  | binary m op l r ihl ihr => exact List.mem_append.2 ((NameSet.mem_union.1 h).imp ihl ihr)
  | letIn m y v b ihv ihb =>
    refine .tail _ (List.mem_append.2 ((NameSet.mem_union.1 h).imp ihv fun h => ?_))
    exact ihb (NameSet.mem_erase.1 h).1
  | letRec m y v b ihv ihb =>
    exact .tail _ (List.mem_append.2
      ((NameSet.mem_union.1 (NameSet.mem_erase.1 h).1).imp ihv ihb))
  | cond m c t e ihc iht ihe =>
    exact List.mem_append.2 ((NameSet.mem_union.1 h).imp
      (fun h => List.mem_append.2 ((NameSet.mem_union.1 h).imp ihc iht)) ihe)

/-- No name in the tree has the mark of a generated one. -/
def HasPlainNames (e : Expr) : Prop := ∀ x ∈ e.names, '$' ∉ x.toList

instance (e : Expr) : Decidable e.HasPlainNames :=
  inferInstanceAs (Decidable (∀ x ∈ e.names, '$' ∉ x.toList))

end LetLower.Expr
