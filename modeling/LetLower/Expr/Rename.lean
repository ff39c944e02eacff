import LetLower.Expr.Annotated

/-!
# Renaming free occurrences

A name is renamed where it occurs free, up to the binders that shadow it. The value of a `let`
lies outside its scope, that of a `let rec` inside.
-/

namespace LetLower.Expr

def rename (old new : String) : Expr → Expr
  | int m n => int m n
  | bool m b => bool m b
  | var m x => if x = old then var m new else var m x
  | lam m x b => if x = old then lam m x b else lam m x (b.rename old new)
  | app m f a => app m (f.rename old new) (a.rename old new)
  | letIn m x v b =>
    letIn m x (v.rename old new) (if x = old then b else b.rename old new)
  | letRec m x v b =>
    if x = old then letRec m x v b else letRec m x (v.rename old new) (b.rename old new)
  | binary m op l r => binary m op (l.rename old new) (r.rename old new)
  | cond m c t e => cond m (c.rename old new) (t.rename old new) (e.rename old new)
  | bare m => bare m

theorem size_rename (old new : String) (e : Expr) : (e.rename old new).size = e.size := by
  induction e with
  | int | bool | bare => rfl
  | var m x => rw [rename]; split <;> rfl
  | lam m x b ih => rw [rename]; split <;> simp [size, ih]
  | app m f a ihf iha => simp [rename, size, ihf, iha]
  | letIn m x v b ihv ihb => rw [rename]; split <;> simp [size, ihv, ihb]
  | letRec m x v b ihv ihb => rw [rename]; split <;> simp [size, ihv, ihb]
  | binary m op l r ihl ihr => simp [rename, size, ihl, ihr]
  | cond m c t e ihc iht ihe => simp [rename, size, ihc, iht, ihe]

def isAnnotatedFor (old : String) : Expr → Bool
  | int m _ | bool m _ | var m _ => m.ty.isSome
  | lam m x b => m.ty.isSome && (x = old || b.isAnnotatedFor old)
  | app m a b | binary m _ a b => m.ty.isSome && a.isAnnotatedFor old && b.isAnnotatedFor old
  | letIn m x v b =>
    m.ty.isSome && v.isAnnotatedFor old && (x = old || b.isAnnotatedFor old)
  | letRec m x v b =>
    m.ty.isSome && (x = old || v.isAnnotatedFor old && b.isAnnotatedFor old)
  | cond m a b c =>
    m.ty.isSome && a.isAnnotatedFor old && b.isAnnotatedFor old && c.isAnnotatedFor old
  | bare _ => false

theorem isAnnotatedFor_of_isAnnotated {old : String} {e : Expr} (h : e.isAnnotated) :
    e.isAnnotatedFor old := by
  induction e <;> simp_all [isAnnotated, isAnnotatedFor]

/-- As `rename`, of a tree that has to be annotated as far as it is looked at. -/
def rename? (old new : String) (e : Expr) : Except Fault Expr :=
  if e.isAnnotatedFor old then .ok (e.rename old new) else .error .notAnnotated

end LetLower.Expr
