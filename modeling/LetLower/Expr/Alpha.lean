import LetLower.Expr.Basic

/-!
# Equality up to the names of binders

Two trees are compared side by side, under the binders passed so far in pairs. Two names agree when
the same pair binds them, or when none binds either and they are equal. What the nodes carry is not
compared.
-/

namespace LetLower.Expr

/-- Two names agree under pairs of binders, the nearest pair first. -/
def nameAgrees : List (String × String) → String → String → Bool
  | [], x, y => x = y
  | (a, b) :: pairs, x, y => if x = a then y = b else y ≠ b && nameAgrees pairs x y

theorem nameAgrees_self {pairs : List (String × String)} (h : ∀ p ∈ pairs, p.1 = p.2)
    (x : String) : nameAgrees pairs x x := by
  induction pairs with
  | nil => simp [nameAgrees]
  | cons p pairs ih =>
    obtain ⟨a, b⟩ := p
    obtain rfl : a = b := h (a, b) (by simp)
    by_cases hx : x = a <;> simp_all [nameAgrees]

def alphaUnder : List (String × String) → Expr → Expr → Bool
  | _, int _ m, int _ n => m = n
  | _, bool _ a, bool _ b => a = b
  | pairs, var _ x, var _ y => nameAgrees pairs x y
  | pairs, lam _ x b, lam _ y c => alphaUnder ((x, y) :: pairs) b c
  | pairs, app _ f a, app _ g b => alphaUnder pairs f g && alphaUnder pairs a b
  | pairs, letIn _ x v b, letIn _ y w c =>
    alphaUnder pairs v w && alphaUnder ((x, y) :: pairs) b c
  | pairs, letRec _ x v b, letRec _ y w c =>
    alphaUnder ((x, y) :: pairs) v w && alphaUnder ((x, y) :: pairs) b c
  | pairs, binary _ op l r, binary _ op' l' r' =>
    op = op' && alphaUnder pairs l l' && alphaUnder pairs r r'
  | pairs, cond _ c t e, cond _ c' t' e' =>
    alphaUnder pairs c c' && alphaUnder pairs t t' && alphaUnder pairs e e'
  | _, bare _, bare _ => true
  | _, _, _ => false

/-- The trees differ at most in the names of their binders and in what their nodes carry. -/
def AlphaEq (a b : Expr) : Prop := alphaUnder [] a b

instance (a b : Expr) : Decidable (AlphaEq a b) :=
  inferInstanceAs (Decidable (alphaUnder [] a b = true))

theorem AlphaEq.refl (e : Expr) : AlphaEq e e := by
  have key : ∀ {pairs : List (String × String)}, (∀ p ∈ pairs, p.1 = p.2) →
      alphaUnder pairs e e := by
    induction e with
    | int | bool | bare => intros; simp [alphaUnder]
    | var m x => intro pairs h; exact nameAgrees_self h x
    | lam m x b ih => intro pairs h; exact ih (by simpa using h)
    | app m f a ihf iha => intro pairs h; simp [alphaUnder, ihf h, iha h]
    | letIn m x v b ihv ihb =>
      intro pairs h
      have h' : ∀ p ∈ (x, x) :: pairs, p.1 = p.2 := by simpa using h
      simp [alphaUnder, ihv h, ihb h']
    | letRec m x v b ihv ihb =>
      intro pairs h
      have h' : ∀ p ∈ (x, x) :: pairs, p.1 = p.2 := by simpa using h
      simp [alphaUnder, ihv h', ihb h']
    | binary m op l r ihl ihr => intro pairs h; simp [alphaUnder, ihl h, ihr h]
    | cond m c t e ihc iht ihe => intro pairs h; simp [alphaUnder, ihc h, iht h, ihe h]
  exact key (by simp)

end LetLower.Expr
