import LetLower.Proofs.Expr.Parts
import LetLower.Proofs.Expr.Rename
import LetLower.Proofs.Reduction.Step
import Mathlib.Logic.Function.Basic

/-!
# The term of an expression

An expression becomes a term once it is said what its free names stand for. A renaming, a
substitution in the terms that the names stand for, and reductions of these are carried through.
-/

namespace LetLower

open Term

def Term.under (σ : String → Term) (x : String) : String → Term :=
  Function.update (fun z => (σ z).shift) x (.var 0)

/-- A relation between terms that all constructs keep. -/
structure Term.Congruence (R : Term → Term → Prop) : Prop where
  refl : ∀ t, R t t
  shift : ∀ {t t'}, R t t' → R t.shift t'.shift
  lam : ∀ {b b'}, R b b' → R (.lam b) (.lam b')
  app : ∀ {f f' a a'}, R f f' → R a a' → R (.app f a) (.app f' a')
  keep : ∀ {v v' b b'}, R v v' → R b b' → R (.keep v b) (.keep v' b')

theorem Term.congruence_eq : Congruence Eq where
  refl _ := rfl
  shift h := h ▸ rfl
  lam h := h ▸ rfl
  app hf ha := hf ▸ ha ▸ rfl
  keep hv hb := hv ▸ hb ▸ rfl

theorem Term.congruence_reduces : Congruence Reduces where
  refl _ := .refl
  shift := .shift
  lam := .lam
  app := .app
  keep := .keep

namespace Expr

/-- The term of an expression whose free names stand for the given terms. -/
def term (σ : String → Term) : Expr → Term
  | int .. | bool .. | bare _ => .atom
  | var _ x => σ x
  | lam _ x b => .lam (b.term (under σ x))
  | app _ f a => .app (f.term σ) (a.term σ)
  | letIn _ x v b => .keep (v.term σ) (b.term (Function.update σ x (v.term σ)))
  | letRec _ x v b =>
    .app (.app .atom (v.term (Function.update σ x .atom))) (b.term (Function.update σ x .atom))
  | binary _ _ l r => .app (.app .atom (l.term σ)) (r.term σ)
  | cond _ c t e => .app (.app (.app .atom (c.term σ)) (t.term σ)) (e.term σ)

variable {R : Term → Term → Prop} {σ τ : String → Term} {e b : Expr} {x y w z : String}
  {a v v' : Term}

theorem rel_update (hv : R v v') (h : z ≠ x → R (σ z) (τ z)) :
    R (Function.update σ x v z) (Function.update τ x v' z) := by
  by_cases hz : z = x
  · rw [hz, Function.update_self, Function.update_self]
    exact hv
  · rw [Function.update_of_ne hz, Function.update_of_ne hz]
    exact h hz

theorem term_rel (hR : Congruence R) (h : ∀ z ∈ e.free, R (σ z) (τ z)) :
    R (e.term σ) (e.term τ) := by
  induction e generalizing σ τ with
  | int | bool | bare => exact hR.refl _
  | var m x => exact h x (NameSet.mem_single.2 rfl)
  | lam m x b ih =>
    refine hR.lam (ih fun z hz => rel_update (hR.refl _) fun hne => ?_)
    exact hR.shift (h z (Inside.lam.free ⟨hz, hne⟩))
  | app m f a ihf iha =>
    exact hR.app (ihf fun z hz => h z (Outside.callee.free hz))
      (iha fun z hz => h z (Outside.argument.free hz))
  | letIn m x v b ihv ihb =>
    have hv := ihv fun z hz => h z (Outside.value.free hz)
    refine hR.keep hv (ihb fun z hz => rel_update hv fun hne => ?_)
    exact h z (Inside.letIn.free ⟨hz, hne⟩)
  | letRec m x v b ihv ihb =>
    refine hR.app (hR.app (hR.refl _) (ihv fun z hz => rel_update (hR.refl _) fun hne => ?_))
      (ihb fun z hz => rel_update (hR.refl _) fun hne => ?_)
    · exact h z (Inside.recursive.free ⟨hz, hne⟩)
    · exact h z (Inside.letRec.free ⟨hz, hne⟩)
  | binary m op l r ihl ihr =>
    exact hR.app (hR.app (hR.refl _) (ihl fun z hz => h z (Outside.left.free hz)))
      (ihr fun z hz => h z (Outside.right.free hz))
  | cond m c y n ihc ihy ihn =>
    have hc := ihc fun z hz => h z (Outside.condition.free hz)
    have hy := ihy fun z hz => h z (Outside.thenBranch.free hz)
    exact hR.app (hR.app (hR.app (hR.refl _) hc) hy)
      (ihn fun z hz => h z (Outside.elseBranch.free hz))

theorem term_congr (h : ∀ z ∈ e.free, σ z = τ z) : e.term σ = e.term τ :=
  term_rel congruence_eq h

theorem term_reduces (h : ∀ z ∈ e.free, Reduces (σ z) (τ z)) : Reduces (e.term σ) (e.term τ) :=
  term_rel congruence_reduces h

theorem term_update_of_not_mem (h : x ∉ e.free) : e.term (Function.update σ x a) = e.term σ :=
  term_congr fun z hz => Function.update_of_ne (fun he : z = x => h (he ▸ hz)) a σ

theorem update_renamed (hy : y = x ∨ y ≠ w) (h : z ≠ w → τ (if z = x then y else z) = σ z) :
    Function.update τ w v (if z = x then (if w = x then x else y) else z)
      = Function.update σ w v z := by
  by_cases hzw : z = w
  · subst hzw
    rw [Function.update_self]
    split
    · rename_i hzx
      rw [hzx, Function.update_self]
    · rw [Function.update_self]
  · rw [Function.update_of_ne hzw, ← h hzw]
    split
    · rename_i hzx
      rw [if_neg fun hwx : w = x => hzw (hzx.trans hwx.symm), Function.update_of_ne]
      exact hy.elim (fun hy => hy ▸ hzx ▸ hzw) id
    · rw [Function.update_of_ne hzw]

/-- A renamed expression, where the new name stands for what the old one stood for. -/
theorem term_rename (hy : y = x ∨ y ∉ e.names)
    (h : ∀ z ∈ e.free, τ (if z = x then y else z) = σ z) : (e.rename x y).term τ = e.term σ := by
  induction e generalizing y σ τ with
  | int | bool | bare => rfl
  | var m z =>
    rw [rename_var]
    exact h z (NameSet.mem_single.2 rfl)
  | lam m w b ih =>
    rw [rename_lam, term, term]
    refine congrArg Term.lam (ih (fresh_inside hy .lam) fun z hz =>
      update_renamed (fresh_name hy .lam) fun hne => ?_)
    exact congrArg shift (h z (Inside.lam.free ⟨hz, hne⟩))
  | app m f a ihf iha =>
    have hf := ihf (fresh_outside hy .callee) fun z hz => h z (Outside.callee.free hz)
    have ha := iha (fresh_outside hy .argument) fun z hz => h z (Outside.argument.free hz)
    rw [rename, term, term, hf, ha]
  | letIn m w v b ihv ihb =>
    have hv := ihv (fresh_outside hy .value) fun z hz => h z (Outside.value.free hz)
    rw [rename_letIn, term, term, hv]
    refine congrArg _ (ihb (fresh_inside hy .letIn) fun z hz =>
      update_renamed (fresh_name hy .letIn) fun hne => ?_)
    exact h z (Inside.letIn.free ⟨hz, hne⟩)
  | letRec m w v b ihv ihb =>
    have hv := ihv (fresh_inside hy .recursive) fun z hz =>
      update_renamed (v := .atom) (fresh_name hy .recursive) fun hne =>
        h z (Inside.recursive.free ⟨hz, hne⟩)
    have hb := ihb (fresh_inside hy .letRec) fun z hz =>
      update_renamed (v := .atom) (fresh_name hy .letRec) fun hne =>
        h z (Inside.letRec.free ⟨hz, hne⟩)
    rw [rename_letRec, term, term, hv, hb]
  | binary m op l r ihl ihr =>
    have hl := ihl (fresh_outside hy .left) fun z hz => h z (Outside.left.free hz)
    have hr := ihr (fresh_outside hy .right) fun z hz => h z (Outside.right.free hz)
    rw [rename, term, term, hl, hr]
  | cond m c t f ihc iht ihf =>
    have hc := ihc (fresh_outside hy .condition) fun z hz => h z (Outside.condition.free hz)
    have ht := iht (fresh_outside hy .thenBranch) fun z hz => h z (Outside.thenBranch.free hz)
    have hf := ihf (fresh_outside hy .elseBranch) fun z hz => h z (Outside.elseBranch.free hz)
    rw [rename, term, term, hc, ht, hf]

theorem term_update_rename (hy : y = x ∨ y ∉ b.names) :
    (b.rename x y).term (Function.update σ y a) = b.term (Function.update σ x a) := by
  refine term_rename hy fun z hz => ?_
  by_cases hzx : z = x
  · rw [if_pos hzx, hzx, Function.update_self, Function.update_self]
  · rw [if_neg hzx, Function.update_of_ne hzx, Function.update_of_ne]
    rintro rfl
    exact hy.elim hzx fun hn => hn (mem_names_of_mem_free hz)

theorem map_update (f : Term → Term) :
    (fun z => f (Function.update σ x a z)) = Function.update (fun z => f (σ z)) x (f a) :=
  funext (Function.apply_update (fun _ => f) σ x a)

theorem under_subst (s : Nat → Term) :
    (fun z => (under σ x z).subst (up s)) = under (fun z => (σ z).subst s) x := by
  rw [under, map_update (Term.subst (up s)), under]
  simp only [shift_subst_up, Term.subst, up]

theorem term_subst (s : Nat → Term) : (e.term σ).subst s = e.term fun z => (σ z).subst s := by
  induction e generalizing σ s with
  | int | bool | bare | var => rfl
  | lam m x b ih => rw [term, Term.subst, ih, under_subst, term]
  | app m f a ihf iha => rw [term, Term.subst, ihf, iha, term]
  | letIn m x v b ihv ihb => rw [term, Term.subst, ihb, map_update (Term.subst s), ihv, term]
  | letRec m x v b ihv ihb =>
    rw [term, Term.subst, Term.subst, Term.subst, ihv, ihb, map_update (Term.subst s), Term.subst,
      term]
  | binary m op l r ihl ihr => rw [term, Term.subst, Term.subst, Term.subst, ihl, ihr, term]
  | cond m c t f ihc iht ihf =>
    rw [term, Term.subst, Term.subst, Term.subst, Term.subst, ihc, iht, ihf, term]

theorem term_shift : (e.term σ).shift = e.term fun z => (σ z).shift := by
  rw [shift_eq_subst, term_subst]
  exact congrArg (e.term ·) (funext fun z => shift_eq_subst.symm)

theorem term_under_of_not_mem (h : x ∉ e.free) : e.term (under σ x) = (e.term σ).shift := by
  rw [under, term_update_of_not_mem h, term_shift]

theorem term_under_rename (hy : y = x ∨ y ∉ b.names) :
    (b.rename x y).term (under σ y) = b.term (under σ x) :=
  term_update_rename hy

theorem term_inst : (b.term (under σ x)).inst a = b.term (Function.update σ x a) := by
  rw [inst, term_subst, under, map_update (Term.subst (put a))]
  exact congrArg (fun σ => b.term (Function.update σ x a)) (funext fun z => inst_shift)

theorem Outside.below (h : Outside b e) : Relation.TransGen Below (b.term σ) (e.term σ) := by
  cases h with
  | callee => exact .single (.inr .callee)
  | argument | right | elseBranch => exact .single (.inr .argument)
  | value => exact .single (.inr .value)
  | left | thenBranch => exact .head (.inr .argument) (.single (.inr .callee))
  | condition =>
    exact .head (.inr .argument) (.head (.inr .callee) (.single (.inr .callee)))

end Expr
end LetLower
