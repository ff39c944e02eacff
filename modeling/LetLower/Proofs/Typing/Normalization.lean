import LetLower.Proofs.Expr.Term
import LetLower.Proofs.Reduction.Reducible
import LetLower.Proofs.Typing.Transport

/-!
# Typed expressions normalize

The term of an expression is reducible at each of its types, where the free names stand for terms
that are reducible at each instance of their schemes. What a `let` binds is put in at many types; as
it has all of them, it is reducible at each. What a `let rec` binds is never put in, and stands for
an atom.
-/

namespace LetLower.Expr

open Term TyEnv

/-- What a name stands for is reducible at all types of the name. -/
def Reducibles (σ : String → Term) (env : TyEnv) : Prop :=
  ∀ z c, env.get? z = some c → ∀ u, c.HasInstance u → Reducible u (σ z)

namespace Reducibles

variable {σ : String → Term} {env : TyEnv} {x : String} {c : Scheme} {t : Term}

theorem insert (h : Reducibles σ env) (ht : ∀ u, c.HasInstance u → Reducible u t) :
    Reducibles (Function.update σ x t) (Bindings.insert env x c) := by
  intro z d hd u hu
  rw [Bindings.get?_insert] at hd
  by_cases hz : z = x
  · rw [if_pos hz] at hd
    obtain rfl := Option.some.inj hd
    rw [hz, Function.update_self]
    exact ht u hu
  · rw [if_neg hz] at hd
    rw [Function.update_of_ne hz]
    exact h z d hd u hu

theorem insert_mono {a : Ty} (ha : a.IsPlain) (h : Reducibles σ env) (ht : Reducible a t) :
    Reducibles (Function.update σ x t) (Bindings.insert env x (.mono a)) :=
  h.insert fun u hu => by rwa [(Scheme.hasInstance_mono_iff ha).1 hu]

theorem atom (env : TyEnv) : Reducibles (fun _ => .atom) env := fun _ _ _ u _ => reducible_atom u

end Reducibles

theorem HasType.reducible {env : TyEnv} {e : Expr} {t : Ty} {σ : String → Term}
    (h : e.HasType env t) (henv : env.IsPlain) (hσ : Reducibles σ env) :
    Reducible t (e.term σ) := by
  induction e generalizing env t σ with
  | int | bool =>
    cases h
    exact reducible_atom _
  | bare => cases h
  | var m x =>
    obtain ⟨c, hx, hc⟩ := hasType_var.1 h
    exact hσ x c hx t hc
  | lam m x b ih =>
    cases h with
    | @lam _ _ _ _ a t _ ha hb =>
      refine .lam fun s hs => ?_
      rw [term_inst]
      exact ih hb (henv.insert (c := .mono a) ha x) (hσ.insert_mono ha hs)
  | app m f a ihf iha =>
    cases h with
    | app _ hf ha => exact ihf hf henv hσ _ (iha ha henv hσ)
  | letIn m x v b ihv ihb =>
    cases h with
    | @letIn _ _ _ _ _ a t _ hv hb =>
      have ha := Derives.isPlain hv henv
      have hvr : ∀ u, (env.generalize a).HasInstance u → Reducible u (v.term σ) := fun u hu =>
        ihv (Derives.instance hv stable_true henv hu) henv hσ
      have hacc := (ihv hv henv hσ).normalizes.acc_below
      exact .keep hacc (ihb hb (henv.insert (c := env.generalize a) ha x) (hσ.insert hvr))
  | letRec m x v b ihv ihb =>
    cases h with
    | @letRec _ _ _ _ _ a t _ ha hv hb =>
      have hvr := ihv hv (henv.insert (c := .mono a) ha x)
        (hσ.insert_mono ha (reducible_atom a))
      have hbr := ihb hb (henv.insert (c := env.generalize a) ha x)
        (hσ.insert fun u _ => reducible_atom u)
      exact reducible_atom (.fn a (.fn t t)) _ hvr _ hbr
  | binary m op l r ihl ihr =>
    cases h with
    | binary _ hl hr =>
      exact reducible_atom (.fn .int (.fn .int op.resultTy)) _ (ihl hl henv hσ) _
        (ihr hr henv hσ)
  | cond m c y n ihc ihy ihn =>
    cases h with
    | cond _ hc hy hn =>
      exact reducible_atom (.fn .bool (.fn t (.fn t t))) _ (ihc hc henv hσ) _
        (ihy hy henv hσ) _ (ihn hn henv hσ)

/-- Reductions of a typed expression end. -/
theorem HasType.normalizes {env : TyEnv} {e : Expr} {t : Ty} (h : e.HasType env t)
    (henv : env.IsPlain) : Normalizes (e.term fun _ => .atom) :=
  (h.reducible henv (.atom env)).normalizes

end LetLower.Expr
