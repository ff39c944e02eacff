import LetLower.Proofs.Expr.Marks
import LetLower.Proofs.Infer.Sound

/-!
# The tree that inference returns

It is the given expression with a type at every node, and these types are a derivation.
-/

namespace LetLower.Expr

open Infers TyEnv

theorem IsDerivation.isAnnotated {env : TyEnv} {e : Expr} {t : Ty} (h : e.IsDerivation env t) :
    e.isAnnotated := by
  unfold IsDerivation at h
  induction h with
  | int hm | bool hm | var hm => simp only [Expr.isAnnotated, hm, Option.isSome]
  | lam hm _ _ ih => simp only [Expr.isAnnotated, hm, ih, Option.isSome, Bool.and_self]
  | app hm _ _ iha ihb | letIn hm _ _ iha ihb | letRec hm _ _ _ iha ihb
  | binary hm _ _ iha ihb =>
    simp only [Expr.isAnnotated, hm, iha, ihb, Option.isSome, Bool.and_self]
  | cond hm _ _ _ iha ihb ihc =>
    simp only [Expr.isAnnotated, hm, iha, ihb, ihc, Option.isSome, Bool.and_self]

theorem IsDerivation.ty?_eq {env : TyEnv} {e : Expr} {t : Ty} (h : e.IsDerivation env t) :
    e.ty? = some t := by
  cases h with
  | int hm | bool hm | var hm | lam hm | app hm | letIn hm | letRec hm | binary hm | cond hm =>
    exact hm

theorem Infers.untyped_eq {env : TyEnv} {e : Expr} {s : NameSupply} {r : Inferred}
    {s' : NameSupply} (h : Infers env e s r s') : r.tree.untyped = e.untyped := by
  induction h with
  | int | bool | var => rfl
  | lam _ _ ih =>
    unfold untyped at ih ⊢
    simp only [mapMark, ih]
  | app _ _ _ _ iha ihb | letIn _ _ _ iha ihb | binary _ _ _ _ _ iha ihb =>
    unfold untyped at iha ihb ⊢
    simp only [mapMark, iha, ihb]
  | @letRec _ _ _ _ _ _ r _ u _ _ _ _ _ _ _ _ _ iha ihb =>
    rw [← untyped_substitute u.subst] at iha
    unfold untyped at iha ihb ⊢
    simp only [mapMark, iha, ihb]
  | cond _ _ _ _ _ _ iha ihb ihc =>
    unfold untyped at iha ihb ihc ⊢
    simp only [mapMark, iha, ihb, ihc]

theorem Infers.untyped_completed {env : TyEnv} {e : Expr} {s s' : NameSupply} {r : Inferred}
    (h : Infers env e s r s') : r.completed.untyped = e.untyped :=
  (untyped_substitute _ _).trans h.untyped_eq

theorem untyped_of_inferTypes {e t : Expr} {env : TyEnv} {s s' : PassState}
    (h : e.inferTypes env s = .ok t s') : t.untyped = e.untyped := by
  obtain ⟨r, hr, rfl⟩ := infers_of_inferTypes h
  exact hr.untyped_completed

/-- In a closed environment nothing is left to complete but the types in the tree. -/
theorem Infers.isDerivation {env : TyEnv} {e : Expr} {s : NameSupply} {r : Inferred}
    {s' : NameSupply} (h : Infers env e s r s') (henv : env.IsClosed) :
    r.completed.IsDerivation env r.ty := by
  have hfree := henv.not_mem_free
  have hd := h.sound (henv.ready s) .var (keeps_var _)
    fun x c hx y hy => absurd hy ((henv x c hx).1 y)
  rw [bind_eq_self fun x hx => absurd hx (hfree x), Ty.bind_var_self] at hd
  refine hd.mapMark fun m t hm => ?_
  obtain ⟨u, hu, hp, _, rfl⟩ := hm
  change m.ty.map (Ty.apply r.subst) = _
  rw [hu, ← Ty.bind_apply hp, Ty.bind_var_self]
  rfl

/-- Inference is sound: what it returns for an expression without types is that expression, with
types that are a derivation at every node. -/
theorem inferTypes_sound {e : Expr} {env : TyEnv} {names : NameSupply} {t : Expr}
    (he : e.IsUntyped) (henv : env.IsClosed)
    (h : ((e.inferTypes env).run names).1 = .ok t) :
    t.strip = e ∧ ∃ a, t.ty? = some a ∧ t.IsDerivation env a := by
  obtain ⟨r, s', hr, rfl⟩ := infers_of_run h
  have hd := hr.isDerivation henv
  refine ⟨?_, r.ty, hd.ty?_eq, hd⟩
  calc r.completed.strip = r.completed.untyped := strip_of_isAnnotated hd.isAnnotated
    _ = r.tree.untyped := untyped_substitute _ _
    _ = e.untyped := hr.untyped_eq
    _ = e := he.untyped_eq

theorem inferTypes_sound_identity :
    let e : Expr := .letIn {} "f" (.lam {} "x" (.var {} "x")) (.app {} (.var {} "f") (.int {} 1))
    let a : Ty := .var "t0"
    let t : Expr := .letIn ⟨none, some .int⟩ "f"
      (.lam ⟨none, some (.fn a a)⟩ "x" (.var ⟨none, some a⟩ "x"))
      (.app ⟨none, some .int⟩ (.var ⟨none, some (.fn .int .int)⟩ "f") (.int ⟨none, some .int⟩ 1))
    e.IsUntyped ∧ TyEnv.IsClosed ∅ ∧ ((e.inferTypes ∅).run {}).1 = .ok t ∧
      t.strip = e ∧ ∃ a, t.ty? = some a ∧ t.IsDerivation ∅ a :=
  have henv : TyEnv.IsClosed ∅ := fun x _ h => by
    rw [Bindings.get?_empty] at h
    cases h
  ⟨by decide, henv, by cbv, @inferTypes_sound _ ∅ {} _ (by decide) henv (by cbv)⟩

end LetLower.Expr
