import LetLower.Infer
import LetLower.Proofs.Pass
import LetLower.Proofs.Ty.Bind
import LetLower.Proofs.Ty.Compose

/-!
# Inference as rules

`Infers env e s r s'` says that a part is inferred from the supply `s`, with the result `r`, and
leaves the supply `s'`. There is one rule for each kind of node, and no log. The rules say exactly
when inference succeeds.
-/

namespace LetLower

namespace Expr

inductive Infers : TyEnv → Expr → NameSupply → Inferred → NameSupply → Prop
  | int {env m n s} : Infers env (.int m n) s ⟨.int { m with ty := some .int } n, .int, ∅⟩ s
  | bool {env m b s} : Infers env (.bool m b) s ⟨.bool { m with ty := some .bool } b, .bool, ∅⟩ s
  | var {env m x c s} (hx : env.get? x = some c) :
      Infers env (.var m x) s
        ⟨.var { m with ty := some (c.instantiate s).1 } x, (c.instantiate s).1, ∅⟩
        (c.instantiate s).2
  | lam {env m x b s r s' t} (hb : Infers (env.insert x (.mono (.var s.fresh.1))) b s.advance r s')
      (ht : t = .fn ((Ty.var s.fresh.1).apply r.subst) r.ty) :
      Infers env (.lam m x b) s ⟨.lam { m with ty := some t } x r.tree, t, r.subst⟩ s'
  | app {env m f a s r s₁ q s₂ u t} (hf : Infers env f s r s₁)
      (ha : Infers (env.apply r.subst) a s₁ q s₂)
      (hu : Ty.unify (r.ty.apply q.subst) (.fn q.ty (.var s₂.fresh.1)) = .ok u)
      (ht : t = (Ty.var s₂.fresh.1).apply u.subst) :
      Infers env (.app m f a) s
        ⟨.app { m with ty := some t } r.tree q.tree, t,
          Subst.compose u.subst (Subst.compose q.subst r.subst)⟩ s₂.advance
  | letIn {env m x v b s r s₁ q s₂ c} (hv : Infers env v s r s₁)
      (hc : c = (env.apply r.subst).generalize (r.ty.apply r.subst))
      (hb : Infers ((env.apply r.subst).insert x c) b s₁ q s₂) :
      Infers env (.letIn m x v b) s
        ⟨.letIn { m with ty := some q.ty } x r.tree q.tree, q.ty,
          Subst.compose q.subst r.subst⟩ s₂
  | letRec {env m x v b s r s₁ u found q s₂ c}
      (hv : Infers (env.insert x (.mono (.var s.fresh.1))) v s.advance r s₁)
      (hu : Ty.unify r.ty ((Ty.var s.fresh.1).apply r.subst) = .ok u)
      (hs : found = Subst.compose u.subst r.subst)
      (hc : c = (env.apply found).generalize u.type)
      (hb : Infers ((env.apply found).insert x c) b s₁ q s₂) :
      Infers env (.letRec m x v b) s
        ⟨.letRec { m with ty := some q.ty } x (r.tree.substitute u.subst) q.tree, q.ty,
          Subst.compose q.subst found⟩ s₂
  | binary {env m op l r s p s₁ u found q s₂ u'} (hl : Infers env l s p s₁)
      (hu : Ty.unify p.ty .int = .ok u) (hs : found = Subst.compose u.subst p.subst)
      (hr : Infers (env.apply found) r s₁ q s₂) (hu' : Ty.unify q.ty .int = .ok u') :
      Infers env (.binary m op l r) s
        ⟨.binary { m with ty := some op.resultTy } op p.tree q.tree, op.resultTy,
          Subst.compose u'.subst (Subst.compose q.subst found)⟩ s₂
  | cond {env m c y n s p s₁ u found q s₂ r s₃ u'} (hc : Infers env c s p s₁)
      (hu : Ty.unify p.ty .bool = .ok u) (hs : found = Subst.compose u.subst p.subst)
      (hy : Infers (env.apply found) y s₁ q s₂)
      (hn : Infers (env.apply (Subst.compose q.subst found)) n s₂ r s₃)
      (hu' : Ty.unify (q.ty.apply r.subst) r.ty = .ok u') :
      Infers env (.cond m c y n) s
        ⟨.cond { m with ty := some u'.type } p.tree q.tree r.tree, u'.type,
          Subst.compose u'.subst (Subst.compose r.subst (Subst.compose q.subst found))⟩ s₃

open Pass

/-- What an inference returns is what the rules say of the expression. -/
def InferredBy (e : Expr) (run : Inference) : Prop :=
  ∀ ⦃env r s s'⦄, run env s = .ok r s' → Infers env e s.names r s'.names

namespace InferredBy

variable {m : Mark} {x : String} {e f a v b l r c y n : Expr}
  {callee argument value body left right condition yes no : Inference}

theorem var : (Expr.var m x).InferredBy (inferVar m x) := by
  intro env r s s' h
  rw [inferVar] at h
  cases hx : env.get? x with
  | none =>
    rw [hx] at h
    exact absurd h not_fail_ok
  | some c =>
    rw [hx] at h
    obtain ⟨t, s₁, ht, h⟩ := bind_ok.1 h
    obtain ⟨rfl, rfl⟩ := pure_ok.1 h
    cases ht
    exact .var hx

theorem lam (hb : b.InferredBy body) :
    (Expr.lam m x b).InferredBy (inferLam m x body) := by
  intro env r s s' h
  rw [inferLam] at h
  obtain ⟨a, s₁, ha, h⟩ := bind_ok.1 h
  obtain ⟨r, s₂, hr, h⟩ := bind_ok.1 h
  obtain ⟨rfl, rfl⟩ := pure_ok.1 h
  obtain ⟨rfl, hs₁⟩ := freshVar_ok ha
  have hr' := hb hr
  rw [hs₁] at hr'
  exact .lam hr' rfl

theorem app (hf : f.InferredBy callee) (ha : a.InferredBy argument) :
    (Expr.app m f a).InferredBy (inferApp TyEnv.apply m callee argument) := by
  intro env r s s' h
  rw [inferApp] at h
  obtain ⟨callee, s₁, hcallee, h⟩ := bind_ok.1 h
  obtain ⟨argument, s₂, hargument, h⟩ := bind_ok.1 h
  obtain ⟨result, s₃, hr, h⟩ := bind_ok.1 h
  obtain ⟨u, s₄, hu, h⟩ := bind_ok.1 h
  obtain ⟨whole, s₅, hw, h⟩ := bind_ok.1 h
  obtain ⟨rfl, rfl⟩ := pure_ok.1 h
  obtain ⟨rfl, hs₃⟩ := freshVar_ok hr
  obtain ⟨hu, hs₄⟩ := unify_ok hu
  obtain ⟨rfl, hs₅⟩ := composeAll_ok hw
  rw [Subst.compose_empty, hs₅, hs₄, hs₃]
  exact .app (hf hcallee) (ha hargument) hu rfl

theorem letIn (hv : v.InferredBy value) (hb : b.InferredBy body) :
    (Expr.letIn m x v b).InferredBy (inferLet TyEnv.apply m x value body) := by
  intro env r s s' h
  rw [inferLet] at h
  obtain ⟨value, s₁, hvalue, h⟩ := bind_ok.1 h
  obtain ⟨s₂, hs₂, h⟩ := bind_generalize_note_ok h
  obtain ⟨body, s₃, hbody, h⟩ := bind_ok.1 h
  obtain ⟨whole, s₄, hw, h⟩ := bind_ok.1 h
  obtain ⟨rfl, rfl⟩ := pure_ok.1 h
  obtain ⟨rfl, hs₄⟩ := compose_ok hw
  have hbody' := hb hbody
  rw [hs₂] at hbody'
  rw [hs₄]
  exact .letIn (hv hvalue) rfl hbody'

theorem letRec (hv : v.InferredBy value) (hb : b.InferredBy body) :
    (Expr.letRec m x v b).InferredBy (inferLetRec TyEnv.apply m x value body) := by
  intro env r s s' h
  rw [inferLetRec] at h
  obtain ⟨own, s₁, ho, h⟩ := bind_ok.1 h
  obtain ⟨value, s₂, hvalue, h⟩ := bind_ok.1 h
  obtain ⟨u, s₃, hu, hs₃, h⟩ := bind_unify_compose_ok h
  obtain ⟨s₄, hs₄, h⟩ := bind_generalize_note_ok h
  obtain ⟨body, s₅, hbody, h⟩ := bind_ok.1 h
  obtain ⟨whole, s₆, hw, h⟩ := bind_ok.1 h
  obtain ⟨rfl, rfl⟩ := pure_ok.1 h
  obtain ⟨rfl, hs₁⟩ := freshVar_ok ho
  obtain ⟨rfl, hs₆⟩ := compose_ok hw
  have hvalue' := hv hvalue
  have hbody' := hb hbody
  rw [hs₁] at hvalue'
  rw [hs₄, hs₃] at hbody'
  rw [hs₆]
  exact .letRec hvalue' hu rfl rfl hbody'

theorem binary {op : Operator} {leftLoc rightLoc : Option Location} (hl : l.InferredBy left)
    (hr : r.InferredBy right) :
    (Expr.binary m op l r).InferredBy
      (inferBinary TyEnv.apply m op leftLoc rightLoc left right) := by
  intro env q s s' h
  rw [inferBinary] at h
  obtain ⟨left, s₁, hleft, h⟩ := bind_ok.1 h
  obtain ⟨u, s₂, hu, hs₂, h⟩ := bind_unify_compose_ok h
  obtain ⟨right, s₃, hright, h⟩ := bind_ok.1 h
  obtain ⟨u', s₄, hu', h⟩ := bind_ok.1 h
  obtain ⟨found, s₅, hs, h⟩ := bind_ok.1 h
  obtain ⟨whole, s₆, hw, h⟩ := bind_ok.1 h
  obtain ⟨rfl, rfl⟩ := pure_ok.1 h
  obtain ⟨hu', hs₄⟩ := unify_ok hu'
  obtain ⟨rfl, hs₅⟩ := compose_ok hs
  obtain ⟨rfl, hs₆⟩ := compose_ok hw
  have hright' := hr hright
  rw [hs₂] at hright'
  rw [hs₆, hs₅, hs₄]
  exact .binary (hl hleft) hu rfl hright' hu'

theorem cond {conditionLoc : Option Location} (hc : c.InferredBy condition) (hy : y.InferredBy yes)
    (hn : n.InferredBy no) :
    (Expr.cond m c y n).InferredBy
      (inferCond TyEnv.apply m conditionLoc condition yes no) := by
  intro env r s s' h
  rw [inferCond] at h
  obtain ⟨condition, s₁, hcondition, h⟩ := bind_ok.1 h
  obtain ⟨u, s₂, hu, hs₂, h⟩ := bind_unify_compose_ok h
  obtain ⟨yes, s₃, hyes, h⟩ := bind_ok.1 h
  obtain ⟨found, s₄, hs, h⟩ := bind_ok.1 h
  obtain ⟨no, s₅, hno, h⟩ := bind_ok.1 h
  obtain ⟨both, s₆, hs', h⟩ := bind_ok.1 h
  obtain ⟨u', s₇, hu', hs₇, h⟩ := bind_unify_compose_ok h
  obtain ⟨rfl, rfl⟩ := pure_ok.1 h
  obtain ⟨rfl, hs₄⟩ := compose_ok hs
  obtain ⟨rfl, hs₆⟩ := compose_ok hs'
  have hyes' := hy hyes
  have hno' := hn hno
  rw [hs₂] at hyes'
  rw [hs₄] at hno'
  rw [hs₇, hs₆]
  exact .cond (hc hcondition) hu rfl hyes' hno' hu'

end InferredBy

theorem inferredBy_inferIn (e : Expr) : e.InferredBy e.inferIn := by
  induction e with
  | int | bool =>
    intro env r s s' h
    obtain ⟨rfl, rfl⟩ := pure_ok.1 h
    constructor
  | var => exact .var
  | lam m x b ih => exact .lam ih
  | app m f a ihf iha => exact .app ihf iha
  | letIn m x v b ihv ihb => exact .letIn ihv ihb
  | letRec m x v b ihv ihb => exact .letRec ihv ihb
  | binary m op l r ihl ihr => exact .binary ihl ihr
  | cond m c y n ihc ihy ihn => exact .cond ihc ihy ihn
  | bare m => exact fun _ _ _ _ h => absurd h not_fail_ok

theorem infers_of_inferIn {e : Expr} {env : TyEnv} {r : Inferred} {s s' : PassState}
    (h : e.inferIn env s = .ok r s') : Infers env e s.names r s'.names := e.inferredBy_inferIn h

theorem Infers.gives {env : TyEnv} {e : Expr} {s : NameSupply} {r : Inferred} {s' : NameSupply}
    (h : Infers env e s r s') : (e.inferIn env).Gives s r s' := by
  induction h with
  | int | bool => exact gives_pure _ _
  | var hx =>
    rw [inferIn, inferVar, hx]
    exact (gives_instantiate _ _).bind (gives_pure _ _)
  | lam _ ht ih =>
    rw [inferIn, inferLam, ht]
    exact (gives_freshVar _).bind (ih.bind (gives_pure _ _))
  | app _ _ hu ht ihf iha =>
    rw [inferIn, inferApp, ht]
    refine ihf.bind (iha.bind ((gives_freshVar _).bind ((gives_unify hu _ _).bind ?_)))
    refine (gives_composeAll _ _).bind ?_
    rw [Subst.composeAll_three]
    exact gives_pure _ _
  | letIn _ hc _ ihv ihb =>
    rw [inferIn, inferLet]
    refine ihv.bind ((gives_generalize _ _ _).bind ((gives_note _ _).bind ?_))
    rw [← hc]
    exact ihb.bind ((gives_compose _ _ _).bind (gives_pure _ _))
  | letRec _ hu hs hc _ ihv ihb =>
    rw [inferIn, inferLetRec]
    refine (gives_freshVar _).bind (ihv.bind ((gives_unify hu _ _).bind ?_))
    refine (gives_compose _ _ _).bind ?_
    rw [← hs]
    refine (gives_generalize _ _ _).bind ((gives_note _ _).bind ?_)
    rw [← hc]
    exact ihb.bind ((gives_compose _ _ _).bind (gives_pure _ _))
  | binary _ hu hs _ hu' ihl ihr =>
    rw [inferIn, inferBinary]
    refine ihl.bind ((gives_unify hu _ _).bind ((gives_compose _ _ _).bind ?_))
    rw [← hs]
    refine ihr.bind ((gives_unify hu' _ _).bind ?_)
    exact (gives_compose _ _ _).bind ((gives_compose _ _ _).bind (gives_pure _ _))
  | cond _ hu hs _ _ hu' ihc ihy ihn =>
    rw [inferIn, inferCond]
    refine ihc.bind ((gives_unify hu _ _).bind ((gives_compose _ _ _).bind ?_))
    rw [← hs]
    refine ihy.bind ((gives_compose _ _ _).bind (ihn.bind ((gives_compose _ _ _).bind ?_)))
    exact (gives_unify hu' _ _).bind ((gives_compose _ _ _).bind (gives_pure _ _))

theorem infers_of_infer {e : Expr} {env : TyEnv} {r : Inferred} {s s' : PassState}
    (h : e.infer env s = .ok r s') : Infers env e s.names r s'.names := by
  rw [infer] at h
  obtain ⟨r', s₁, hr, h⟩ := Pass.bind_ok.1 h
  obtain ⟨_, s₂, hn, h⟩ := Pass.bind_ok.1 h
  obtain ⟨rfl, rfl⟩ := Pass.pure_ok.1 h
  rw [Pass.names_of_note hn]
  exact infers_of_inferIn hr

theorem infers_of_inferTypes {e : Expr} {env : TyEnv} {t : Expr} {s s' : PassState}
    (h : e.inferTypes env s = .ok t s') :
    ∃ r, Infers env e s.names r s'.names ∧ t = r.completed := by
  rw [inferTypes] at h
  obtain ⟨r, s₁, hr, h⟩ := Pass.bind_ok.1 h
  obtain ⟨rfl, rfl⟩ := Pass.pure_ok.1 h
  exact ⟨r, infers_of_infer hr, rfl⟩

theorem infers_of_run {e : Expr} {env : TyEnv} {names : NameSupply} {t : Expr}
    (h : ((e.inferTypes env).run names).1 = .ok t) :
    ∃ r s', Infers env e names r s' ∧ t = r.completed := by
  obtain ⟨s, h⟩ := Pass.run_ok.1 h
  obtain ⟨r, hr, rfl⟩ := infers_of_inferTypes h
  exact ⟨r, s.names, hr, rfl⟩

theorem Infers.gives_inferTypes {e : Expr} {env : TyEnv} {s s' : NameSupply} {r : Inferred}
    (h : Infers env e s r s') : (e.inferTypes env).Gives s r.completed s' := by
  have hi : (e.infer env).Gives s r s' := by
    rw [infer]
    exact h.gives.bind ((Pass.gives_note _ _).bind (Pass.gives_pure _ _))
  rw [inferTypes]
  exact hi.bind (Pass.gives_pure _ _)

theorem Infers.run {e : Expr} {env : TyEnv} {names s' : NameSupply} {r : Inferred}
    (h : Infers env e names r s') : ((e.inferTypes env).run names).1 = .ok r.completed :=
  h.gives_inferTypes.run_ok

end Expr
end LetLower
