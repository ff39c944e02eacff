import LetLower.Proofs.Expr.Parts
import LetLower.Proofs.Expr.Rename
import LetLower.Proofs.Typing.Generic

/-!
# Moving a typing

A typing stays one when types are put in for its variables, when a free name is renamed, and when
the schemes of the free names are replaced by more general ones. All three happen at once in
`Derives.transport`, because each binder needs all three: at a `let` the generalised variables of
the value are first moved out of the way. What a typing asks of the marks has to be stable, that is,
to survive that types are put in.
-/

namespace LetLower.Expr

open TyEnv

/-- The scheme of every name in `N` goes to that of the name renamed. -/
def Transports (f : String → Ty) (x y : String) (N : String → Prop) (env env' : TyEnv) : Prop :=
  ∀ z, N z → ∀ c, env.get? z = some c →
    ∃ d, env'.get? (if z = x then y else z) = some d ∧ c.MapsTo f d

namespace Transports

variable {f : String → Ty} {x y z : String} {N N' : String → Prop} {env env' : TyEnv}
  {c d : Scheme}

theorem mono (h : Transports f x y N env env') (hN : ∀ z, N' z → N z) :
    Transports f x y N' env env' :=
  fun z hz => h z (hN z hz)

theorem congr (h : Transports f x y N env env') {g : String → Ty}
    (hg : ∀ z ∈ env.free, f z = g z) : Transports g x y N env env' := by
  intro z hz c hc
  obtain ⟨d, hd, hcd⟩ := h z hz c hc
  exact ⟨d, hd, hcd.congr fun w hw => hg w (mem_free_of_get? hc hw)⟩

theorem insert (h : Transports f x y (fun w => N w ∧ w ≠ z) env env') (hcd : c.MapsTo f d)
    (hx : z ≠ x) (hy : y ≠ z) :
    Transports f x y N (Bindings.insert env z c) (Bindings.insert env' z d) := by
  intro w hw e he
  rw [Bindings.get?_insert] at he
  by_cases hwz : w = z
  · rw [if_pos hwz] at he
    obtain rfl := Option.some.inj he
    refine ⟨d, ?_, hcd⟩
    rw [if_neg fun h => hx (hwz ▸ h), Bindings.get?_insert, if_pos hwz]
  · rw [if_neg hwz] at he
    obtain ⟨d', hd', hed⟩ := h w ⟨hw, hwz⟩ e he
    refine ⟨d', ?_, hed⟩
    rw [Bindings.get?_insert, if_neg, hd']
    split
    · exact hy
    · exact hwz

theorem insert_self (h : Transports f x y (fun w => N w ∧ w ≠ x) env env') (hcd : c.MapsTo f d) :
    Transports f x x N (Bindings.insert env x c) (Bindings.insert env' x d) := by
  intro w hw e he
  rw [Bindings.get?_insert] at he
  by_cases hwx : w = x
  · rw [if_pos hwx] at he
    obtain rfl := Option.some.inj he
    refine ⟨d, ?_, hcd⟩
    rw [if_pos hwx, Bindings.get?_insert, if_pos rfl]
  · rw [if_neg hwx] at he
    obtain ⟨d', hd', hed⟩ := h w ⟨hw, hwx⟩ e he
    rw [if_neg hwx] at hd'
    refine ⟨d', ?_, hed⟩
    rw [if_neg hwx, Bindings.get?_insert, if_neg hwx, hd']

theorem under (h : Transports f x y (fun w => N w ∧ w ≠ z) env env') (hcd : c.MapsTo f d)
    (hy : y = x ∨ y ≠ z) :
    Transports f x (if z = x then x else y) N (Bindings.insert env z c)
      (Bindings.insert env' z d) := by
  by_cases hz : z = x
  · subst hz
    rw [if_pos rfl]
    exact h.insert_self hcd
  · rw [if_neg hz]
    exact h.insert hcd hz (hy.elim (fun hyx hyz => hz (hyz.symm.trans hyx)) id)

theorem outside {b e : Expr} (h : Transports f x y (· ∈ e.free) env env') (hb : Outside b e) :
    Transports f x y (· ∈ b.free) env env' :=
  h.mono fun _ => hb.free

theorem inside {b e : Expr} (h : Transports f x y (· ∈ e.free) env env') (hb : Inside z b e)
    (hcd : c.MapsTo f d) (hy : y = x ∨ y ≠ z) :
    Transports f x (if z = x then x else y) (· ∈ b.free) (Bindings.insert env z c)
      (Bindings.insert env' z d) :=
  (h.mono fun _ => hb.free).under hcd hy

end Transports

/-- What is asked of a mark goes by the type in it, and goes on when types are put in. -/
structure Stable (agrees : Mark → Ty → Prop) : Prop where
  congr : ∀ {m m' : Mark} {t : Ty}, m'.ty = m.ty → agrees m t → agrees m' t
  bind : ∀ {m : Mark} {t : Ty} {f : String → Ty}, (∀ x, (f x).IsPlain) → agrees m t →
    agrees m (t.bind f)

theorem stable_true : Stable fun _ _ => True := ⟨fun _ _ => trivial, fun _ _ => trivial⟩

theorem hasType_var {env : TyEnv} {m : Mark} {x : String} {t : Ty} :
    (var m x).HasType env t ↔ ∃ c, env.get? x = some c ∧ c.HasInstance t := by
  constructor
  · intro h
    cases h with
    | var _ hx hc => exact ⟨_, hx, hc⟩
  · rintro ⟨c, hx, hc⟩
    exact .var trivial hx hc

variable {agrees : Mark → Ty → Prop}

theorem Derives.isPlain {env : TyEnv} {e : Expr} {t : Ty}
    (h : Derives agrees env e t) (henv : env.IsPlain) : t.IsPlain := by
  induction h with
  | int | bool => trivial
  | var _ hx hc => exact hc.isPlain (henv _ _ hx)
  | lam _ ha _ ih => exact ⟨ha, ih (henv.insert ha _)⟩
  | app _ _ _ ihf _ => exact (ihf henv).2
  | letIn _ _ _ ihv ihb => exact ihb (henv.insert (ihv henv) _)
  | letRec _ ha _ _ _ ihb => exact ihb (henv.insert ha _)
  | @binary _ _ op => cases op <;> trivial
  | cond _ _ _ _ _ ihy _ => exact ihy henv

/-- A bound name of a generalised type is not free in the environment. -/
theorem not_mem_bound_of_mem_free {env : TyEnv} {t : Ty} {z : String} (hz : z ∈ env.free) :
    z ∉ (env.generalize t).bound :=
  fun h => (mem_bound_generalize.1 h).2 hz

theorem Derives.transport {env : TyEnv} {e : Expr} {t : Ty} (h : Derives agrees env e t)
    (hs : Stable agrees) (henv : env.IsPlain) {f : String → Ty} (hf : ∀ x, (f x).IsPlain)
    {x y : String} (hy : y = x ∨ y ∉ e.names) {env' : TyEnv}
    (hT : Transports f x y (· ∈ e.free) env env') :
    Derives agrees env' (e.rename x y) (t.bind f) := by
  induction h generalizing f x y env' with
  | int hm => exact .int (hs.bind hf hm)
  | bool hm => exact .bool (hs.bind hf hm)
  | @var env m z c t hm hz hc =>
    obtain ⟨d, hd, hcd⟩ := hT z (NameSet.mem_single.2 rfl) c hz
    have hd' := hcd.hasInstance (henv z c hz) hf hc
    rw [rename]
    split
    · rename_i he
      rw [if_pos he] at hd
      exact .var (hs.bind hf hm) hd hd'
    · rename_i he
      rw [if_neg he] at hd
      exact .var (hs.bind hf hm) hd hd'
  | @lam env m z b a r hm ha _ ih =>
    have hTb := hT.inside .lam (Scheme.mapsTo_mono ha hf) (fresh_name hy .lam)
    have hb := ih (henv.insert (c := .mono a) ha z) hf (fresh_inside hy .lam) hTb
    rw [rename_lam]
    exact .lam (hs.bind hf hm) (ha.bind fun w _ => hf w) hb
  | app hm _ _ ihg ihe =>
    exact .app (hs.bind hf hm)
      (ihg henv hf (fresh_outside hy .callee) (hT.outside .callee))
      (ihe henv hf (fresh_outside hy .argument) (hT.outside .argument))
  | @letIn env m z v b a t hm hv _ ihv ihb =>
    have ha := Derives.isPlain hv henv
    obtain ⟨g, hg, hgf, hmaps⟩ := Scheme.exists_generic (c := env.generalize a) ha hf env'
    have hTg := hT.congr fun w hw => (hgf w (not_mem_bound_of_mem_free hw)).symm
    have hTb := hT.inside .letIn hmaps (fresh_name hy .letIn)
    have hv' := ihv henv hg (fresh_outside hy .value) (hTg.outside .value)
    have hb' := ihb (henv.insert (c := env.generalize a) ha z) hf (fresh_inside hy .letIn) hTb
    rw [rename_letIn]
    exact .letIn (hs.bind hf hm) hv' hb'
  | @letRec env m z v b a t hm ha hv _ ihv ihb =>
    obtain ⟨g, hg, hgf, hmaps⟩ := Scheme.exists_generic (c := env.generalize a) ha hf env'
    have hTg := hT.congr fun w hw => (hgf w (not_mem_bound_of_mem_free hw)).symm
    have hTv := hTg.inside .recursive (Scheme.mapsTo_mono ha hg) (fresh_name hy .recursive)
    have hTb := hT.inside .letRec hmaps (fresh_name hy .letRec)
    have hv' := ihv (henv.insert (c := .mono a) ha z) hg (fresh_inside hy .recursive) hTv
    have hb' := ihb (henv.insert (c := env.generalize a) ha z) hf (fresh_inside hy .letRec) hTb
    rw [rename_letRec]
    exact .letRec (hs.bind hf hm) (ha.bind fun w _ => hg w) hv' hb'
  | @binary env m op l r hm _ _ ihl ihr =>
    have hop : op.resultTy.bind f = op.resultTy := by cases op <;> rfl
    rw [hop]
    exact .binary hm (ihl henv hf (fresh_outside hy .left) (hT.outside .left))
      (ihr henv hf (fresh_outside hy .right) (hT.outside .right))
  | cond hm _ _ _ ihc ihp ihn =>
    exact .cond (hs.bind hf hm)
      (ihc henv hf (fresh_outside hy .condition) (hT.outside .condition))
      (ihp henv hf (fresh_outside hy .thenBranch) (hT.outside .thenBranch))
      (ihn henv hf (fresh_outside hy .elseBranch) (hT.outside .elseBranch))

theorem Derives.bind {env : TyEnv} {e : Expr} {t : Ty} (h : Derives agrees env e t)
    (hs : Stable agrees) (henv : env.IsPlain) {f : String → Ty} (hf : ∀ x, (f x).IsPlain)
    (hfix : ∀ x ∈ env.free, f x = .var x) : Derives agrees env e (t.bind f) := by
  have hT : Transports f "" "" (· ∈ e.free) env env := by
    intro z _ c hc
    refine ⟨c, ?_, Scheme.mapsTo_self (henv z c hc) fun w hw => hfix w (mem_free_of_get? hc hw)⟩
    split
    · rename_i hz
      rw [← hz, hc]
    · exact hc
  have ht := h.transport hs henv hf (.inl rfl) hT
  rwa [rename_self] at ht

/-- A value has all instances of what its type is generalised to. -/
theorem Derives.instance {env : TyEnv} {e : Expr} {t u : Ty} (h : Derives agrees env e t)
    (hs : Stable agrees) (henv : env.IsPlain) (hu : (env.generalize t).HasInstance u) :
    Derives agrees env e u := by
  obtain ⟨f, hf, hb, rfl⟩ := (Scheme.hasInstance_iff (h.isPlain henv)).1 hu
  exact h.bind hs henv hf fun x hx => hb x (not_mem_bound_of_mem_free hx)

/-- Only the schemes of the free names matter, and they may be more general. -/
theorem Derives.weaken {env env' : TyEnv} {e : Expr} {t : Ty} (h : Derives agrees env e t)
    (hs : Stable agrees) (henv : env.IsPlain)
    (hw : ∀ z ∈ e.free, ∀ c, env.get? z = some c → ∃ d, env'.get? z = some d ∧ c.MapsTo .var d) :
    Derives agrees env' e t := by
  have hT : Transports .var "" "" (· ∈ e.free) env env' := by
    intro z hz c hc
    obtain ⟨d, hd, hcd⟩ := hw z hz c hc
    refine ⟨d, ?_, hcd⟩
    split
    · rename_i hz
      rw [← hz, hd]
    · exact hd
  have ht := h.transport hs henv Ty.isPlain_var (.inl rfl) hT
  rwa [rename_self, Ty.bind_var_self] at ht

/-- A binder is renamed together with its scope. -/
theorem Derives.rename {env : TyEnv} {e : Expr} {t : Ty} {c : Scheme} {x y : String}
    (h : Derives agrees (Bindings.insert env x c) e t) (hs : Stable agrees)
    (henv : env.IsPlain) (hc : c.body.IsPlain) (hy : y = x ∨ y ∉ e.names) :
    Derives agrees (Bindings.insert env y c) (e.rename x y) t := by
  have henv' := henv.insert hc x
  have hT : Transports .var x y (· ∈ e.free) (Bindings.insert env x c)
      (Bindings.insert env y c) := by
    intro z hz d hd
    refine ⟨d, ?_, Scheme.mapsTo_self (henv' z d hd) fun _ _ => rfl⟩
    rw [Bindings.get?_insert] at hd ⊢
    by_cases hzx : z = x
    · rw [if_pos hzx] at hd
      rw [if_pos hzx, if_pos rfl, hd]
    · rw [if_neg hzx] at hd
      have hzy : z ≠ y := by
        rintro rfl
        exact hy.elim hzx fun hn => hn (mem_names_of_mem_free hz)
      rw [if_neg hzx, if_neg hzy, hd]
  have ht := h.transport hs henv' Ty.isPlain_var hy hT
  rwa [Ty.bind_var_self] at ht

end LetLower.Expr
