import LetLower.Proofs.Expr.Parts
import LetLower.Proofs.Infer.Scope

/-!
# Inference reads the free names of an expression only

Two environments that agree on the free names of an expression give the same run. What the other
names stand for cannot be seen from inside: a type that is found speaks of variables that the part
may return, and such a variable is free in the one environment exactly when it is free in the
other, so the two generalise alike.
-/

namespace LetLower

open LetLower.Expr

namespace TyEnv

variable {env env' : TyEnv} {s s₁ : NameSupply} {S : Subst} {t : Ty}

/-- A variable that the same part returns from both environments was left free by the one if it was
left free by the other. If it was there before, the other environment has it, too. If it was drawn,
it was put in for a variable that both have, and no bound name hides it. -/
theorem mem_free_apply_of_returned (henv : env.Unissued s) (henv' : env'.Unissued s)
    (hS : S.SolvesIn (InScope env' s s₁)) (ht : t.Unsolved (InScope env' s s₁) S) {z : String}
    (hzt : z ∈ t.free) (hz : z ∈ (env.apply S).free) : z ∈ (env'.apply S).free := by
  rw [apply_eq_bind henv.isPlain] at hz
  obtain ⟨w, hw, hzw⟩ := exists_of_mem_free_bind henv.isPlain hz
  rw [apply_eq_bind henv'.isPlain]
  have hz := ht.free z hzt
  by_cases hi : s.Issues z
  · have hm : w ∈ S := by
      refine Decidable.not_not.1 fun hn => henv.drawn w hw ?_
      rw [Subst.image_of_not_mem hn] at hzw
      rwa [← Ty.mem_free_var.1 hzw]
    obtain ⟨x, c, hx, hwc⟩ := mem_free.1 ((hS.domain w hm).1.resolve_right (henv.drawn w hw))
    have hb := (henv'.bound x c hx).resolve_left fun hc => hc w hwc
    exact mem_free_bind_of henv'.isPlain hx hwc hzw fun hzb => hb z hzb hi
  · obtain ⟨x, c, hx, hzc⟩ := mem_free.1 (hz.1.1.resolve_right hi)
    refine mem_free_bind_of henv'.isPlain hx hzc ?_ (Scheme.mem_free.1 hzc).2
    rw [Subst.image_of_not_mem hz.2]
    exact Ty.mem_free_var.2 rfl

theorem generalize_apply_eq (henv : env.Unissued s) (henv' : env'.Unissued s)
    (hS : S.SolvesIn (InScope env s s₁)) (hS' : S.SolvesIn (InScope env' s s₁))
    (ht : t.Unsolved (InScope env s s₁) S) (ht' : t.Unsolved (InScope env' s s₁) S) :
    (env.apply S).generalize t = (env'.apply S).generalize t := by
  have hbound : t.free.diff (env.apply S).free = t.free.diff (env'.apply S).free := by
    refine NameSet.eq_of_mem_iff fun z => ?_
    rw [NameSet.mem_diff, NameSet.mem_diff]
    refine and_congr_right fun hz => not_congr ⟨?_, ?_⟩
    · exact mem_free_apply_of_returned henv henv' hS' ht' hz
    · exact mem_free_apply_of_returned henv' henv hS ht hz
  rw [generalize, generalize, hbound]

def AgreeOn (names : NameSet) (env env' : TyEnv) : Prop :=
  ∀ x ∈ names, env.get? x = env'.get? x

namespace AgreeOn

variable {names names' : NameSet}

theorem mono (h : AgreeOn names env env') (hn : ∀ x ∈ names', x ∈ names) :
    AgreeOn names' env env' := fun x hx => h x (hn x hx)

theorem apply (h : AgreeOn names env env') (S : Subst) :
    AgreeOn names (env.apply S) (env'.apply S) := by
  intro x hx
  rw [TyEnv.apply, TyEnv.apply, Bindings.get?_map, Bindings.get?_map, h x hx]

theorem insert {x : String} (h : ∀ z ∈ names, z ≠ x → env.get? z = env'.get? z) (c : Scheme) :
    AgreeOn names (Bindings.insert env x c) (Bindings.insert env' x c) := by
  intro z hz
  rw [Bindings.get?_insert, Bindings.get?_insert]
  split
  · rfl
  · exact h z hz ‹_›

end AgreeOn

theorem agreeOn_filterKeys {names : NameSet} {p : String → Bool} (hp : ∀ x ∈ names, p x) :
    AgreeOn names env (env.filterKeys p) := by
  intro x hx
  rw [Bindings.get?_filterKeys, if_pos (hp x hx)]

theorem exists_of_mem_free_filterKeys {p : String → Bool} {z : String}
    (hz : z ∈ free (env.filterKeys p)) : ∃ x c, p x ∧ env.get? x = some c ∧ z ∈ c.free := by
  obtain ⟨x, c, hx, hzc⟩ := mem_free.1 hz
  rw [Bindings.get?_filterKeys] at hx
  split at hx
  · exact ⟨x, c, ‹_›, hx, hzc⟩
  · cases hx

theorem Unissued.filterKeys (h : env.Unissued s) (p : String → Bool) :
    TyEnv.Unissued (env.filterKeys p) s where
  isPlain x c hx := by
    rw [Bindings.get?_filterKeys] at hx
    split at hx
    · exact h.isPlain x c hx
    · cases hx
  drawn z hz := by
    obtain ⟨x, c, _, hx, hzc⟩ := exists_of_mem_free_filterKeys hz
    exact h.drawn z (mem_free_of_get? hx hzc)
  bound x c hx := by
    rw [Bindings.get?_filterKeys] at hx
    split at hx
    · exact h.bound x c hx
    · cases hx

/-- A variable that is returned and left free stands in the scheme of a name that was read. -/
theorem exists_get?_of_returned {p : String → Bool} (henv : env.Unissued s)
    (hS : S.SolvesIn (InScope (env.filterKeys p) s s₁))
    (ht : t.Unsolved (InScope (env.filterKeys p) s s₁) S) {z : String} (hzt : z ∈ t.free)
    (hz : z ∈ (env.apply S).free) : ∃ x c, p x ∧ (env.apply S).get? x = some c ∧ z ∈ c.free := by
  have hz' := mem_free_apply_of_returned henv (henv.filterKeys p) hS ht hzt hz
  obtain ⟨x, c, hx, hzc⟩ := mem_free.1 hz'
  rw [TyEnv.apply, Bindings.get?_map, Bindings.get?_filterKeys] at hx
  split at hx
  · refine ⟨x, c, ‹_›, ?_, hzc⟩
    rw [TyEnv.apply, Bindings.get?_map, hx]
  · cases hx

/-- The variables in an environment, those that a scheme binds and those that it leaves free. -/
def mentioned (env : TyEnv) : List String :=
  env.values.flatMap fun c => c.body.free.names ++ c.bound.names

theorem mem_mentioned {z : String} :
    z ∈ env.mentioned ↔ ∃ x c, env.get? x = some c ∧ (z ∈ c.body.free ∨ z ∈ c.bound) := by
  simp only [mentioned, List.mem_flatMap, List.mem_append, ← NameSet.mem_def]
  constructor
  · rintro ⟨c, hc, hz⟩
    obtain ⟨x, hx⟩ := Bindings.mem_values.1 hc
    exact ⟨x, c, hx, hz⟩
  · rintro ⟨x, c, hx, hz⟩
    exact ⟨c, Bindings.mem_values.2 ⟨x, hx⟩, hz⟩

theorem unissued_of_mentioned (henv : env.IsPlain) (h : ∀ z ∈ env.mentioned, ¬ s.Issues z) :
    env.Unissued s where
  isPlain := henv
  drawn z hz := by
    obtain ⟨x, c, hx, hz⟩ := mem_free.1 hz
    exact h z (mem_mentioned.2 ⟨x, c, hx, .inl (Scheme.mem_free.1 hz).1⟩)
  bound x c hx := .inr fun z hz => h z (mem_mentioned.2 ⟨x, c, hx, .inr hz⟩)

end TyEnv

namespace Expr

open TyEnv Pass

theorem bind_inferIn_congr {α : Type} {e : Expr} {env env' : TyEnv} {s : PassState}
    {f f' : Inferred → Pass α} (henv : env.Unissued s.names) (henv' : env'.Unissued s.names)
    (h : e.inferIn env s = e.inferIn env' s)
    (hf : ∀ r t, Infers.Returns env s.names r t.names → Infers.Returns env' s.names r t.names →
      f r t = f' r t) : (e.inferIn env >>= f) s = (e.inferIn env' >>= f') s :=
  bind_congr_ok h fun r t hr =>
    hf r t ((infers_of_inferIn (h.trans hr)).returns henv) ((infers_of_inferIn hr).returns henv')

/-- What an expression does depends on its free names only: what it returns, what it draws and
logs, and how it fails. -/
def ReadsFree (e : Expr) : Prop :=
  ∀ ⦃env env' : TyEnv⦄ ⦃s : PassState⦄, env.Unissued s.names → env'.Unissued s.names →
    AgreeOn e.free env env' → e.inferIn env s = e.inferIn env' s

/-! One step for each rule. The environments are related again after each part of the run. -/

namespace ReadsFree

variable {m : Mark} {x : String} {f a v b l r c y n : Expr}

theorem lam (hb : b.ReadsFree) : (Expr.lam m x b).ReadsFree := by
  intro env env' s henv henv' he
  rw [inferIn, inferIn, inferLam, inferLam]
  refine bind_congr_ok rfl fun a t ha => ?_
  obtain ⟨rfl, ht⟩ := freshVar_ok ha
  refine bind_congr_ok (hb ?_ ?_ (.insert (fun z hz hne => ?_) _)) fun _ _ _ => rfl
  · exact ht ▸ henv.insert_fresh x
  · exact ht ▸ henv'.insert_fresh x
  · exact he z (Inside.lam.free ⟨hz, hne⟩)

theorem app (hf : f.ReadsFree) (ha : a.ReadsFree) : (Expr.app m f a).ReadsFree := by
  intro env env' s henv henv' he
  have hef := he.mono fun z => Outside.callee.free
  have hea := he.mono fun z => Outside.argument.free
  rw [inferIn, inferIn, inferApp, inferApp]
  refine bind_inferIn_congr henv henv' (hf henv henv' hef) fun r t hr hr' => ?_
  have henv₁ := hr.reached.unissued henv
  have henv₁' := hr'.reached.unissued henv'
  exact bind_congr_ok (ha henv₁ henv₁' (hea.apply _)) fun _ _ _ => rfl

theorem letIn (hv : v.ReadsFree) (hb : b.ReadsFree) : (Expr.letIn m x v b).ReadsFree := by
  intro env env' s henv henv' he
  have hev := he.mono fun z => Outside.value.free
  rw [inferIn, inferIn, inferLet, inferLet]
  refine bind_inferIn_congr henv henv' (hv henv henv' hev) fun r t hr hr' => ?_
  have hc : (env.apply r.subst).generalize r.ty = (env'.apply r.subst).generalize r.ty :=
    generalize_apply_eq henv henv' hr.reached.subst hr'.reached.subst hr.ty hr'.ty
  have hready := hr.reached.unissued_generalize henv hr.ty x
  have hready' := hr'.reached.unissued_generalize henv' hr'.ty x
  rw [← hc] at hready'
  rw [hr.ty.apply_eq]
  refine bind_generalize_note_congr hc fun t₁ ht₁ => ?_
  rw [← ht₁] at hready hready'
  refine bind_congr_ok (hb hready hready' (.insert (fun z hz hne => ?_) _)) fun _ _ _ => rfl
  exact he.apply _ z (Inside.letIn.free ⟨hz, hne⟩)

theorem letRec (hv : v.ReadsFree) (hb : b.ReadsFree) : (Expr.letRec m x v b).ReadsFree := by
  intro env env' s henv henv' he
  rw [inferIn, inferIn, inferLetRec, inferLetRec]
  refine bind_congr_ok rfl fun own t₀ hown => ?_
  obtain ⟨rfl, ht₀⟩ := freshVar_ok hown
  have hin := ht₀ ▸ henv.insert_fresh x
  have hin' := ht₀ ▸ henv'.insert_fresh x
  have hvalue := hv hin hin' (.insert (fun z hz hne => he z (Inside.recursive.free ⟨hz, hne⟩)) _)
  refine bind_inferIn_congr hin hin' hvalue fun r t hr hr' => ?_
  rw [ht₀] at hr hr'
  refine bind_unify_compose_congr fun u t₁ hu ht₁ => ?_
  obtain ⟨h₂, hut⟩ := hr.own_unify henv hu
  obtain ⟨h₂', hut'⟩ := hr'.own_unify henv' hu
  have hc := generalize_apply_eq henv henv' h₂.subst h₂'.subst hut hut'
  have hready := h₂.unissued_generalize henv hut x
  have hready' := h₂'.unissued_generalize henv' hut' x
  rw [← hc] at hready'
  refine bind_generalize_note_congr hc fun t₂ ht₂ => ?_
  rw [← ht₁, ← ht₂] at hready hready'
  refine bind_congr_ok (hb hready hready' (.insert (fun z hz hne => ?_) _)) fun _ _ _ => rfl
  exact he.apply _ z (Inside.letRec.free ⟨hz, hne⟩)

theorem binary {op : Operator} (hl : l.ReadsFree) (hr : r.ReadsFree) :
    (Expr.binary m op l r).ReadsFree := by
  intro env env' s henv henv' he
  have hel := he.mono fun z => Outside.left.free
  have her := he.mono fun z => Outside.right.free
  rw [inferIn, inferIn, inferBinary, inferBinary]
  refine bind_inferIn_congr henv henv' (hl henv henv' hel) fun p t hp hp' => ?_
  refine bind_unify_compose_congr fun u t₁ hu ht₁ => ?_
  have henv₁ := (hp.unify .int hu).unissued henv
  have henv₁' := (hp'.unify .int hu).unissued henv'
  rw [← ht₁] at henv₁ henv₁'
  exact bind_congr_ok (hr henv₁ henv₁' (her.apply _)) fun _ _ _ => rfl

theorem cond (hc : c.ReadsFree) (hy : y.ReadsFree) (hn : n.ReadsFree) :
    (Expr.cond m c y n).ReadsFree := by
  intro env env' s henv henv' he
  have hec := he.mono fun z => Outside.condition.free
  have hey := he.mono fun z => Outside.thenBranch.free
  have hen := he.mono fun z => Outside.elseBranch.free
  rw [inferIn, inferIn, inferCond, inferCond]
  refine bind_inferIn_congr henv henv' (hc henv henv' hec) fun p t hp hp' => ?_
  refine bind_unify_compose_congr fun u t₁ hu ht₁ => ?_
  have h₁ := hp.unify .bool hu
  have h₁' := hp'.unify .bool hu
  rw [← ht₁] at h₁ h₁'
  have henv₁ := h₁.unissued henv
  have henv₁' := h₁'.unissued henv'
  refine bind_inferIn_congr henv₁ henv₁' (hy henv₁ henv₁' (hey.apply _)) fun q t₂ hq hq' => ?_
  have h₂ := h₁.infer (h₁.mem_free_apply henv) hq.reached
  have h₂' := h₁'.infer (h₁'.mem_free_apply henv') hq'.reached
  refine bind_congr_ok rfl fun found t₃ hs => ?_
  obtain ⟨rfl, ht₃⟩ := compose_ok hs
  rw [← ht₃] at h₂ h₂'
  exact bind_congr_ok (hn (h₂.unissued henv) (h₂'.unissued henv') (hen.apply _)) fun _ _ _ => rfl

end ReadsFree

theorem readsFree (e : Expr) : e.ReadsFree := by
  induction e with
  | int | bool | bare => exact fun _ _ _ _ _ _ => rfl
  | var m x =>
    intro env env' s _ _ he
    rw [inferIn, inferIn, inferVar, inferVar, he x (NameSet.mem_single.2 rfl)]
  | lam m x b ih => exact ih.lam
  | app m f a ihf iha => exact ihf.app iha
  | letIn m x v b ihv ihb => exact ihv.letIn ihb
  | letRec m x v b ihv ihb => exact ihv.letRec ihb
  | binary m op l r ihl ihr => exact ihl.binary ihr
  | cond m c y n ihc ihy ihn => exact ihc.cond ihy ihn

theorem Infers.of_agreeOn {env env' : TyEnv} {e : Expr} {s : NameSupply} {r : Inferred}
    {s' : NameSupply} (h : Infers env e s r s') (henv : env.Unissued s) (henv' : env'.Unissued s)
    (he : AgreeOn e.free env env') : Infers env' e s r s' := by
  obtain ⟨log, hrun⟩ := h.gives []
  rw [readsFree e henv henv' he] at hrun
  exact infers_of_inferIn hrun

theorem Infers.exists_get?_of_value {env : TyEnv} {v : Expr} {s s₁ : NameSupply} {r : Inferred}
    (hv : Infers env v s r s₁) (henv : env.Unissued s) {z : String} (hzt : z ∈ r.ty.free)
    (hz : z ∈ (env.apply r.subst).free) :
    ∃ y c, y ∈ v.free ∧ (env.apply r.subst).get? y = some c ∧ z ∈ c.free := by
  have hready := henv.filterKeys (· ∈ v.free)
  have hv' := hv.of_agreeOn henv hready (agreeOn_filterKeys fun x hx => decide_eq_true hx)
  have hr := hv'.returns hready
  obtain ⟨y, c, hy, h⟩ := exists_get?_of_returned henv hr.reached.subst hr.ty hzt hz
  exact ⟨y, c, of_decide_eq_true hy, h⟩

theorem Infers.exists_get?_of_recursive {env : TyEnv} {x : String} {v : Expr} {s s₁ : NameSupply}
    {r : Inferred} {u : Ty.Unifier}
    (hv : Infers (Bindings.insert env x (.mono (.var s.fresh.1))) v s.advance r s₁)
    (henv : env.Unissued s) (hu : Ty.unify r.ty ((Ty.var s.fresh.1).apply r.subst) = .ok u)
    {z : String} (hzt : z ∈ u.type.free)
    (hz : z ∈ (env.apply (Subst.compose u.subst r.subst)).free) :
    ∃ y c, y ∈ v.free ∧ y ≠ x ∧
      (env.apply (Subst.compose u.subst r.subst)).get? y = some c ∧ z ∈ c.free := by
  have hready := henv.filterKeys (· ∈ v.free.erase x)
  have hagree : AgreeOn v.free (Bindings.insert env x (.mono (.var s.fresh.1)))
      (Bindings.insert (env.filterKeys (· ∈ v.free.erase x)) x (.mono (.var s.fresh.1))) := by
    refine .insert (fun y hy hne => ?_) _
    rw [Bindings.get?_filterKeys, if_pos (decide_eq_true (NameSet.mem_erase.2 ⟨hy, hne⟩))]
  have hv' := hv.of_agreeOn (henv.insert_fresh x) (hready.insert_fresh x) hagree
  obtain ⟨h₂, hut⟩ := (hv'.returns (hready.insert_fresh x)).own_unify hready hu
  obtain ⟨y, c, hy, h⟩ := exists_get?_of_returned henv h₂.subst hut hzt hz
  have hy := NameSet.mem_erase.1 (of_decide_eq_true hy)
  exact ⟨y, c, hy.1, hy.2, h⟩

/-- Two environments that agree on the free names of an expression give one run: the same tree,
type and substitution or the same failure, whatever the other names stand for. -/
theorem infer_agreeOn {e : Expr} {env env' : TyEnv} {names : NameSupply} (henv : env.IsPlain)
    (henv' : env'.IsPlain) (hn : ∀ z ∈ env.mentioned, ¬ names.Issues z)
    (hn' : ∀ z ∈ env'.mentioned, ¬ names.Issues z)
    (he : ∀ x ∈ e.free, env.get? x = env'.get? x) :
    (e.infer env).run names = (e.infer env').run names ∧
      (e.inferTypes env).run names = (e.inferTypes env').run names := by
  have hin : e.inferIn env { names } = e.inferIn env' { names } :=
    readsFree e (unissued_of_mentioned henv hn) (unissued_of_mentioned henv' hn') he
  have hinfer : e.infer env { names } = e.infer env' { names } :=
    bind_congr_ok hin fun _ _ _ => rfl
  have htypes : e.inferTypes env { names } = e.inferTypes env' { names } :=
    bind_congr_ok hinfer fun _ _ _ => rfl
  unfold Pass.run EStateM.run
  rw [hinfer, htypes]
  exact ⟨rfl, rfl⟩

/-- The variable that `f` leaves open is open in another entry, too, and that entry binds the other
one; `g` is generalised over neither. -/
theorem infer_agreeOn_open :
    let e : Expr := .letIn {} "g" (.lam {} "x" (.app {} (.var {} "f") (.var {} "x"))) (.var {} "g")
    let c : Scheme := .mono (.fn (.var "a") (.var "b"))
    let env : TyEnv := ⟨[("f", c)], by decide⟩
    let env' : TyEnv :=
      ⟨[("h", ⟨.single "b", .fn (.var "a") (.var "b")⟩), ("f", c), ("g", .mono (.var "c"))],
        by decide⟩
    env.IsPlain ∧ env'.IsPlain ∧ (∀ z ∈ env.mentioned, ¬ NameSupply.Issues {} z) ∧
      (∀ z ∈ env'.mentioned, ¬ NameSupply.Issues {} z) ∧
      (∀ x ∈ e.free, env.get? x = env'.get? x) ∧ (e.infer env).run {} = (e.infer env').run {} := by
  intro e c env env'
  have plain : ∀ {env : TyEnv}, (∀ c ∈ env.values, c.body.IsPlain) → env.IsPlain :=
    fun h x c hx => h c (Bindings.mem_values.2 ⟨x, hx⟩)
  have henv : env.IsPlain := plain (by decide)
  have henv' : env'.IsPlain := plain (by decide)
  have apart : ∀ {env : TyEnv}, (∀ z ∈ env.mentioned, ¬ "t".toList <+: z.toList) →
      ∀ z ∈ env.mentioned, ¬ NameSupply.Issues {} z :=
    fun h z hz => NameSupply.not_issues_of_not_prefix (h z hz)
  have hn : ∀ z ∈ env.mentioned, ¬ NameSupply.Issues {} z := apart (by decide)
  have hn' : ∀ z ∈ env'.mentioned, ¬ NameSupply.Issues {} z := apart (by decide)
  have he : ∀ x ∈ e.free, env.get? x = env'.get? x := by decide
  exact ⟨henv, henv', hn, hn', he, (infer_agreeOn henv henv' hn hn' he).1⟩

end Expr
end LetLower
