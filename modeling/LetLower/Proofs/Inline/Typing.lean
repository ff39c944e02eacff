import LetLower.Proofs.Expr.Marks
import LetLower.Proofs.Inline.Rules
import LetLower.Proofs.Typing.Transport

/-!
# Inlining keeps types

A type of an expression is a type of what inlining makes of it. The types in the tree are out of
date as soon as a polymorphic function has been put where it is used, but the type that a node has
there is still an instance of the one that it is marked with. The induction is over the rules, for
all typings at once, since a value that is put in is used at many types.
-/

namespace LetLower.Expr

open TyEnv

/-- The type is an instance of the one that the node is marked with. -/
def Fits (m : Mark) (t : Ty) : Prop := ∃ u, m.ty = some u ∧ ∃ f, t = u.bind f

theorem stable_fits : Stable Fits where
  congr := by
    rintro m m' t hm ⟨u, hu, h⟩
    exact ⟨u, hm.trans hu, h⟩
  bind := by
    rintro m t g - ⟨u, hu, f, rfl⟩
    exact ⟨u, hu, fun x => (f x).bind g, Ty.bind_bind f g u⟩

variable {agrees : Mark → Ty → Prop}

theorem Derives.agrees_mark {env : TyEnv} {e : Expr} {t : Ty} (h : Derives agrees env e t) :
    agrees e.mark t := by
  cases h with
  | int hm | bool hm | var hm | lam hm | app hm | letIn hm | letRec hm | binary hm | cond hm =>
    exact hm

theorem Derives.insert {env : TyEnv} {e : Expr} {t : Ty} (h : Derives agrees env e t)
    (hs : Stable agrees) (henv : env.IsPlain) {y : String} (hy : y ∉ e.free) (c : Scheme) :
    Derives agrees (Bindings.insert env y c) e t := by
  refine h.weaken hs henv fun z hz d hd => ⟨d, ?_, Scheme.mapsTo_self (henv z d hd) fun _ _ => rfl⟩
  rw [Bindings.get?_insert, if_neg, hd]
  rintro rfl
  exact hy hz

theorem LetOver.derives {m : Mark} {x : String} {v b r : Expr} (h : LetOver m x v b r)
    (hs : Stable agrees) {env : TyEnv} (henv : env.IsPlain) {c : Scheme} (hc : c.body.IsPlain)
    {t : Ty} (hv : ∀ u, c.HasInstance u → Derives agrees env v u)
    (hb : Derives agrees (Bindings.insert env x c) b t) : Derives agrees env r t := by
  induction h generalizing env t with
  | @lam fm p q b r _ hx hvq hbq _ ih =>
    cases hb with
    | @lam _ _ _ _ a t hm ha hb =>
      have henvx := henv.insert hc x
      have hb' : Derives agrees (Bindings.insert (Bindings.insert env q (.mono a)) x c)
          (b.rename p q) t := by
        refine (Derives.rename hb hs henvx ha (.inr hbq)).weaken hs (henvx.insert ha q)
          fun z _ d hd => ⟨d, ?_, Scheme.mapsTo_self ?_ fun _ _ => rfl⟩
        · rw [Bindings.get?_insert, Bindings.get?_insert] at hd ⊢
          by_cases hzx : z = x
          · rw [if_neg fun hzq : z = q => hx (hzq ▸ hzx), if_pos hzx] at hd
            rw [if_pos hzx, hd]
          · rw [if_neg hzx] at hd
            rw [if_neg hzx, hd]
        · exact (henvx.insert (c := .mono a) ha q) z d hd
      exact .lam hm ha (ih (henv.insert ha q) (fun u hu => (hv u hu).insert hs henv hvq _) hb')
  | @here b t' _ ht =>
    obtain ⟨g, hg, hgf, hmaps⟩ := Scheme.exists_generic hc Ty.isPlain_var env
    have hi : c.HasInstance (c.body.bind g) := (Scheme.hasInstance_iff hc).2 ⟨g, hg, hgf, rfl⟩
    have hm : agrees { m with ty := some t' } t :=
      hs.congr (ty?_of_getTy ht).symm hb.agrees_mark
    refine .letIn hm (hv _ hi) (Derives.weaken hb hs (henv.insert hc x) fun z _ d hd => ?_)
    rw [Bindings.get?_insert] at hd ⊢
    by_cases hz : z = x
    · rw [if_pos hz] at hd
      obtain rfl := Option.some.inj hd
      exact ⟨_, if_pos hz, hmaps⟩
    · rw [if_neg hz] at hd
      exact ⟨d, by rw [if_neg hz, hd], Scheme.mapsTo_self (henv z d hd) fun _ _ => rfl⟩

/-- What a name stands for derives, in the new environment, all types of the name that agree with
what the name is marked with. -/
def SuppliesBy (agrees : Mark → Ty → Prop) (subst : InlineEnv) (N : String → Prop)
    (env env' : TyEnv) : Prop :=
  ∀ z, N z → ∀ c, env.get? z = some c → ∀ m u, agrees m u → c.HasInstance u →
    Derives agrees env' ((subst.get? z).getD (.var m z)) u

abbrev Supplies := SuppliesBy fun _ _ => True

namespace SuppliesBy

variable {subst : InlineEnv} {N N' : String → Prop} {env env' : TyEnv} {x y : String} {b v : Expr}
  {c d : Scheme}

theorem mono (h : SuppliesBy agrees subst N env env') (hN : ∀ z, N' z → N z) :
    SuppliesBy agrees subst N' env env' :=
  fun z hz => h z (hN z hz)

theorem insert (h : SuppliesBy agrees subst (fun z => z ∈ b.free ∧ z ≠ x) env env')
    (hs : Stable agrees) (henv' : env'.IsPlain) {names : List String}
    (hy : Enters subst x y names) (hcd : ∀ u, c.HasInstance u → d.HasInstance u) :
    SuppliesBy agrees (subst.erase x) (· ∈ (b.rename x y).free) (Bindings.insert env y c)
      (Bindings.insert env' y d) := by
  intro z hz e he m u hm hu
  rw [Bindings.get?_insert] at he
  by_cases hzy : z = y
  · rw [if_pos hzy] at he
    obtain rfl := Option.some.inj he
    rw [hzy, Bindings.get?_eq_none_iff.2 hy.not_mem_erase]
    exact .var hm (by rw [Bindings.get?_insert, if_pos rfl]) (hcd u hu)
  · rw [if_neg hzy] at he
    have hz' := (mem_free_rename hz).resolve_right hzy
    have hfree := hy.not_mem_free_standsFor hz'.2 hzy
    rw [← free_getD_var m] at hfree
    rw [Bindings.get?_erase, if_neg hz'.2]
    exact (h z hz' e he m u hm hu).insert hs henv' hfree d

theorem insert_value (h : SuppliesBy agrees subst (fun z => z ∈ b.free ∧ z ≠ x) env env')
    (hv : ∀ u, c.HasInstance u → Derives agrees env' v u) :
    SuppliesBy agrees ((subst.erase x).insert y v) (· ∈ (b.rename x y).free)
      (Bindings.insert env y c) env' := by
  intro z hz e he m u hm hu
  rw [Bindings.get?_insert] at he
  by_cases hzy : z = y
  · rw [if_pos hzy] at he
    obtain rfl := Option.some.inj he
    rw [hzy, Bindings.get?_insert, if_pos rfl]
    exact hv u hu
  · rw [if_neg hzy] at he
    have hz' := (mem_free_rename hz).resolve_right hzy
    rw [Bindings.get?_insert, if_neg hzy, Bindings.get?_erase, if_neg hz'.2]
    exact h z hz' e he m u hm hu

theorem of_not_mem (h : ∀ z, N z → z ∉ subst) : SuppliesBy agrees subst N env env := by
  intro z hz c hc m u hm hu
  rw [Bindings.get?_eq_none_iff.2 (h z hz)]
  exact .var hm hc hu

theorem outside {b e : Expr} (h : SuppliesBy agrees subst (· ∈ e.free) env env')
    (hb : Outside b e) : SuppliesBy agrees subst (· ∈ b.free) env env' :=
  h.mono fun _ => hb.free

end SuppliesBy

/-- Where the environment mentions fewer variables, more of them are generalised. -/
theorem hasInstance_generalize_of_subset {env env' : TyEnv} {t u : Ty} (ht : t.IsPlain)
    (h : ∀ z ∈ env'.free, z ∈ env.free) (hu : (env.generalize t).HasInstance u) :
    (env'.generalize t).HasInstance u := by
  obtain ⟨f, hf, hb, rfl⟩ := (Scheme.hasInstance_iff ht).1 hu
  refine Scheme.mapsTo_self (c := env'.generalize t) ht (fun _ _ => rfl) f hf fun x hx => ?_
  exact hb x (not_mem_bound_of_mem_free (h x (mem_free_generalize.1 hx).2))

theorem Derives.rotated {env : TyEnv} {m n n' : Mark} {x y z : String} {v w b : Expr} {t : Ty}
    (h : Derives agrees env (.letIn m x (.letIn n y v w) b) t) (hs : Stable agrees)
    (henv : env.IsPlain) (hz : z ∉ (Expr.letIn m x (.letIn n y v w) b).names) (hn : n'.ty = m.ty) :
    Derives agrees env (.letIn n' z v (.letIn m x (w.rename y z) b)) t := by
  cases h with
  | @letIn _ _ _ _ _ a t hm hw hb =>
    cases hw with
    | @letIn _ _ _ _ _ a' _ _ hv hw =>
      have ha' := Derives.isPlain hv henv
      have henvz := henv.insert (c := env.generalize a') ha' z
      have ha := Derives.isPlain hw (henv.insert (c := env.generalize a') ha' y)
      have hzw : z ∉ w.names := fun hm => hz (Outside.value.names (Inside.letIn.names hm))
      have hzb : z ∉ b.names := fun hm => hz (Inside.letIn.names hm)
      refine .letIn (hs.congr hn hm) hv (.letIn hm (Derives.rename hw hs henv ha' (.inr hzw)) ?_)
      refine Derives.weaken hb hs (henv.insert ha x) fun k hk d hd => ?_
      rw [Bindings.get?_insert] at hd ⊢
      by_cases hkx : k = x
      · rw [if_pos hkx] at hd
        obtain rfl := Option.some.inj hd
        refine ⟨_, if_pos hkx, (Scheme.mapsTo_var_iff ha).2 fun u hu => ?_⟩
        refine hasInstance_generalize_of_subset ha (fun i hi => ?_) hu
        exact mem_free_insert_generalize hi
      · rw [if_neg hkx] at hd
        refine ⟨d, ?_, Scheme.mapsTo_self (henv k d hd) fun _ _ => rfl⟩
        rw [if_neg hkx, Bindings.get?_insert, if_neg, hd]
        rintro rfl
        exact hzb (mem_names_of_mem_free hk)

/-- A recursive value, where types are put in for what its name is generalised over. -/
theorem Derives.bind_recursive {env : TyEnv} {x : String} {v : Expr} {a : Ty} {g : String → Ty}
    (h : Derives agrees (Bindings.insert env x (.mono a)) v a) (hs : Stable agrees)
    (henv : env.IsPlain) (ha : a.IsPlain) (hg : ∀ z, (g z).IsPlain)
    (hgf : ∀ z, z ∉ (env.generalize a).bound → g z = .var z) :
    Derives agrees (Bindings.insert env x (.mono (a.bind g))) v (a.bind g) := by
  have hT : Transports g x x (· ∈ v.free) (Bindings.insert env x (.mono a))
      (Bindings.insert env x (.mono (a.bind g))) := by
    refine Transports.insert_self (y := x) (fun z _ c hc => ⟨c, ?_, ?_⟩)
      (Scheme.mapsTo_mono ha hg)
    · split
      · rename_i hzx
        rwa [← hzx]
      · exact hc
    · refine Scheme.mapsTo_self (henv z c hc) fun w hw => hgf w ?_
      exact not_mem_bound_of_mem_free (mem_free_of_get? hc hw)
  have hv := Derives.transport h hs (henv.insert ha x) hg (.inl rfl) hT
  rwa [rename_self] at hv

/-- Where what stands for the names of a tree has all types of these, the other tree has all types
of this one. -/
def KeepsTypes (agrees : Mark → Ty → Prop) (subst : InlineEnv) (e r : Expr) : Prop :=
  ∀ ⦃env env' : TyEnv⦄ ⦃t : Ty⦄, env.IsPlain → env'.IsPlain →
    SuppliesBy agrees subst (· ∈ e.free) env env' → Derives agrees env e t →
    Derives agrees env' r t

namespace KeepsTypes

variable {subst : InlineEnv} {m fm : Mark} {x y : String} {f f' a a' v v' b b' c c' n n' r : Expr}

theorem lam (hagrees : Stable agrees) (hy : Enters subst x y b.names)
    (hb : KeepsTypes agrees (subst.erase x) (b.rename x y) b') :
    KeepsTypes agrees subst (.lam m x b) (.lam m y b') := by
  intro env env' t henv henv' hs ht
  cases ht with
  | @lam _ _ _ _ a t hm ha hbt =>
    have hs' := (hs.mono fun z => Inside.lam.free).insert hagrees henv' hy
      (c := .mono a) (d := .mono a) fun _ hu => hu
    exact .lam hm ha (hb (henv.insert ha y) (henv'.insert ha y) hs'
      (Derives.rename hbt hagrees henv ha hy.scope))

theorem app (hf : KeepsTypes agrees subst f f') (ha : KeepsTypes agrees subst a a') :
    KeepsTypes agrees subst (.app m f a) (.app m f' a') := by
  intro env env' t henv henv' hs ht
  cases ht with
  | app hm hft hat =>
    exact .app hm (hf henv henv' (hs.outside .callee) hft)
      (ha henv henv' (hs.outside .argument) hat)

theorem beta (hagrees : Stable agrees) (hfree : ∀ z ∈ (Expr.lam fm x b).free, z ∉ subst)
    (hy : y = x ∨ y ∉ b.names) (hf : KeepsTypes agrees subst f (.lam fm x b))
    (ha : KeepsTypes agrees subst a a')
    (hb : KeepsTypes agrees ((subst.erase x).insert y a') (b.rename x y) r) :
    KeepsTypes agrees subst (.app m f a) r := by
  intro env env' t henv henv' hs ht
  cases ht with
  | @app _ _ _ _ u t _ hft hat =>
    have hf' := hf henv henv' (hs.outside .callee) hft
    have ha' := ha henv henv' (hs.outside .argument) hat
    cases hf' with
    | lam _ hu hbt =>
      have hs' : SuppliesBy agrees subst (fun z => z ∈ b.free ∧ z ≠ x) env' env' :=
        .of_not_mem fun z hz => hfree z (NameSet.mem_erase.2 hz)
      refine hb (henv'.insert hu y) henv' (hs'.insert_value (c := .mono u) fun k hk => ?_)
        (Derives.rename hbt hagrees henv' hu hy)
      rwa [(Scheme.hasInstance_mono_iff hu).1 hk]

theorem letRec (hagrees : Stable agrees) (hy : Enters subst x y (v.names ++ b.names))
    (hv : KeepsTypes agrees (subst.erase x) (v.rename x y) v')
    (hb : KeepsTypes agrees (subst.erase x) (b.rename x y) b') :
    KeepsTypes agrees subst (.letRec m x v b) (.letRec m y v' b') := by
  intro env env' t henv henv' hs ht
  cases ht with
  | @letRec _ _ _ _ _ a t hm ha hvt hbt =>
    obtain ⟨g, hg, hgf, hmaps⟩ :=
      Scheme.exists_generic (c := env.generalize a) ha Ty.isPlain_var env'
    have hag : (a.bind g).IsPlain := ha.bind fun z _ => hg z
    have hvt' := Derives.bind_recursive hvt hagrees henv ha hg hgf
    have hyv := hy.scope.imp_right fun hn hm => hn (List.mem_append.2 (.inl hm))
    have hyb := hy.scope.imp_right fun hn hm => hn (List.mem_append.2 (.inr hm))
    have hsv := (hs.mono fun z => Inside.recursive.free).insert hagrees henv' hy
      (c := .mono (a.bind g)) (d := .mono (a.bind g)) fun _ hu => hu
    have hsb := (hs.mono fun z => Inside.letRec.free).insert hagrees henv' hy
      ((Scheme.mapsTo_var_iff (c := env.generalize a) ha).1 hmaps)
    exact .letRec hm hag
      (hv (henv.insert hag y) (henv'.insert hag y) hsv (Derives.rename hvt' hagrees henv hag hyv))
      (hb (henv.insert (c := env.generalize a) ha y)
        (henv'.insert (c := env'.generalize (a.bind g)) hag y) hsb
        (Derives.rename hbt hagrees henv ha hyb))

theorem eliminate (hagrees : Stable agrees) (hy : y = x ∨ y ∉ b.names)
    (hv : KeepsTypes agrees subst v v')
    (hb : KeepsTypes agrees ((subst.erase x).insert y v') (b.rename x y) r) :
    KeepsTypes agrees subst (.letIn m x v b) r := by
  intro env env' t henv henv' hs ht
  cases ht with
  | @letIn _ _ _ _ _ a t _ hvt hbt =>
    have ha := Derives.isPlain hvt henv
    have hs' := (hs.mono fun z => Inside.letIn.free).insert_value (y := y)
      (c := env.generalize a) (v := v') fun u hu =>
        hv henv henv' (hs.outside .value) (Derives.instance hvt hagrees henv hu)
    exact hb (henv.insert (c := env.generalize a) ha y) henv' hs'
      (Derives.rename hbt hagrees henv ha hy)

theorem keep (hagrees : Stable agrees) (hy : Enters subst x y b.names)
    (hv : KeepsTypes agrees subst v v')
    (hb : KeepsTypes agrees (subst.erase x) (b.rename x y) b') (hl : LetOver m y v' b' r) :
    KeepsTypes agrees subst (.letIn m x v b) r := by
  intro env env' t henv henv' hs ht
  cases ht with
  | @letIn _ _ _ _ _ a t _ hvt hbt =>
    have ha := Derives.isPlain hvt henv
    have hs' := (hs.mono fun z => Inside.letIn.free).insert hagrees henv' hy
      (c := env.generalize a) (d := env.generalize a) fun _ hu => hu
    refine hl.derives hagrees henv' (c := env.generalize a) ha (fun u hu => ?_)
      (hb (henv.insert (c := env.generalize a) ha y)
        (henv'.insert (c := env.generalize a) ha y) hs'
        (Derives.rename hbt hagrees henv ha hy.scope))
    exact hv henv henv' (hs.outside .value) (Derives.instance hvt hagrees henv hu)

theorem binary {op : Operator} (ha : KeepsTypes agrees subst a a')
    (hb : KeepsTypes agrees subst b b') :
    KeepsTypes agrees subst (.binary m op a b) (.binary m op a' b') := by
  intro env env' t henv henv' hs ht
  cases ht with
  | binary hm hat hbt =>
    exact .binary hm (ha henv henv' (hs.outside .left) hat)
      (hb henv henv' (hs.outside .right) hbt)

theorem cond (hc : KeepsTypes agrees subst c c') (ha : KeepsTypes agrees subst a a')
    (hn : KeepsTypes agrees subst n n') :
    KeepsTypes agrees subst (.cond m c a n) (.cond m c' a' n') := by
  intro env env' t henv henv' hs ht
  cases ht with
  | cond hm hct hat hnt =>
    exact .cond hm (hc henv henv' (hs.outside .condition) hct)
      (ha henv henv' (hs.outside .thenBranch) hat) (hn henv henv' (hs.outside .elseBranch) hnt)

end KeepsTypes

/-- Subject reduction. -/
theorem Inlines.keepsTypes {subst : InlineEnv} {e r : Expr} (h : Inlines subst e r)
    (hagrees : Stable agrees) : KeepsTypes agrees subst e r := by
  induction h with
  | int =>
    intro env env' t _ _ _ ht
    cases ht with
    | int hm => exact .int hm
  | bool =>
    intro env env' t _ _ _ ht
    cases ht with
    | bool hm => exact .bool hm
  | @var subst m x =>
    intro env env' t _ _ hs ht
    cases ht with
    | var hm hx hc => exact hs x (NameSet.mem_single.2 rfl) _ hx m t hm hc
  | lam hy _ ih => exact .lam hagrees hy ih
  | app _ _ _ ihf iha => exact .app ihf iha
  | beta _ _ _ hfree hy _ ihf iha ihb => exact .beta hagrees hfree hy ihf iha ihb
  | letRec hy _ _ ihv ihb => exact .letRec hagrees hy ihv ihb
  | rotate hz _ ih =>
    exact fun _ _ _ henv henv' hs ht => ih henv henv' (hs.mono fun u hu => mem_free_of_rotated hu)
      (ht.rotated hagrees henv hz rfl)
  | eliminate _ _ _ hy _ ihv ihb => exact .eliminate hagrees hy ihv ihb
  | keep _ _ _ hy _ hl ihv ihb => exact .keep hagrees hy ihv ihb hl
  | binary _ _ ihl ihr => exact .binary ihl ihr
  | cond _ _ _ ihc ihy ihn => exact .cond ihc ihy ihn

theorem Inlines.hasType {subst : InlineEnv} {e r : Expr} (h : Inlines subst e r) {env env' : TyEnv}
    (henv : env.IsPlain) (henv' : env'.IsPlain) (hs : Supplies subst (· ∈ e.free) env env') {t : Ty}
    (ht : e.HasType env t) : r.HasType env' t :=
  h.keepsTypes stable_true henv henv' hs ht

end LetLower.Expr
