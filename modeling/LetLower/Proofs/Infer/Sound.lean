import LetLower.Proofs.Infer.Later

/-!
# Inference is sound

The types in the tree, once completed, derive the type that is returned. The induction is over the
rules of inference and carries what is solved after a part: the completed types of a part form a
derivation whatever that is, as long as it leaves the variables alone that the part drew and did
not return. Generalised variables are of this kind, so the scheme of a `let` is the one that the
declarative rule asks for.
-/

namespace LetLower.Expr

open Infers TyEnv

theorem Derives.mapMark {agrees agrees' : Mark → Ty → Prop} {h : Mark → Mark}
    (hm : ∀ m t, agrees m t → agrees' (h m) t) {env : TyEnv} {e : Expr} {t : Ty}
    (he : Derives agrees env e t) : Derives agrees' env (e.mapMark h) t := by
  induction he with
  | int ha => exact .int (hm _ _ ha)
  | bool ha => exact .bool (hm _ _ ha)
  | var ha hx hc => exact .var (hm _ _ ha) hx hc
  | lam ha hp _ ih => exact .lam (hm _ _ ha) hp ih
  | app ha _ _ ihf ihe => exact .app (hm _ _ ha) ihf ihe
  | letIn ha _ _ ihv ihb => exact .letIn (hm _ _ ha) ihv ihb
  | letRec ha hp _ _ ihv ihb => exact .letRec (hm _ _ ha) hp ihv ihb
  | binary ha _ _ ihl ihr => exact .binary (hm _ _ ha) ihl ihr
  | cond ha _ _ _ ihc ihy ihn => exact .cond (hm _ _ ha) ihc ihy ihn

namespace Part

variable {env env' : TyEnv} {s s₁ s₂ s₃ : NameSupply} {S S' : Subst} {whole r : Inferred}
  {f : String → Ty}

theorem bind_apply (h : Part env s whole s₃ S env' s₁ r s₂ S') (henv : env.Ready s) :
    TyEnv.bind (r.subst.andThen (S'.andThen f)) (env.apply S)
      = env.bind (whole.subst.andThen f) := by
  rw [apply_eq_bind henv.isPlain, h.andThen_eq,
    bind_bind (henv.avoids (fun _ => And.left) h.reached.subst)]
  rfl

theorem avoids (h : Part env s whole s₃ S env' s₁ r s₂ S') (henv : env.Ready s)
    (hf : env.Avoids (whole.subst.andThen f)) :
    TyEnv.Avoids (env.apply S) (r.subst.andThen (S'.andThen f)) := by
  rw [apply_eq_bind henv.isPlain]
  refine Avoids.bind henv.isPlain h.reached.subst.isPlain.image
    (henv.avoids (fun _ => And.left) h.reached.subst) ?_
  rw [h.andThen_eq] at hf
  exact hf

/-- A variable that is generalised before the last part is not spoken of from then on. -/
theorem not_inScope_of_bound {x : String} {t : Ty} {s₂ : NameSupply} {z : String}
    (ht : t.Unsolved (InScope env s s₁) S) (hz : z ∈ ((env.apply S).generalize t).bound) :
    ¬ InScope (Bindings.insert (env.apply S) x ((env.apply S).generalize t)) s₁ s₂ z := by
  have hz' := mem_bound_generalize.1 hz
  rintro ⟨hf | hi, _⟩
  · exact hz'.2 (mem_free_insert_generalize hf)
  · exact (ht.free z hz'.1).1.2 hi

theorem not_survives_of_bound {x : String} {t : Ty} (henv : env.Ready s)
    (h : Part env s whole s₃ S (Bindings.insert (env.apply S) x ((env.apply S).generalize t))
      s₁ r s₂ ∅)
    (ht : t.Unsolved (InScope env s s₁) S) (hw : whole.ty = r.ty) :
    ∀ z ∈ ((env.apply S).generalize t).bound, ¬ Survives env s whole s₃ z := by
  intro z hz hs
  have hz' := mem_bound_generalize.1 hz
  have hn : ¬ InScope (Bindings.insert (env.apply S) x ((env.apply S).generalize t)) s₁ s₂ z :=
    not_inScope_of_bound ht hz
  have hL := ht.free z hz'.1
  have hav := henv.avoids (fun _ => And.left) h.reached.subst
  have hmem : ∀ y ∈ env.free, ∀ w ∈ (S.image y).free, w ∈ (env.apply S).free := by
    intro y hy w hw
    rw [apply_eq_bind henv.isPlain]
    exact (mem_free_bind henv.isPlain hav).2 ⟨y, hy, hw⟩
  have hi : s.Issues z := by
    refine hL.1.1.resolve_left fun hf => hz'.2 (hmem z hf z ?_)
    rw [Subst.image_of_not_mem hL.2]
    exact Ty.mem_free_var.2 rfl
  rcases hs hi with hs | ⟨y, hy, hs⟩ | hs
  · rw [hw] at hs
    exact hn (h.returns.ty.free z hs).1
  · have hS := h.reached.subst.isPlain.image y
    rw [h.subst, Subst.empty_compose, Subst.image_compose, Ty.apply_eq_bind _ hS,
      Ty.mem_free_bind hS] at hs
    obtain ⟨w, hw, hs⟩ := hs
    rcases Subst.mem_image hs with ⟨rfl, _⟩ | hr
    · exact hz'.2 (hmem y hy z hw)
    · exact hn (h.returns.reached.subst.range z hr)
  · exact hL.1.2 ((hs.of_reaches h.supply).of_reaches h.returns.reached.supply)

/-- What is put in for the body of a `let` keeps the generalised variables. -/
theorem keeps_bound {x : String} {t : Ty} (henv : env.Ready s)
    (h : Part env s whole s₃ S (Bindings.insert (env.apply S) x ((env.apply S).generalize t))
      s₁ r s₂ ∅)
    (ht : t.Unsolved (InScope env s s₁) S) (hw : whole.ty = r.ty)
    (hf : Keeps (fun z => ¬ Survives env s whole s₃ z) f) :
    Keeps (· ∈ ((env.apply S).generalize t).bound) (r.subst.andThen f) :=
  hf.andThen (h.not_survives_of_bound henv ht hw)
    (h.returns.reached.subst.within fun _ hz => hz) fun _ hz hb => not_inScope_of_bound ht hb hz

/-- The scheme of a `let`, completed, is that of the completed type in the completed environment. -/
theorem bind_generalize {x : String} {t : Ty} (henv : env.Ready s)
    (h : Part env s whole s₃ S (Bindings.insert (env.apply S) x ((env.apply S).generalize t))
      s₁ r s₂ ∅)
    (ht : t.Unsolved (InScope env s s₁) S) (hw : whole.ty = r.ty)
    (hf : Keeps (fun z => ¬ Survives env s whole s₃ z) f)
    (hA : env.Avoids (whole.subst.andThen f)) :
    ((env.apply S).generalize t).bind (r.subst.andThen f)
      = (env.bind (whole.subst.andThen f)).generalize (t.bind (r.subst.andThen f)) := by
  have hk := h.keeps_bound henv ht hw hf
  have hA' := h.avoids henv hA
  rw [Subst.empty_andThen] at hA'
  rw [TyEnv.bind_generalize (h.reached.ready henv).isPlain ht.isPlain hA' hk.fixes
    fun y hy z hz hb => (mem_bound_generalize.1 hb).2 (hk.avoids z hb y hz ▸ hy)]
  have he := h.bind_apply (f := f) henv
  rw [Subst.empty_andThen] at he
  rw [he]

theorem avoids_insert {x : String} {t : Ty} (henv : env.Ready s)
    (h : Part env s whole s₃ S (Bindings.insert (env.apply S) x ((env.apply S).generalize t))
      s₁ r s₂ ∅)
    (ht : t.Unsolved (InScope env s s₁) S) (hw : whole.ty = r.ty)
    (hf : Keeps (fun z => ¬ Survives env s whole s₃ z) f)
    (hA : env.Avoids (whole.subst.andThen f)) :
    TyEnv.Avoids (Bindings.insert (env.apply S) x ((env.apply S).generalize t))
      (r.subst.andThen f) := by
  have hk := h.keeps_bound henv ht hw hf
  have hA' := h.avoids henv hA
  rw [Subst.empty_andThen] at hA'
  refine hA'.insert (fun y hy z hz hb => ?_) x
  rw [hk.avoids z hb y hz] at hy
  exact (Scheme.mem_free.1 hy).2 hb

end Part

/-- Whatever is put in afterwards, the completed types form a derivation. -/
def Sound (env : TyEnv) (s : NameSupply) (r : Inferred) (s' : NameSupply) : Prop :=
  ∀ f, Keeps (fun z => ¬ Survives env s r s' z) f → env.Avoids (r.subst.andThen f) →
    Derives (MarkedUnder (r.subst.andThen f) (InScope env s s')) (env.bind (r.subst.andThen f))
      r.tree (r.ty.bind f)

namespace Part

variable {env env' : TyEnv} {s s₁ s₂ s₃ : NameSupply} {S S' : Subst} {whole r : Inferred}
  {f : String → Ty}

theorem derives (h : Part env s whole s₃ S env' s₁ r s₂ S') (henv : env.Ready s)
    (hr : Sound env' s₁ r s₂) (hf : Keeps (fun z => ¬ Survives env s whole s₃ z) f)
    (hA : env'.Avoids (r.subst.andThen (S'.andThen f))) :
    Derives (MarkedUnder (whole.subst.andThen f) (InScope env s s₃))
      (env'.bind (r.subst.andThen (S'.andThen f))) r.tree (r.ty.bind (S'.andThen f)) :=
  (hr _ (h.keeps henv hf) hA).mono fun _ _ => h.marked

theorem derives_first (h : Part env s whole s₃ ∅ env s₁ r s₂ S') (henv : env.Ready s)
    (hr : Sound env s₁ r s₂) (hf : Keeps (fun z => ¬ Survives env s whole s₃ z) f)
    (hA : env.Avoids (whole.subst.andThen f)) :
    Derives (MarkedUnder (whole.subst.andThen f) (InScope env s s₃))
      (env.bind (whole.subst.andThen f)) r.tree (r.ty.bind (S'.andThen f)) := by
  have he := h.andThen_eq f
  rw [Subst.empty_andThen] at he
  have hd := h.derives henv hr hf (by rwa [← he])
  rwa [← he] at hd

theorem derives_apply (h : Part env s whole s₃ S (env.apply S) s₁ r s₂ S') (henv : env.Ready s)
    (hr : Sound (env.apply S) s₁ r s₂) (hf : Keeps (fun z => ¬ Survives env s whole s₃ z) f)
    (hA : env.Avoids (whole.subst.andThen f)) :
    Derives (MarkedUnder (whole.subst.andThen f) (InScope env s s₃))
      (env.bind (whole.subst.andThen f)) r.tree (r.ty.bind (S'.andThen f)) := by
  have hd := h.derives henv hr hf (h.avoids henv hA)
  rwa [h.bind_apply henv] at hd

/-- The value of a `let rec`, or the body of a function: the own name stands for a new variable. -/
theorem derives_fresh {x : String}
    (h : Part env s whole s₃ ∅ (Bindings.insert env x (.mono (.var s.fresh.1))) s₁ r s₂ S')
    (henv : env.Ready s) (hr : Sound (Bindings.insert env x (.mono (.var s.fresh.1))) s₁ r s₂)
    (hf : Keeps (fun z => ¬ Survives env s whole s₃ z) f)
    (hA : env.Avoids (whole.subst.andThen f)) :
    Derives (MarkedUnder (whole.subst.andThen f) (InScope env s s₃))
      (Bindings.insert (env.bind (whole.subst.andThen f)) x
        (.mono (whole.subst.andThen f s.fresh.1)))
      r.tree (r.ty.bind (S'.andThen f)) := by
  have he := h.andThen_eq f
  rw [Subst.empty_andThen] at he
  have hA' : TyEnv.Avoids (Bindings.insert env x (.mono (.var s.fresh.1)))
      (r.subst.andThen (S'.andThen f)) := by
    rw [← he]
    exact hA.insert (Scheme.avoids_mono _ _) x
  have hd := h.derives henv hr hf hA'
  rwa [bind_insert, Scheme.bind_mono, ← he] at hd

theorem derives_body {x : String} {t : Ty}
    (h : Part env s whole s₃ S (Bindings.insert (env.apply S) x ((env.apply S).generalize t))
      s₁ r s₂ ∅) (henv : env.Ready s)
    (hr : Sound (Bindings.insert (env.apply S) x ((env.apply S).generalize t)) s₁ r s₂)
    (ht : t.Unsolved (InScope env s s₁) S) (hw : whole.ty = r.ty)
    (hf : Keeps (fun z => ¬ Survives env s whole s₃ z) f)
    (hA : env.Avoids (whole.subst.andThen f)) :
    Derives (MarkedUnder (whole.subst.andThen f) (InScope env s s₃))
      (Bindings.insert (env.bind (whole.subst.andThen f)) x
        ((env.bind (whole.subst.andThen f)).generalize (t.bind (r.subst.andThen f))))
      r.tree (whole.ty.bind f) := by
  have hd := h.derives henv hr hf (h.avoids_insert henv ht hw hf hA)
  have he := h.bind_apply (f := f) henv
  rw [Subst.empty_andThen] at hd he
  rwa [bind_insert, he, h.bind_generalize henv ht hw hf hA, ← hw] at hd

end Part

section

variable {env : TyEnv} {m : Mark} {s s₁ s₂ s₃ : NameSupply} {p q r : Inferred} {u u' : Ty.Unifier}
  {found : Subst} {c : Scheme} {t : Ty} {x : String} {tree : Expr}

theorem sound_lam (henv : env.Ready s)
    (hr : Returns (Bindings.insert env x (.mono (.var s.fresh.1))) s.advance r s₁)
    (ht : t = .fn ((Ty.var s.fresh.1).apply r.subst) r.ty)
    (hw : Returns env s ⟨.lam { m with ty := some t } x r.tree, t, r.subst⟩ s₁)
    (hb : Sound (Bindings.insert env x (.mono (.var s.fresh.1))) s.advance r s₁) :
    Sound env s ⟨.lam { m with ty := some t } x r.tree, t, r.subst⟩ s₁ := by
  intro f hf hA
  have hp : Part env s ⟨.lam { m with ty := some t } x r.tree, t, r.subst⟩ s₁ ∅
      (Bindings.insert env x (.mono (.var s.fresh.1))) s.advance r s₁ ∅ :=
    { reached := (reached_refl env s).advance
      scope := (reached_refl env s).mem_free_insert_fresh henv.inScope x
      returns := hr
      later := .empty _
      subst := by rw [Subst.compose_empty, Subst.empty_compose]
      ty := by
        rw [ht]
        exact fun z hz => (Ty.mem_free_fn.1 hz).elim
          (hr.survives_image s.not_issues_fresh) (survives_ty z)
      supply := .refl s₁ }
  have hd := hp.derives_fresh henv hb hf hA
  have hm := hw.marked m f
  have htf : t.bind f = .fn (r.subst.andThen f s.fresh.1) (r.ty.bind f) := by
    rw [ht, Ty.bind_fn, Ty.bind_apply (by trivial)]
    rfl
  change MarkedUnder _ _ _ (t.bind f) at hm
  change Derives _ _ (.lam _ x r.tree) (t.bind f)
  rw [htf] at hm ⊢
  exact .lam hm (Subst.andThen_isPlain hr.reached.subst.isPlain hf.isPlain _) hd

theorem survives_fresh {env' : TyEnv} {s' s'' : NameSupply} {r' : Inferred} (hs : s''.Reaches s₂) :
    ∀ z ∈ (Ty.var s₂.fresh.1).free, Survives env' s' r' s'' z := by
  intro z hz
  rw [Ty.mem_free_var.1 hz]
  exact survives_of_issues (s₂.issues_fresh.of_reaches hs)

theorem part_callee (henv : env.Ready s) (hr : Returns env s r s₁)
    (hq : Returns (env.apply r.subst) s₁ q s₂)
    (hu : Ty.Unifies (r.ty.apply q.subst) (.fn q.ty (.var s₂.fresh.1)) u)
    (ht : t = (Ty.var s₂.fresh.1).apply u.subst) :
    Part env s ⟨tree, t, Subst.compose u.subst (Subst.compose q.subst r.subst)⟩ s₂.advance ∅ env s
      r s₁ (Subst.compose u.subst q.subst) := by
  have hqL := hr.survives_later (T := r.subst) henv (reached_refl env s) (.empty _)
    (by rw [Subst.compose_empty, Subst.empty_compose]) (fun _ hz => hz) (.refl s₁) s₂
  have hqK := hq.reached.subst.within hqL
  have hrK := hqK.mem_apply hr.ty.isPlain survives_ty
  have hfnK : ∀ z ∈ (Ty.fn q.ty (.var s₂.fresh.1)).free, Survives env s r s₁ z := fun z hz =>
    (Ty.mem_free_fn.1 hz).elim (fun hz => hqL z (hq.ty.free z hz).1)
      (survives_fresh hq.reached.supply z)
  have huK := hu.within hrK hfnK
  refine
    { reached := reached_refl env s
      scope := henv.inScope
      returns := hr
      later := hqK.compose huK
      subst := by rw [Subst.compose_empty, hr.reached.subst.isPlain.compose_assoc]
      ty := ?_
      supply := hq.reached.supply.trans s₂.reaches_advance }
  rw [ht]
  exact huK.mem_apply trivial (survives_fresh hq.reached.supply)

theorem part_argument (henv : env.Ready s) (hr : Returns env s r s₁)
    (hq : Returns (env.apply r.subst) s₁ q s₂)
    (hu : Ty.Unifies (r.ty.apply q.subst) (.fn q.ty (.var s₂.fresh.1)) u)
    (ht : t = (Ty.var s₂.fresh.1).apply u.subst) :
    Part env s ⟨tree, t, Subst.compose u.subst (Subst.compose q.subst r.subst)⟩ s₂.advance r.subst
      (env.apply r.subst) s₁ q s₂ u.subst := by
  have hrK := hq.survives_apply hr.ty.isPlain fun y hy => (hr.ty.free y hy).1.2
  have hfnK : ∀ z ∈ (Ty.fn q.ty (.var s₂.fresh.1)).free,
      Survives (env.apply r.subst) s₁ q s₂ z := fun z hz =>
    (Ty.mem_free_fn.1 hz).elim (survives_ty z) (survives_fresh (.refl s₂) z)
  have huK := hu.within hrK hfnK
  refine
    { reached := hr.reached
      scope := hr.reached.mem_free_apply henv.toUnissued
      returns := hq
      later := huK
      subst := rfl
      ty := ?_
      supply := s₂.reaches_advance }
  rw [ht]
  exact huK.mem_apply trivial (survives_fresh (.refl s₂))

theorem sound_app (henv : env.Ready s) (hr : Returns env s r s₁)
    (hq : Returns (env.apply r.subst) s₁ q s₂)
    (hu : Ty.Unifies (r.ty.apply q.subst) (.fn q.ty (.var s₂.fresh.1)) u)
    (ht : t = (Ty.var s₂.fresh.1).apply u.subst)
    (hw : Returns env s ⟨.app { m with ty := some t } r.tree q.tree, t,
      Subst.compose u.subst (Subst.compose q.subst r.subst)⟩ s₂.advance)
    (hf₀ : Sound env s r s₁) (ha : Sound (env.apply r.subst) s₁ q s₂) :
    Sound env s ⟨.app { m with ty := some t } r.tree q.tree, t,
      Subst.compose u.subst (Subst.compose q.subst r.subst)⟩ s₂.advance := by
  intro f hf hA
  have hdf := (part_callee henv hr hq hu ht).derives_first henv hf₀ hf hA
  have hda := (part_argument henv hr hq hu ht).derives_apply henv ha hf hA
  have hfn : r.ty.bind ((Subst.compose u.subst q.subst).andThen f)
      = .fn (q.ty.bind (u.subst.andThen f)) (t.bind f) := by
    rw [Subst.andThen_compose hq.reached.subst.isPlain, ← Ty.bind_apply hr.ty.isPlain,
      hu.bind_andThen, ht, Ty.bind_apply (by trivial)]
    rfl
  rw [hfn] at hdf
  exact .app (hw.marked m f) hdf hda

theorem sound_let (henv : env.Ready s) (hr : Returns env s r s₁)
    (hq : Returns (Bindings.insert (env.apply r.subst) x ((env.apply r.subst).generalize r.ty))
      s₁ q s₂)
    (hw : Returns env s ⟨.letIn { m with ty := some q.ty } x r.tree q.tree, q.ty,
      Subst.compose q.subst r.subst⟩ s₂)
    (hv : Sound env s r s₁)
    (hb : Sound (Bindings.insert (env.apply r.subst) x ((env.apply r.subst).generalize r.ty))
      s₁ q s₂) :
    Sound env s ⟨.letIn { m with ty := some q.ty } x r.tree q.tree, q.ty,
      Subst.compose q.subst r.subst⟩ s₂ := by
  intro f hf hA
  have hqL := hr.survives_later (T := r.subst) henv (reached_refl env s) (.empty _)
    (by rw [Subst.compose_empty, Subst.empty_compose])
    (fun _ => mem_free_insert_generalize (x := x) (t := r.ty)) (.refl s₁) s₂
  have hp : Part env s ⟨.letIn { m with ty := some q.ty } x r.tree q.tree, q.ty,
      Subst.compose q.subst r.subst⟩ s₂ ∅ env s r s₁ q.subst :=
    { reached := reached_refl env s
      scope := henv.inScope
      returns := hr
      later := hq.reached.subst.within hqL
      subst := by rw [Subst.compose_empty]
      ty := fun z hz => hqL z (hq.ty.free z hz).1
      supply := hq.reached.supply }
  have hp' : Part env s ⟨.letIn { m with ty := some q.ty } x r.tree q.tree, q.ty,
      Subst.compose q.subst r.subst⟩ s₂ r.subst
      (Bindings.insert (env.apply r.subst) x ((env.apply r.subst).generalize r.ty)) s₁ q s₂ ∅ :=
    { reached := hr.reached
      scope := hr.reached.mem_free_generalize henv.toUnissued hr.ty x
      returns := hq
      later := .empty _
      subst := (Subst.empty_compose _).symm
      ty := fun z hz => survives_ty z hz
      supply := .refl s₂ }
  exact .letIn (hw.marked m f) (hp.derives_first henv hv hf hA)
    (hp'.derives_body henv hb hr.ty rfl hf hA)

theorem part_recValue (henv : env.Ready s)
    (hr : Returns (Bindings.insert env x (.mono (.var s.fresh.1))) s.advance r s₁)
    (hu : Ty.Unifies r.ty ((Ty.var s.fresh.1).apply r.subst) u)
    (hs : found = Subst.compose u.subst r.subst)
    (hq : Returns (Bindings.insert (env.apply found) x ((env.apply found).generalize u.type))
      s₁ q s₂) :
    Part env s ⟨tree, q.ty, Subst.compose q.subst found⟩ s₂ ∅
      (Bindings.insert env x (.mono (.var s.fresh.1))) s.advance r s₁
      (Subst.compose q.subst u.subst) := by
  have h₀ := (reached_refl env s).advance
  have hownK := hr.survives_apply (t := .var s.fresh.1) trivial fun y hy => by
    rw [Ty.mem_free_var.1 hy]
    exact s.not_issues_fresh
  have huK := hu.within survives_ty hownK
  have hqL := hr.survives_later (T := found) henv h₀ huK (by rw [Subst.compose_empty, hs])
    (fun _ => mem_free_insert_generalize (x := x) (t := u.type)) (.refl s₁) s₂
  exact
    { reached := h₀
      scope := (reached_refl env s).mem_free_insert_fresh henv.inScope x
      returns := hr
      later := huK.compose (hq.reached.subst.within hqL)
      subst := by rw [Subst.compose_empty, hs, hr.reached.subst.isPlain.compose_assoc]
      ty := fun z hz => hqL z (hq.ty.free z hz).1
      supply := hq.reached.supply }

theorem part_recBody (henv : env.Ready s) (h : Reached env s found s₁)
    (hut : u.type.Unsolved (InScope env s s₁) found)
    (hq : Returns (Bindings.insert (env.apply found) x ((env.apply found).generalize u.type))
      s₁ q s₂) :
    Part env s ⟨tree, q.ty, Subst.compose q.subst found⟩ s₂ found
      (Bindings.insert (env.apply found) x ((env.apply found).generalize u.type)) s₁ q s₂ ∅ where
  reached := h
  scope := h.mem_free_generalize henv.toUnissued hut x
  returns := hq
  later := .empty _
  subst := (Subst.empty_compose _).symm
  ty z hz := survives_ty z hz
  supply := .refl s₂

theorem sound_letRec (henv : env.Ready s)
    (hr : Returns (Bindings.insert env x (.mono (.var s.fresh.1))) s.advance r s₁)
    (hu : Ty.unify r.ty ((Ty.var s.fresh.1).apply r.subst) = .ok u)
    (hs : found = Subst.compose u.subst r.subst)
    (hq : Returns (Bindings.insert (env.apply found) x ((env.apply found).generalize u.type))
      s₁ q s₂)
    (hw : Returns env s ⟨.letRec { m with ty := some q.ty } x (r.tree.substitute u.subst) q.tree,
      q.ty, Subst.compose q.subst found⟩ s₂)
    (hv : Sound (Bindings.insert env x (.mono (.var s.fresh.1))) s.advance r s₁)
    (hb : Sound (Bindings.insert (env.apply found) x ((env.apply found).generalize u.type))
      s₁ q s₂) :
    Sound env s ⟨.letRec { m with ty := some q.ty } x (r.tree.substitute u.subst) q.tree,
      q.ty, Subst.compose q.subst found⟩ s₂ := by
  intro f hf hA
  obtain ⟨_, hval, hown⟩ := hr.own henv.toUnissued
  obtain ⟨h₂, hut⟩ := hr.own_unify henv.toUnissued hu
  rw [← hs] at h₂ hut
  have hu := Ty.unifies_of_unify hval.isPlain hown.isPlain hu
  have hdv := (part_recValue henv hr hu hs hq).derives_fresh henv hv hf hA
  have hdb := (part_recBody henv h₂ hut hq).derives_body henv hb hut rfl hf hA
  have hthen : (Subst.compose q.subst u.subst).andThen f = u.subst.andThen (q.subst.andThen f) :=
    Subst.andThen_compose hu.mostGeneral.isPlain f
  have hwhole : (Subst.compose q.subst found).andThen f
      = r.subst.andThen (u.subst.andThen (q.subst.andThen f)) := by
    rw [Subst.andThen_compose h₂.subst.isPlain, hs,
      Subst.andThen_compose hr.reached.subst.isPlain]
  rw [hthen, ← hu.bind_type] at hdv
  have hself : (Subst.compose q.subst found).andThen f s.fresh.1
      = u.type.bind (q.subst.andThen f) := by
    rw [hu.bind_type, hu.bind_andThen, Ty.bind_apply (by trivial), Ty.bind_var]
    exact congrFun hwhole s.fresh.1
  have hL : u.subst.Within (InScope env s s₂) :=
    hu.within (fun z hz => (hval.free z hz).1.mono hq.reached.supply)
      fun z hz => (hown.free z hz).1.mono hq.reached.supply
  have himage := image_bind_unifier (g := (Subst.compose q.subst found).andThen f) hu.solvesIn
    (k := q.subst.andThen f) fun w hw => by
      rw [hwhole]
      exact Subst.andThen_of_not_mem (hval.mem_vars hown w hw).2 _
  have hd : Derives (MarkedUnder ((Subst.compose q.subst found).andThen f) (InScope env s s₂)) _
      (r.tree.substitute u.subst) _ := hdv.mapMark fun m t hm => hm.substitute hL himage
  change Derives _ (Bindings.insert _ x
    (.mono ((Subst.compose q.subst found).andThen f s.fresh.1))) _ _ at hd
  rw [hself] at hd
  have hplain := hut.isPlain.bind fun y _ => Subst.andThen_isPlain hq.reached.subst.isPlain
    hf.isPlain y
  exact .letRec (hw.marked m f) hplain hd hdb

theorem part_left (henv : env.Ready s) (hp : Returns env s p s₁) (hu : Ty.Unifies p.ty .int u)
    (hs : found = Subst.compose u.subst p.subst) (hq : Returns (env.apply found) s₁ q s₂)
    (hu' : Ty.Unifies q.ty .int u') (ht : t.free = ∅) :
    Part env s ⟨tree, t, Subst.compose u'.subst (Subst.compose q.subst found)⟩ s₂ ∅ env s p s₁
      (Subst.compose u'.subst (Subst.compose q.subst u.subst)) := by
  have huK : u.subst.Within (Survives env s p s₁) :=
    hu.within survives_ty fun z hz => absurd hz (Ty.not_mem_free_int z)
  have hqL := hp.survives_later (T := found) henv (reached_refl env s) huK
    (by rw [Subst.compose_empty, hs]) (fun _ hz => hz) (.refl s₁) s₂
  have huK' := hu'.within (fun z hz => hqL z (hq.ty.free z hz).1) fun z hz =>
    absurd hz (Ty.not_mem_free_int z)
  exact
    { reached := reached_refl env s
      scope := henv.inScope
      returns := hp
      later := (huK.compose (hq.reached.subst.within hqL)).compose huK'
      subst := by
        rw [Subst.compose_empty, hs, hp.reached.subst.isPlain.compose_assoc,
          hp.reached.subst.isPlain.compose_assoc]
      ty := fun z hz => absurd (ht ▸ hz) (NameSet.not_mem_empty z)
      supply := hq.reached.supply }

theorem part_right (henv : env.Ready s) (h : Reached env s found s₁)
    (hq : Returns (env.apply found) s₁ q s₂) (hu : Ty.Unifies q.ty .int u) (ht : t.free = ∅) :
    Part env s ⟨tree, t, Subst.compose u.subst (Subst.compose q.subst found)⟩ s₂ found
      (env.apply found) s₁ q s₂ u.subst where
  reached := h
  scope := h.mem_free_apply henv.toUnissued
  returns := hq
  later := hu.within survives_ty fun z hz => absurd hz (Ty.not_mem_free_int z)
  subst := rfl
  ty z hz := absurd (ht ▸ hz) (NameSet.not_mem_empty z)
  supply := .refl s₂

theorem sound_binary {op : Operator} (henv : env.Ready s) (hp : Returns env s p s₁)
    (hu : Ty.Unifies p.ty .int u) (hs : found = Subst.compose u.subst p.subst)
    (hq : Returns (env.apply found) s₁ q s₂) (hu' : Ty.Unifies q.ty .int u')
    (hw : Returns env s ⟨.binary { m with ty := some op.resultTy } op p.tree q.tree, op.resultTy,
      Subst.compose u'.subst (Subst.compose q.subst found)⟩ s₂)
    (hl : Sound env s p s₁) (hr : Sound (env.apply found) s₁ q s₂) :
    Sound env s ⟨.binary { m with ty := some op.resultTy } op p.tree q.tree, op.resultTy,
      Subst.compose u'.subst (Subst.compose q.subst found)⟩ s₂ := by
  intro f hf hA
  have hop : op.resultTy.free = ∅ := by cases op <;> rfl
  have h₁ := hp.reached.unify hp.ty .int hu
  rw [← hs] at h₁
  have hdl := (part_left henv hp hu hs hq hu' hop).derives_first henv hl hf hA
  have hdr := (part_right henv h₁ hq hu' hop).derives_apply henv hr hf hA
  rw [Subst.andThen_compose (hq.reached.subst.isPlain.compose hu.mostGeneral.isPlain),
    Subst.andThen_compose hu.mostGeneral.isPlain, hu.bind_andThen] at hdl
  rw [hu'.bind_andThen] at hdr
  have hm := hw.marked m f
  have hres : op.resultTy.bind f = op.resultTy := by cases op <;> rfl
  change MarkedUnder _ _ _ (op.resultTy.bind f) at hm
  change Derives _ _ (.binary _ op p.tree q.tree) (op.resultTy.bind f)
  rw [hres] at hm ⊢
  exact .binary hm hdl hdr

theorem part_condition (henv : env.Ready s) (hp : Returns env s p s₁)
    (hu : Ty.Unifies p.ty .bool u) (hs : found = Subst.compose u.subst p.subst)
    (hq : Returns (env.apply found) s₁ q s₂)
    (hr : Returns (env.apply (Subst.compose q.subst found)) s₂ r s₃)
    (hu' : Ty.Unifies (q.ty.apply r.subst) r.ty u') :
    Part env s ⟨tree, u'.type,
      Subst.compose u'.subst (Subst.compose r.subst (Subst.compose q.subst found))⟩ s₃ ∅ env s p s₁
      (Subst.compose u'.subst (Subst.compose r.subst (Subst.compose q.subst u.subst))) := by
  have huK : u.subst.Within (Survives env s p s₁) :=
    hu.within survives_ty fun z hz => absurd hz (Ty.not_mem_free_bool z)
  have hqL := hp.survives_later (T := found) henv (reached_refl env s) huK
    (by rw [Subst.compose_empty, hs]) (fun _ hz => hz) (.refl s₁) s₂
  have hqK := hq.reached.subst.within hqL
  have hrL := hp.survives_later (T := Subst.compose q.subst found) henv (reached_refl env s)
    (huK.compose hqK) (by rw [Subst.compose_empty, hs, hp.reached.subst.isPlain.compose_assoc])
    (fun _ hz => hz) hq.reached.supply s₃
  have hrK := hr.reached.subst.within hrL
  have hqtK := hrK.mem_apply hq.ty.isPlain fun z hz => hqL z (hq.ty.free z hz).1
  have hrtK := fun z hz => hrL z (hr.ty.free z hz).1
  exact
    { reached := reached_refl env s
      scope := henv.inScope
      returns := hp
      later := ((huK.compose hqK).compose hrK).compose (hu'.within hqtK hrtK)
      subst := by
        rw [Subst.compose_empty, hs, hp.reached.subst.isPlain.compose_assoc,
          hp.reached.subst.isPlain.compose_assoc,
          hp.reached.subst.isPlain.compose_assoc]
      ty := hu'.mem_type (hq.ty.isPlain.apply hr.reached.subst.isPlain) hqtK hrtK
      supply := hq.reached.supply.trans hr.reached.supply }

theorem part_yes (henv : env.Ready s) (h : Reached env s found s₁)
    (hq : Returns (env.apply found) s₁ q s₂)
    (hr : Returns (env.apply (Subst.compose q.subst found)) s₂ r s₃)
    (hu : Ty.Unifies (q.ty.apply r.subst) r.ty u) :
    Part env s ⟨tree, u.type,
      Subst.compose u.subst (Subst.compose r.subst (Subst.compose q.subst found))⟩ s₃ found
      (env.apply found) s₁ q s₂ (Subst.compose u.subst r.subst) := by
  have hrL := hq.survives_later (T := Subst.compose q.subst found) henv h (.empty _)
    (Subst.empty_compose _).symm (fun _ hz => hz) (.refl s₂) s₃
  have hrK := hr.reached.subst.within hrL
  have hqtK := hrK.mem_apply hq.ty.isPlain survives_ty
  have hrtK := fun z hz => hrL z (hr.ty.free z hz).1
  exact
    { reached := h
      scope := h.mem_free_apply henv.toUnissued
      returns := hq
      later := hrK.compose (hu.within hqtK hrtK)
      subst := (hq.reached.subst.isPlain.compose h.subst.isPlain).compose_assoc
      ty := hu.mem_type (hq.ty.isPlain.apply hr.reached.subst.isPlain) hqtK hrtK
      supply := hr.reached.supply }

theorem part_no (henv : env.Ready s) (h : Reached env s found s₁)
    (hq : Returns (env.apply found) s₁ q s₂)
    (hr : Returns (env.apply (Subst.compose q.subst found)) s₂ r s₃)
    (hu : Ty.Unifies (q.ty.apply r.subst) r.ty u) :
    Part env s ⟨tree, u.type,
      Subst.compose u.subst (Subst.compose r.subst (Subst.compose q.subst found))⟩ s₃
      (Subst.compose q.subst found) (env.apply (Subst.compose q.subst found)) s₂ r s₃ u.subst := by
  have hin := h.mem_free_apply henv.toUnissued
  have h₂ := h.infer hin hq.reached
  have hqt := hq.ty.later (h.inScope hin)
  have hqtK := hr.survives_apply hq.ty.isPlain fun z hz => (hqt.free z hz).1.2
  exact
    { reached := h₂
      scope := h₂.mem_free_apply henv.toUnissued
      returns := hr
      later := hu.within hqtK survives_ty
      subst := rfl
      ty := hu.mem_type (hq.ty.isPlain.apply hr.reached.subst.isPlain) hqtK survives_ty
      supply := .refl s₃ }

theorem sound_cond (henv : env.Ready s) (hp : Returns env s p s₁)
    (hu : Ty.Unifies p.ty .bool u) (hs : found = Subst.compose u.subst p.subst)
    (hq : Returns (env.apply found) s₁ q s₂)
    (hr : Returns (env.apply (Subst.compose q.subst found)) s₂ r s₃)
    (hu' : Ty.Unifies (q.ty.apply r.subst) r.ty u')
    (hw : Returns env s ⟨.cond { m with ty := some u'.type } p.tree q.tree r.tree, u'.type,
      Subst.compose u'.subst (Subst.compose r.subst (Subst.compose q.subst found))⟩ s₃)
    (hc : Sound env s p s₁) (hy : Sound (env.apply found) s₁ q s₂)
    (hn : Sound (env.apply (Subst.compose q.subst found)) s₂ r s₃) :
    Sound env s ⟨.cond { m with ty := some u'.type } p.tree q.tree r.tree, u'.type,
      Subst.compose u'.subst (Subst.compose r.subst (Subst.compose q.subst found))⟩ s₃ := by
  intro f hf hA
  have h₁ := hp.reached.unify hp.ty .bool hu
  rw [← hs] at h₁
  have hdc := (part_condition henv hp hu hs hq hr hu').derives_first henv hc hf hA
  have hdy := (part_yes henv h₁ hq hr hu').derives_apply henv hy hf hA
  have hdn := (part_no henv h₁ hq hr hu').derives_apply henv hn hf hA
  have hup := hu.mostGeneral.isPlain
  rw [Subst.andThen_compose
      (hr.reached.subst.isPlain.compose (hq.reached.subst.isPlain.compose hup)),
    Subst.andThen_compose (hq.reached.subst.isPlain.compose hup), Subst.andThen_compose hup,
    hu.bind_andThen] at hdc
  rw [Subst.andThen_compose hr.reached.subst.isPlain, ← Ty.bind_apply hq.ty.isPlain,
    ← hu'.bind_type] at hdy
  rw [← hu'.bind_andThen, ← hu'.bind_type] at hdn
  exact .cond (hw.marked m f) hdc hdy hdn

end

theorem Infers.sound {env : TyEnv} {e : Expr} {s : NameSupply} {r : Inferred} {s' : NameSupply}
    (h : Infers env e s r s') (henv : env.Ready s) : Sound env s r s' := by
  have hw := h.returns henv.toUnissued
  induction h with
  | int => exact fun f _ _ => .int (hw.marked _ f)
  | bool => exact fun f _ _ => .bool (hw.marked _ f)
  | @var env m x c s hx =>
    intro f hf hA
    refine .var (hw.marked m f) (get?_bind_eq_some.2 ⟨c, hx, rfl⟩) ?_
    rw [Subst.empty_andThen] at hA ⊢
    refine Scheme.HasInstance.bind (henv.isPlain x c hx) hf.isPlain (hA x c hx) ?_
    exact ⟨c.freshSubst s, c.isPlain_freshSubst s, fun y hy => Scheme.mem_freshSubst.1 hy, rfl⟩
  | @lam env m x b s r s' t hb ht ih =>
    have hready := henv.insert_fresh x
    have hr := hb.returns hready.toUnissued
    exact sound_lam henv hr ht hw (ih hready hr)
  | @app env m f a s r s₁ q s₂ u t hf ha hu ht ihf iha =>
    have hr := hf.returns henv.toUnissued
    have hready := hr.reached.ready henv
    have hq := ha.returns hready.toUnissued
    have hu := Ty.unifies_of_unify (hr.ty.isPlain.apply hq.reached.subst.isPlain)
      (show (Ty.fn q.ty (.var s₂.fresh.1)).IsPlain from ⟨hq.ty.isPlain, trivial⟩) hu
    exact sound_app henv hr hq hu ht hw (ihf henv hr) (iha hready hq)
  | @letIn env m x v b s r s₁ q s₂ c hv hc hb ihv ihb =>
    have hr := hv.returns henv.toUnissued
    rw [hr.ty.apply_eq] at hc
    rw [hc] at hb ihb
    have hready := hr.reached.ready_generalize henv hr.ty x
    have hq := hb.returns hready.toUnissued
    exact sound_let henv hr hq hw (ihv henv hr) (ihb hready hq)
  | @letRec env m x v b s r s₁ u found q s₂ c hv hu hs hc hb ihv ihb =>
    have hready := henv.insert_fresh x
    have hr := hv.returns hready.toUnissued
    obtain ⟨h₂, hut⟩ := hr.own_unify henv.toUnissued hu
    rw [← hs] at h₂ hut
    rw [hc] at hb ihb
    have hready' := h₂.ready_generalize henv hut x
    have hq := hb.returns hready'.toUnissued
    exact sound_letRec henv hr hu hs hq hw (ihv hready hr) (ihb hready' hq)
  | @binary env m op l r s p s₁ u found q s₂ u' hl hu hs hr hu' ihl ihr =>
    have hp := hl.returns henv.toUnissued
    have h₁ := hp.unify .int hu
    rw [← hs] at h₁
    have hready := h₁.ready henv
    have hq := hr.returns hready.toUnissued
    have hu := Ty.unifies_of_unify hp.ty.isPlain Ty.isPlain_int hu
    have hu' := Ty.unifies_of_unify hq.ty.isPlain Ty.isPlain_int hu'
    exact sound_binary henv hp hu hs hq hu' hw (ihl henv hp) (ihr hready hq)
  | @cond env m c y n s p s₁ u found q s₂ r s₃ u' hc hu hs hy hn hu' ihc ihy ihn =>
    have hp := hc.returns henv.toUnissued
    have h₁ := hp.unify .bool hu
    rw [← hs] at h₁
    have hready := h₁.ready henv
    have hq := hy.returns hready.toUnissued
    have h₂ := h₁.infer (h₁.mem_free_apply henv.toUnissued) hq.reached
    have hready' := h₂.ready henv
    have hr := hn.returns hready'.toUnissued
    have hu := Ty.unifies_of_unify hp.ty.isPlain Ty.isPlain_bool hu
    have hu' := Ty.unifies_of_unify (hq.ty.isPlain.apply hr.reached.subst.isPlain)
      hr.ty.isPlain hu'
    exact sound_cond henv hp hu hs hq hr hu' hw (ihc henv hp) (ihy hready hq) (ihn hready' hr)

end LetLower.Expr
