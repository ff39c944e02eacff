import LetLower.Proofs.Expr.Alike
import LetLower.Proofs.Infer.Later

/-!
# Inference is complete

Whatever has a type by the declarative rules is inferred, with a type of which the declarative one
is an instance. The induction is over the derivation. It carries a map from all variables to the
types that the derivation has for them; each step of inference refines the map, and the schemes of
inference cover those that the derivation chose. In the end one map takes the type found at each
node to the one that the derivation has there.
-/

namespace LetLower

namespace Scheme

/-- Under the map, the scheme has every instance of the other one, and its free variables stand for
types in which only free variables of the other occur. -/
structure Covers (c : Scheme) (f : String → Ty) (d : Scheme) : Prop where
  instances : ∀ t, d.HasInstance t →
    ∃ g : String → Ty, (∀ x, (g x).IsPlain) ∧ (∀ x ∈ c.free, g x = f x) ∧ t = c.body.bind g
  free : ∀ z ∈ c.free, ∀ w ∈ (f z).free, w ∈ d.free

theorem Covers.congr {c d : Scheme} {f g : String → Ty} (h : c.Covers f d)
    (he : ∀ x ∈ c.free, f x = g x) : c.Covers g d where
  instances t ht := by
    obtain ⟨k, hk, hkf, rfl⟩ := h.instances t ht
    exact ⟨k, hk, fun x hx => (hkf x hx).trans (he x hx), rfl⟩
  free z hz w hw := by
    rw [← he z hz] at hw
    exact h.free z hz w hw

theorem covers_of_isClosed {c : Scheme} (hc : c.body.IsPlain) (h : c.IsClosed) (f : String → Ty) :
    c.Covers f c where
  instances t ht := by
    obtain ⟨g, hg, _, rfl⟩ := (hasInstance_iff hc).1 ht
    exact ⟨g, hg, fun x hx => absurd hx (h x), rfl⟩
  free z hz := absurd hz (h z)

theorem covers_mono {x : String} {t : Ty} {f : String → Ty} (ht : t.IsPlain) (hf : f x = t)
    (hp : ∀ x, (f x).IsPlain) : (mono (.var x)).Covers f (mono t) where
  instances u hu := by
    rw [(hasInstance_mono_iff ht).1 hu, ← hf]
    exact ⟨f, hp, fun _ _ => rfl, rfl⟩
  free z hz w hw := by
    rw [Ty.mem_free_var.1 ((free_mono _).1 hz), hf] at hw
    exact (free_mono t).2 hw

/-- A substitution that the map goes through can be done first. -/
theorem Covers.bind {c d : Scheme} {S : Subst} {f : String → Ty} (hc : c.body.IsPlain)
    (hS : S.IsPlain) (hav : c.Avoids S.image) (hf : ∀ x, (f x).IsPlain)
    (h : c.Covers (S.andThen f) d) : (c.bind S.image).Covers f d where
  instances t ht := by
    obtain ⟨g, hg, hgf, rfl⟩ := h.instances t ht
    refine ⟨fun z => if z ∈ c.bound then g z else f z, fun z => ?_, fun z hz => ?_, ?_⟩
    · dsimp only
      split
      · exact hg z
      · exact hf z
    · exact if_neg (mem_free.1 hz).2
    · simp only [Scheme.bind]
      rw [Ty.bind_bind]
      refine Ty.bind_congr fun x hx => ?_
      by_cases hb : x ∈ c.bound
      · rw [if_pos hb, Ty.bind_var, if_pos hb]
      · rw [if_neg hb, hgf x (mem_free.2 ⟨hx, hb⟩)]
        exact Ty.bind_congr fun z hz => (if_neg (hav x (mem_free.2 ⟨hx, hb⟩) z hz)).symm
  free z hz w hw := by
    obtain ⟨y, hy, hzy⟩ := exists_of_mem_free_bind hc hz
    exact h.free y hy w ((Ty.mem_free_bind (hS.image y)).2 ⟨z, hzy, hw⟩)

end Scheme

namespace TyEnv

def Covers (env : TyEnv) (f : String → Ty) (env' : TyEnv) : Prop :=
  ∀ x, env.get? x = none ∧ env'.get? x = none ∨
    ∃ c d, env.get? x = some c ∧ env'.get? x = some d ∧ c.Covers f d

variable {env env' : TyEnv} {f g : String → Ty}

theorem IsClosed.covers (h : env.IsClosed) (f : String → Ty) : env.Covers f env := by
  intro x
  cases hx : env.get? x with
  | none => exact .inl ⟨rfl, rfl⟩
  | some c => exact .inr ⟨c, c, rfl, rfl, Scheme.covers_of_isClosed (h x c hx).2 (h x c hx).1 f⟩

theorem Covers.congr (h : env.Covers f env') (he : ∀ x ∈ env.free, f x = g x) :
    env.Covers g env' := by
  intro x
  refine (h x).imp_right ?_
  rintro ⟨c, d, hc, hd, hcd⟩
  exact ⟨c, d, hc, hd, hcd.congr fun z hz => he z (mem_free_of_get? hc hz)⟩

theorem Covers.insert (h : env.Covers f env') {c d : Scheme} (hcd : c.Covers f d) (x : String) :
    TyEnv.Covers (Bindings.insert env x c) f (Bindings.insert env' x d) := by
  intro y
  rw [Bindings.get?_insert, Bindings.get?_insert]
  by_cases hy : y = x
  · rw [if_pos hy, if_pos hy]
    exact .inr ⟨c, d, rfl, rfl, hcd⟩
  · rw [if_neg hy, if_neg hy]
    exact h y

theorem Covers.get? (h : env.Covers f env') {x : String} {d : Scheme}
    (hx : env'.get? x = some d) : ∃ c, env.get? x = some c ∧ c.Covers f d := by
  rcases h x with ⟨_, hn⟩ | ⟨c, d', hc, hd, hcd⟩
  · rw [hn] at hx
    cases hx
  · rw [hd] at hx
    obtain rfl := Option.some.inj hx
    exact ⟨c, hc, hcd⟩

theorem Covers.mem_free (h : env.Covers f env') {z w : String} (hz : z ∈ env.free)
    (hw : w ∈ (f z).free) : w ∈ env'.free := by
  obtain ⟨x, c, hx, hzc⟩ := TyEnv.mem_free.1 hz
  rcases h x with ⟨hn, _⟩ | ⟨c', d, hc, hd, hcd⟩
  · rw [hn] at hx
    cases hx
  · rw [hc] at hx
    obtain rfl := Option.some.inj hx
    exact mem_free_of_get? hd (hcd.free z hzc w hw)

/-- Generalising covers whatever a derivation generalises, instance by instance. -/
theorem Covers.generalize (h : env.Covers f env') (hf : ∀ x, (f x).IsPlain) {t : Ty}
    (ht : t.IsPlain) : (env.generalize t).Covers f (env'.generalize (t.bind f)) where
  instances u hu := by
    obtain ⟨k, hk, hkb, rfl⟩ := (Scheme.hasInstance_iff (ht.bind fun x _ => hf x)).1 hu
    refine ⟨fun x => (f x).bind k, fun x => (hf x).bind fun y _ => hk y, fun x hx => ?_,
      Ty.bind_bind f k t⟩
    refine Ty.bind_eq_self fun w hw => hkb w fun hb => ?_
    exact (mem_bound_generalize.1 hb).2 (h.mem_free (mem_free_generalize.1 hx).2 hw)
  free z hz w hw := by
    have hz' := mem_free_generalize.1 hz
    exact mem_free_generalize.2 ⟨(Ty.mem_free_bind ht).2 ⟨z, hz'.1, hw⟩, h.mem_free hz'.2 hw⟩

end TyEnv

/-- Change what is put in for one variable. -/
def Ty.update (f : String → Ty) (x : String) (t : Ty) (y : String) : Ty := if y = x then t else f y

theorem Ty.update_self (f : String → Ty) (x : String) (t : Ty) : update f x t x = t := if_pos rfl

theorem Ty.update_of_ne {f : String → Ty} {x y : String} {t : Ty} (h : y ≠ x) :
    update f x t y = f y := if_neg h

theorem Ty.update_isPlain {f : String → Ty} (hf : ∀ x, (f x).IsPlain) {t : Ty} (ht : t.IsPlain)
    (x y : String) : (update f x t y).IsPlain := by
  unfold update
  split
  · exact ht
  · exact hf y

theorem Scheme.exists_freshVars (xs : List String) (s : NameSupply) {f g : String → Ty}
    (hf : ∀ x, (f x).IsPlain) (hg : ∀ x, (g x).IsPlain) :
    ∃ k : String → Ty, (∀ x, (k x).IsPlain) ∧ (∀ z, ¬ s.Issues z → k z = f z) ∧
      ∀ e ∈ (freshVars xs s).1, e.2.bind k = g e.1 := by
  induction xs generalizing s f with
  | nil => exact ⟨f, hf, fun _ _ => rfl, fun e he => absurd he List.not_mem_nil⟩
  | cons x xs ih =>
    obtain ⟨k, hk, hkf, hkg⟩ := ih s.advance (Ty.update_isPlain hf (hg x) s.fresh.1)
    refine ⟨k, hk, fun z hz => ?_, fun e he => ?_⟩
    · rw [hkf z fun hi => hz (hi.of_reaches s.reaches_advance), Ty.update_of_ne]
      rintro rfl
      exact hz s.issues_fresh
    · rcases List.mem_cons.1 he with rfl | he
      · change k s.fresh.1 = g x
        rw [hkf _ s.not_issues_fresh, Ty.update_self]
      · exact hkg e he

theorem Scheme.Covers.exists_instantiate {c d : Scheme} {f : String → Ty} {t : Ty} {s : NameSupply}
    (h : c.Covers f d) (hc : c.body.IsPlain) (hf : ∀ x, (f x).IsPlain)
    (hn : ∀ z ∈ c.free, ¬ s.Issues z) (ht : d.HasInstance t) :
    ∃ k : String → Ty, (∀ x, (k x).IsPlain) ∧ (∀ z, ¬ s.Issues z → k z = f z) ∧
      t = (c.instantiate s).1.bind k := by
  obtain ⟨g, hg, hgf, rfl⟩ := h.instances t ht
  obtain ⟨k, hk, hkf, hkg⟩ := Scheme.exists_freshVars c.bound.names s hf hg
  refine ⟨k, hk, hkf, ?_⟩
  rw [instantiate, Ty.apply_eq_bind _ hc, Ty.bind_bind]
  refine Ty.bind_congr fun x hx => ?_
  by_cases hb : x ∈ c.bound
  · obtain ⟨u, hu⟩ := Subst.exists_get?_of_mem (mem_freshSubst (s := s).2 hb)
    rw [Subst.image_of_get? hu]
    exact (hkg (x, u) (Bindings.get?_eq_some_iff.1 hu)).symm
  · have hx' : x ∈ c.free := mem_free.2 ⟨hx, hb⟩
    rw [image_freshSubst_of_not_mem hb, Ty.bind_var, hgf x hx', hkf x (hn x hx')]

namespace Expr

open Infers TyEnv

/-- What has been solved so far, and a map for what is left that says what `f` says. -/
structure Refines (env : TyEnv) (s : NameSupply) (S : Subst) (s' : NameSupply)
    (f g : String → Ty) : Prop where
  reached : Reached env s S s'
  isPlain : ∀ x, (g x).IsPlain
  eq : ∀ x, ¬ s.Issues x → f x = S.andThen g x

namespace Refines

variable {env env' env₀ : TyEnv} {s s₁ s₂ : NameSupply} {S S' : Subst} {f g k : String → Ty}

theorem refl (env : TyEnv) (s : NameSupply) (hf : ∀ x, (f x).IsPlain) :
    Refines env s ∅ s f f :=
  ⟨reached_refl env s, hf, fun _ _ => rfl⟩

theorem not_issues (h : Refines env s S s₁ f g) {x z : String} (hx : ¬ s.Issues x)
    (hz : z ∈ (S.image x).free) : ¬ s₁.Issues z := by
  rcases Subst.mem_image hz with ⟨rfl, _⟩ | hr
  · exact fun hi => hx (hi.of_reaches h.reached.supply)
  · exact (h.reached.subst.range z hr).2

theorem infer (h : Refines env s S s₁ f g)
    (henv : ∀ z ∈ env'.free, InScope env s s₁ z ∧ z ∉ S)
    (h' : Refines env' s₁ S' s₂ g k) : Refines env s (Subst.compose S' S) s₂ f k where
  reached := h.reached.infer henv h'.reached
  isPlain := h'.isPlain
  eq x hx := by
    rw [h.eq x hx, Subst.andThen_compose h.reached.subst.isPlain]
    exact Ty.bind_congr fun z hz => h'.eq z (h.not_issues hx hz)

theorem unify (h : Refines env s S s₁ f g) {a b : Ty} {u : Ty.Unifier}
    (ha : a.Unsolved (InScope env s s₁) S) (hb : b.Unsolved (InScope env s s₁) S)
    (hu : Ty.Unifies a b u) (hg : a.bind g = b.bind g) :
    Refines env s (Subst.compose u.subst S) s₁ f g where
  reached := h.reached.unify ha hb hu
  isPlain := h.isPlain
  eq x hx := by
    rw [h.eq x hx, Subst.andThen_compose h.reached.subst.isPlain]
    exact Ty.bind_congr fun z _ => (hu.mostGeneral.factors g hg z).symm

/-- Draw a variable and choose what it stands for. -/
theorem fresh (h : Refines env s S s₁ f g) {t : Ty} (ht : t.IsPlain) :
    Refines env s S s₁.advance f (Ty.update g s₁.fresh.1 t) where
  reached := h.reached.advance
  isPlain := Ty.update_isPlain h.isPlain ht _
  eq x hx := by
    rw [h.eq x hx]
    refine Ty.bind_congr fun z hz => (Ty.update_of_ne ?_).symm
    rintro rfl
    exact h.not_issues hx hz s₁.issues_fresh

theorem covers (h : Refines env s S s₁ f g) (henv : env.Ready s) (hc : env.Covers f env₀) :
    TyEnv.Covers (env.apply S) g env₀ := by
  have hav := henv.avoids (fun _ => And.left) h.reached.subst
  have hc' := hc.congr fun x hx => h.eq x (henv.drawn x hx)
  intro x
  rw [apply_eq_bind henv.isPlain, get?_bind]
  rcases hc' x with ⟨hn, hn'⟩ | ⟨c, d, hx, hd, hcd⟩
  · exact .inl ⟨by rw [hn]; rfl, hn'⟩
  · refine .inr ⟨c.bind S.image, d, by rw [hx]; rfl, hd, ?_⟩
    exact hcd.bind (henv.isPlain x c hx) h.reached.subst.isPlain (hav x c hx) h.isPlain

theorem bind_apply (h' : Refines env' s₁ S' s₂ g k) {t : Ty} (ht : t.IsPlain)
    (hn : ∀ z ∈ t.free, ¬ s₁.Issues z) : (t.apply S').bind k = t.bind g := by
  rw [Ty.bind_apply ht]
  exact Ty.bind_congr fun z hz => (h'.eq z (hn z hz)).symm

/-- What the map says of a variable that a part may return stays what it is through the steps that
come after the part. -/
theorem andThen_infer (h : Refines env s S s₁ f g) (h' : Refines env' s₁ S' s₂ g k) {z : String}
    (hz : InScope env s s₁ z) : S.andThen g z = (Subst.compose S' S).andThen k z := by
  rw [Subst.andThen_compose h.reached.subst.isPlain]
  exact Ty.bind_congr fun w hw => h'.eq w (h.reached.subst.mem_image hz hw).1.2

theorem andThen_unify (h : Refines env s S s₁ f g) {a b : Ty} {u : Ty.Unifier}
    (hu : Ty.Unifies a b u) (hg : a.bind g = b.bind g) (z : String) :
    S.andThen g z = (Subst.compose u.subst S).andThen g z := by
  rw [Subst.andThen_compose h.reached.subst.isPlain]
  exact Ty.bind_congr fun w _ => (hu.mostGeneral.factors g hg w).symm

theorem andThen_fresh (h : Refines env s S s₁ f g) (t : Ty) {z : String}
    (hz : InScope env s s₁ z) : S.andThen g z = S.andThen (Ty.update g s₁.fresh.1 t) z := by
  refine Ty.bind_congr fun w hw => (Ty.update_of_ne ?_).symm
  rintro rfl
  exact (h.reached.subst.mem_image hz hw).1.2 s₁.issues_fresh

end Refines

/-- At every node of the second tree there is a type of variables in `L`, and the map takes it to
one that agrees with what the node of the first tree is marked with. -/
def Annotates (agrees : Mark → Ty → Prop) (φ : String → Ty) (L : String → Prop) (e e' : Expr) :
    Prop :=
  Alike (fun m m' => ∃ t, agrees m t ∧ MarkedUnder φ L m' t) Eq e e'

theorem under_eq {x u v : String} (h : u = v) : Under Eq x x u v := by
  by_cases hu : u = x
  · exact .inl ⟨hu, h.symm.trans hu⟩
  · exact .inr ⟨hu, fun hv => hu (h.trans hv), h⟩

namespace Annotates

variable {agrees : Mark → Ty → Prop} {φ φ' : String → Ty} {L L' : String → Prop} {e e' : Expr}
  {env env' : TyEnv} {s s₁ s₂ : NameSupply} {S S' : Subst} {f g k : String → Ty}

theorem under (h : Annotates agrees φ L e e') (x : String) :
    Alike (fun m m' => ∃ t, agrees m t ∧ MarkedUnder φ L m' t) (Under Eq x x) e e' :=
  Alike.mono h fun _ _ => under_eq

theorem mono (h : Annotates agrees φ L e e') (hφ : ∀ z, L z → φ z = φ' z)
    (hL : ∀ z, L z → L' z) : Annotates agrees φ' L' e e' := by
  refine h.monoMark ?_
  rintro m m' ⟨t, ht, u, hu, hp, hv, rfl⟩
  exact ⟨_, ht, u, hu, hp, fun z hz => hL z (hv z hz), Ty.bind_congr fun z hz => hφ z (hv z hz)⟩

theorem infer (h : Annotates agrees (S.andThen g) (InScope env s s₁) e e')
    (hR : Refines env s S s₁ f g) (hQ : Refines env' s₁ S' s₂ g k) :
    Annotates agrees ((Subst.compose S' S).andThen k) (InScope env s s₂) e e' :=
  h.mono (fun _ => hR.andThen_infer hQ) fun _ => .mono hQ.reached.supply

theorem part (h : Annotates agrees (S'.andThen k) (InScope env' s₁ s₂) e e')
    (hR : Refines env s S s₁ f g) (henv : ∀ z ∈ env'.free, InScope env s s₁ z ∧ z ∉ S) :
    Annotates agrees ((Subst.compose S' S).andThen k) (InScope env s s₂) e e' := by
  have hin : ∀ z, InScope env' s₁ s₂ z → InScope env s s₂ z ∧ z ∉ S :=
    hR.reached.inScope henv
  refine h.mono (fun z hz => ?_) fun z hz => (hin z hz).1
  rw [Subst.andThen_compose hR.reached.subst.isPlain, Subst.andThen_of_not_mem (hin z hz).2]

theorem unify (h : Annotates agrees (S.andThen g) (InScope env s s₁) e e')
    (hR : Refines env s S s₁ f g) {a b : Ty} {u : Ty.Unifier} (hu : Ty.Unifies a b u)
    (hg : a.bind g = b.bind g) :
    Annotates agrees ((Subst.compose u.subst S).andThen g) (InScope env s s₁) e e' :=
  h.mono (fun z _ => hR.andThen_unify hu hg z) fun _ => id

theorem fresh (h : Annotates agrees (S.andThen g) (InScope env s s₁) e e')
    (hR : Refines env s S s₁ f g) (t : Ty) :
    Annotates agrees (S.andThen (Ty.update g s₁.fresh.1 t)) (InScope env s s₁.advance) e e' :=
  h.mono (fun _ => hR.andThen_fresh t) fun _ => .mono s₁.reaches_advance

theorem substitute (h : Annotates agrees φ L e e') (hS : S.Within L)
    (hφ : ∀ z, (S.image z).bind φ = φ z) : Annotates agrees φ L e (e'.substitute S) := by
  have hm : Annotates agrees φ L (e.mapMark id) (e'.substitute S) := by
    refine Alike.mapMark h ?_
    rintro m m' ⟨t, ht, u, hu, hp, hv, rfl⟩
    refine ⟨_, ht, u.apply S, by rw [hu]; rfl, hp.apply hS.isPlain, hS.mem_apply hp hv, ?_⟩
    rw [Ty.bind_apply hp]
    exact Ty.bind_congr fun z _ => (hφ z).symm
  rwa [mapMark_id] at hm

end Annotates

/-- Inference finds the type, in every environment that covers that of the derivation: what it
returns can be refined to the type, and the tree of types to one that agrees with the marks. -/
def Finds (agrees : Mark → Ty → Prop) (env' : TyEnv) (e : Expr) (t : Ty) : Prop :=
  ∀ ⦃env : TyEnv⦄ ⦃s : NameSupply⦄ ⦃f : String → Ty⦄, env.Ready s → (∀ x, (f x).IsPlain) →
    env.Covers f env' → ∃ r s' g, Infers env e s r s' ∧ Refines env s r.subst s' f g ∧
      t = r.ty.bind g ∧ Annotates agrees (r.subst.andThen g) (InScope env s s') e r.tree

namespace Finds

variable {agrees : Mark → Ty → Prop} {env env' : TyEnv} {e : Expr} {a t : Ty} {x : String}
  {s s₁ : NameSupply} {S : Subst} {f g : String → Ty} {m : Mark}

/-- The variable that is drawn for a binder stands for the type that the derivation chose. -/
theorem own (h : Finds agrees (env'.insert x (.mono a)) e t) (ha : a.IsPlain) (henv : env.Ready s)
    (hf : ∀ x, (f x).IsPlain) (hc : env.Covers f env') :
    ∃ r s' g, Infers (env.insert x (.mono (.var s.fresh.1))) e s.advance r s' ∧
      Refines env s r.subst s' f g ∧ ((Ty.var s.fresh.1).apply r.subst).bind g = a ∧
      t = r.ty.bind g ∧ Annotates agrees (r.subst.andThen g) (InScope env s s') e r.tree := by
  have hin := (reached_refl env s).mem_free_insert_fresh henv.inScope x
  have hne : ∀ z ∈ env.free, f z = Ty.update f s.fresh.1 a z := fun z hz => by
    rw [Ty.update_of_ne]
    rintro rfl
    exact henv.drawn _ hz s.issues_fresh
  have h₀ := (Refines.refl env s hf).fresh ha
  have hcov := (hc.congr hne).insert (Scheme.covers_mono ha (Ty.update_self f _ a) h₀.isPlain) x
  obtain ⟨r, s', g, hr, hR, ht, htree⟩ := h (henv.insert_fresh x) h₀.isPlain hcov
  have hR' := h₀.infer hin hR
  have htree' := htree.part h₀ hin
  rw [Subst.compose_empty] at hR' htree'
  refine ⟨r, s', g, hr, hR', ?_, ht, htree'⟩
  rw [hR.bind_apply (t := .var s.fresh.1) trivial, Ty.bind_var, Ty.update_self]
  intro z hz
  rw [Ty.mem_free_var.1 hz]
  exact s.not_issues_fresh

theorem operand (h : Finds agrees env' e a) (ha : a.IsPlain) (hfree : ∀ z, z ∉ a.free)
    (henv : env.Ready s) (hf : ∀ x, (f x).IsPlain) (hc : env.Covers f env') :
    ∃ r s' u g, Infers env e s r s' ∧ Ty.unify r.ty a = .ok u ∧
      Refines env s (Subst.compose u.subst r.subst) s' f g ∧
      Annotates agrees ((Subst.compose u.subst r.subst).andThen g) (InScope env s s') e r.tree := by
  obtain ⟨r, s', g, hr, hR, ht, htree⟩ := h henv hf hc
  have hrt := (hr.returns henv.toUnissued).ty
  have heq : r.ty.bind g = a.bind g := by
    rw [← ht, Ty.bind_eq_self fun z hz => absurd hz (hfree z)]
  obtain ⟨u, hu⟩ := Ty.exists_unify hrt.isPlain ha heq
  have hun := Ty.unifies_of_unify hrt.isPlain ha hu
  have hat : a.Unsolved (InScope env s s') r.subst := ⟨ha, fun z hz => absurd hz (hfree z)⟩
  exact ⟨r, s', u, g, hr, hu, hR.unify hrt hat hun heq, htree.unify hR hun heq⟩

theorem body (h : Finds agrees (env'.insert x (env'.generalize (a.bind g))) e t)
    (hR : Refines env s S s₁ f g) (henv : env.Ready s) (hc : env.Covers f env')
    (ha : a.Unsolved (InScope env s s₁) S) :
    ∃ r s₂ k,
      Infers (Bindings.insert (env.apply S) x (TyEnv.generalize (env.apply S) a)) e s₁ r s₂ ∧
      Refines (Bindings.insert (env.apply S) x (TyEnv.generalize (env.apply S) a)) s₁ r.subst s₂
        g k ∧
      Refines env s (Subst.compose r.subst S) s₂ f k ∧ t = r.ty.bind k ∧
      Annotates agrees ((Subst.compose r.subst S).andThen k) (InScope env s s₂) e r.tree := by
  have hcov := hR.covers henv hc
  have hin := hR.reached.mem_free_generalize henv.toUnissued ha x
  obtain ⟨r, s₂, k, hr, hQ, ht, htree⟩ := h (hR.reached.ready_generalize henv ha x) hR.isPlain
    (hcov.insert (hcov.generalize hR.isPlain ha.isPlain) x)
  exact ⟨r, s₂, k, hr, hQ, hR.infer hin hQ, ht, htree.part hR hin⟩

/-! One step for each rule of the derivation. -/

theorem int (hm : agrees m .int) (n : Int) : Finds agrees env' (.int m n) .int := by
  intro env s f henv hf _
  have hi : Infers env (.int m n) s _ s := .int
  exact ⟨_, _, f, hi, .refl env s hf, rfl, .int ⟨_, hm, (hi.returns henv.toUnissued).marked m f⟩⟩

theorem bool (hm : agrees m .bool) (b : Bool) : Finds agrees env' (.bool m b) .bool := by
  intro env s f henv hf _
  have hi : Infers env (.bool m b) s _ s := .bool
  exact ⟨_, _, f, hi, .refl env s hf, rfl, .bool ⟨_, hm, (hi.returns henv.toUnissued).marked m f⟩⟩

theorem var {d : Scheme} (hm : agrees m t) (hx : env'.get? x = some d) (ht : d.HasInstance t) :
    Finds agrees env' (.var m x) t := by
  intro env s f henv hf hc
  obtain ⟨c, hcx, hcd⟩ := hc.get? hx
  have hn : ∀ z ∈ c.free, ¬ s.Issues z := fun z hz => henv.drawn z (mem_free_of_get? hcx hz)
  obtain ⟨g, hg, hgf, rfl⟩ := hcd.exists_instantiate (henv.isPlain _ c hcx) hf hn ht
  have hi := Infers.var (m := m) (s := s) hcx
  have hw := hi.returns henv.toUnissued
  exact ⟨_, _, g, hi, ⟨hw.reached, hg, fun x hx => (hgf x hx).symm⟩, rfl,
    .var ⟨_, hm, hw.marked m g⟩ rfl⟩

theorem lam (hm : agrees m (.fn a t)) (ha : a.IsPlain)
    (h : Finds agrees (env'.insert x (.mono a)) e t) :
    Finds agrees env' (.lam m x e) (.fn a t) := by
  intro env s f henv hf hc
  obtain ⟨r, s', g, hr, hR, hown, rfl, hb⟩ := h.own ha henv hf hc
  have hi := Infers.lam (m := m) hr rfl
  have hty : Ty.fn a (r.ty.bind g) = (Ty.fn ((Ty.var s.fresh.1).apply r.subst) r.ty).bind g := by
    rw [Ty.bind_fn, hown]
  rw [hty] at hm ⊢
  exact ⟨_, s', g, hi, hR, rfl, .lam ⟨_, hm, (hi.returns henv.toUnissued).marked m g⟩ (hb.under x)⟩

theorem app {e₀ e₁ : Expr} (hm : agrees m t) (hf : Finds agrees env' e₀ (.fn a t))
    (ha : Finds agrees env' e₁ a) : Finds agrees env' (.app m e₀ e₁) t := by
  intro env s f henv hplain hc
  obtain ⟨r, s₁, g, hr, hR, hfn, hcallee⟩ := hf henv hplain hc
  have hrr := hr.returns henv.toUnissued
  have hin := hR.reached.mem_free_apply henv.toUnissued
  have hready := hR.reached.ready henv
  obtain ⟨q, s₂, k, hq, hQ, rfl, harg⟩ := ha hready hR.isPlain (hR.covers henv hc)
  have hqr := hq.returns hready.toUnissued
  have hRQ := hR.infer hin hQ
  have hrt := hrr.reached.keep hin hqr hrr.ty
  have hqt := hqr.ty.later (hrr.reached.inScope hin)
  have ht : t.IsPlain := by
    have hp : (r.ty.bind g).IsPlain := hrr.ty.isPlain.bind fun x _ => hR.isPlain x
    rw [← hfn] at hp
    exact hp.2
  have hlast := hRQ.fresh ht
  have hne : ∀ {v : Ty}, v.Unsolved (InScope env s s₂) (Subst.compose q.subst r.subst) →
      v.bind (Ty.update k s₂.fresh.1 t) = v.bind k := fun hv => by
    refine Ty.bind_congr fun z hz => Ty.update_of_ne ?_
    rintro rfl
    exact (hv.free _ hz).1.2 s₂.issues_fresh
  have heq : (r.ty.apply q.subst).bind (Ty.update k s₂.fresh.1 t)
      = (Ty.fn q.ty (.var s₂.fresh.1)).bind (Ty.update k s₂.fresh.1 t) := by
    rw [hne hrt, hQ.bind_apply hrr.ty.isPlain fun z hz => (hrr.ty.free z hz).1.2, ← hfn,
      Ty.bind_fn, hne hqt, Ty.bind_var, Ty.update_self]
  have hrt' := hrt.mono fun _ => InScope.mono s₂.reaches_advance
  have hfn' := (hqt.mono fun _ => InScope.mono s₂.reaches_advance).fn hRQ.reached.fresh
  obtain ⟨u, hu⟩ := Ty.exists_unify hrt'.isPlain hfn'.isPlain heq
  have hu' := Ty.unifies_of_unify hrt'.isPlain hfn'.isPlain hu
  have hi := Infers.app (m := m) hr hq hu rfl
  have hty : ((Ty.var s₂.fresh.1).apply u.subst).bind (Ty.update k s₂.fresh.1 t) = t := by
    change (u.subst.image s₂.fresh.1).bind _ = t
    rw [hu'.mostGeneral.factors _ heq, Ty.update_self]
  have hm' := (hi.returns henv.toUnissued).marked m (Ty.update k s₂.fresh.1 t)
  rw [hty] at hm'
  exact ⟨_, _, _, hi, hlast.unify hrt' hfn' hu' heq, hty.symm, .app ⟨t, hm, hm'⟩
    (((hcallee.infer hR hQ).fresh hRQ t).unify hlast hu' heq)
    (((harg.part hR hin).fresh hRQ t).unify hlast hu' heq)⟩

theorem letIn {v : Expr} (hm : agrees m t) (hv : Finds agrees env' v a)
    (hb : Finds agrees (env'.insert x (env'.generalize a)) e t) :
    Finds agrees env' (.letIn m x v e) t := by
  intro env s f henv hf hc
  obtain ⟨r, s₁, g, hr, hR, rfl, hvalue⟩ := hv henv hf hc
  have hrr := hr.returns henv.toUnissued
  obtain ⟨q, s₂, k, hq, hQ, hRQ, rfl, hbody⟩ := hb.body hR henv hc hrr.ty
  have hi := Infers.letIn (m := m) hr rfl (by rwa [hrr.ty.apply_eq])
  exact ⟨_, s₂, k, hi, hRQ, rfl, .letIn ⟨_, hm, (hi.returns henv.toUnissued).marked m k⟩
    (hvalue.infer hR hQ) (hbody.under x)⟩

/-- As for a `let`, after the type of the value has been made that of its own name. The types in the
value are completed with what that solves, which changes nothing under the map. -/
theorem letRec {v : Expr} (hm : agrees m t) (ha : a.IsPlain)
    (hv : Finds agrees (env'.insert x (.mono a)) v a)
    (hb : Finds agrees (env'.insert x (env'.generalize a)) e t) :
    Finds agrees env' (.letRec m x v e) t := by
  intro env s f henv hf hc
  obtain ⟨r, s₁, g, hr, hR, hself, hval, hvalue⟩ := hv.own ha henv hf hc
  obtain ⟨_, hvt, hown⟩ := (hr.returns (henv.insert_fresh x).toUnissued).own henv.toUnissued
  have heq : r.ty.bind g = ((Ty.var s.fresh.1).apply r.subst).bind g := hval.symm.trans hself.symm
  obtain ⟨u, hu⟩ := Ty.exists_unify hvt.isPlain hown.isPlain heq
  have hu' := Ty.unifies_of_unify hvt.isPlain hown.isPlain hu
  have hU := hR.unify hvt hown hu' heq
  have hut := (hu'.unsolved hvt.isPlain).later (hvt.mem_vars hown)
  obtain rfl : u.type.bind g = a := (hu'.bind_type_eq heq).trans hval.symm
  obtain ⟨q, s₂, k, hq, hQ, hUQ, rfl, hbody⟩ := hb.body hU henv hc hut
  have hi := Infers.letRec (m := m) hr hu rfl rfl hq
  have hwithin := hu'.within (fun z hz => (hvt.free z hz).1) fun z hz => (hown.free z hz).1
  have htree := (hvalue.unify hR hu' heq).substitute hwithin
    (image_bind_unifier hu'.solvesIn (k := g) fun z hz => by
      rw [Subst.andThen_compose hR.reached.subst.isPlain,
        Subst.andThen_of_not_mem (hvt.mem_vars hown z hz).2])
  exact ⟨_, s₂, k, hi, hUQ, rfl, .letRec ⟨_, hm, (hi.returns henv.toUnissued).marked m k⟩
    ((htree.infer hU hQ).under x) (hbody.under x)⟩

theorem binary {op : Operator} {l r : Expr} (hm : agrees m op.resultTy)
    (hl : Finds agrees env' l .int) (hr : Finds agrees env' r .int) :
    Finds agrees env' (.binary m op l r) op.resultTy := by
  intro env s f henv hf hc
  obtain ⟨p, s₁, u, g, hp, hu, hU, hleft⟩ :=
    hl.operand Ty.isPlain_int Ty.not_mem_free_int henv hf hc
  have hready := hU.reached.ready henv
  have hin := hU.reached.mem_free_apply henv.toUnissued
  obtain ⟨q, s₂, k, hq, hQ, hint, hright⟩ := hr hready hU.isPlain (hU.covers henv hc)
  have hqt := (hq.returns hready.toUnissued).ty.later (hU.reached.inScope hin)
  obtain ⟨w, hw⟩ := Ty.exists_unify hqt.isPlain Ty.isPlain_int (f := k) hint.symm
  have hw' := Ty.unifies_of_unify hqt.isPlain Ty.isPlain_int hw
  have hi : Infers env (.binary m op l r) s _ s₂ := .binary hp hu rfl hq hw
  have hty : op.resultTy.bind k = op.resultTy := by cases op <;> rfl
  have hm' := (hi.returns henv.toUnissued).marked m k
  rw [hty] at hm'
  have hlast := hU.infer hin hQ
  exact ⟨_, s₂, k, hi, hlast.unify hqt .int hw' hint.symm, hty.symm, .binary ⟨_, hm, hm'⟩
    ((hleft.infer hU hQ).unify hlast hw' hint.symm)
    ((hright.part hU hin).unify hlast hw' hint.symm)⟩

theorem cond {c y n : Expr} (hm : agrees m t) (hcond : Finds agrees env' c .bool)
    (hyes : Finds agrees env' y t) (hno : Finds agrees env' n t) :
    Finds agrees env' (.cond m c y n) t := by
  intro env s f henv hf hc
  obtain ⟨p, s₁, u, g, hp, hu, hU, htest⟩ :=
    hcond.operand Ty.isPlain_bool Ty.not_mem_free_bool henv hf hc
  have hready := hU.reached.ready henv
  have hin := hU.reached.mem_free_apply henv.toUnissued
  obtain ⟨q, s₂, k, hq, hQ, hqe, hytree⟩ := hyes hready hU.isPlain (hU.covers henv hc)
  have hqt := (hq.returns hready.toUnissued).ty.later (hU.reached.inScope hin)
  have hUQ := hU.infer hin hQ
  have hready' := hUQ.reached.ready henv
  have hin' := hUQ.reached.mem_free_apply henv.toUnissued
  obtain ⟨r, s₃, j, hr, hR, hre, hntree⟩ := hno hready' hUQ.isPlain (hUQ.covers henv hc)
  have hrr := hr.returns hready'.toUnissued
  have hqt' := hUQ.reached.keep hin' hrr hqt
  have hrt := hrr.ty.later (hUQ.reached.inScope hin')
  have heq : (q.ty.apply r.subst).bind j = r.ty.bind j := by
    rw [hR.bind_apply hqt.isPlain fun z hz => (hqt.free z hz).1.2, ← hqe, ← hre]
  obtain ⟨w, hw⟩ := Ty.exists_unify hqt'.isPlain hrt.isPlain heq
  have hw' := Ty.unifies_of_unify hqt'.isPlain hrt.isPlain hw
  have hi := Infers.cond (m := m) hp hu rfl hq hr hw
  have hty : w.type.bind j = t := ((hw'.bind_type_eq heq).trans heq).trans hre.symm
  have hm' := (hi.returns henv.toUnissued).marked m j
  rw [hty] at hm'
  have hlast := hUQ.infer hin' hR
  exact ⟨_, s₃, j, hi, hlast.unify hqt' hrt hw' heq, hty.symm, .cond ⟨t, hm, hm'⟩
    (((htest.infer hU hQ).infer hUQ hR).unify hlast hw' heq)
    (((hytree.part hU hin).infer hUQ hR).unify hlast hw' heq)
    ((hntree.part hUQ hin').unify hlast hw' heq)⟩

end Finds

/-- Wherever a derivation leads, inference finds a type that can be refined to it, and a tree of
types that can be refined to those of the derivation. -/
theorem Derives.infers {agrees : Mark → Ty → Prop} {env' : TyEnv} {e : Expr} {t : Ty}
    (h : Derives agrees env' e t) : Finds agrees env' e t := by
  induction h with
  | int hm => exact .int hm _
  | bool hm => exact .bool hm _
  | var hm hx ht => exact .var hm hx ht
  | lam hm ha _ ih => exact .lam hm ha ih
  | app hm _ _ ihf iha => exact .app hm ihf iha
  | letIn hm _ _ ihv ihb => exact .letIn hm ihv ihb
  | letRec hm ha _ _ ihv ihb => exact .letRec hm ha ihv ihb
  | binary hm _ _ ihl ihr => exact .binary hm ihl ihr
  | cond hm _ _ _ ihc ihy ihn => exact .cond hm ihc ihy ihn

end Expr
end LetLower
