import LetLower.Infer.Calls
import LetLower.Proofs.Ty.Alpha

/-!
# No update of an environment captures a variable

What a call solves speaks of the free variables of its environment and of variables that it has
drawn. Neither kind is bound by an open scheme of the environment, because a generalised variable is
not free in the environment any more and is never returned again. A closed scheme may bind a name
that is drawn, but has no free variable for it to be put under. The invariant passes from a call to
those that it makes.
-/

namespace LetLower

open Pass

/-- The environment takes a substitution in, and no variable is captured. -/
structure TyEnv.Takes (env : TyEnv) (S : Subst) : Prop where
  apart : ∀ x c, env.get? x = some c →
    ∀ v ∈ c.free, ∀ z ∈ ((Ty.var v).apply S).free, z ∉ c.bound
  substituted : ∀ x c, env.get? x = some c → ∀ d, c.Substituted S d ↔ (c.apply S).AlphaEq d
  free : ∀ z, z ∈ (env.apply S).free ↔ ∃ v ∈ env.free, z ∈ ((Ty.var v).apply S).free

theorem TyEnv.Avoids.takes {env : TyEnv} {S : Subst} (h : env.Avoids S.image)
    (henv : env.IsPlain) (hS : S.IsPlain) : env.Takes S where
  apart := h
  substituted x c hx _ := Scheme.substituted_iff (henv x c hx) hS (h x c hx)
  free z := by
    rw [apply_eq_bind henv]
    exact mem_free_bind henv h

namespace Expr

variable {answer : Expr → Inference} {update : Subst → TyEnv → TyEnv} {e : Expr}
  {env : TyEnv} {s : PassState}

/-- The answers to the listed calls and the listed updates are all that matters. -/
theorem inferStep_eq
    (h : ∀ c, InferCall.Makes ⟨e, env, s⟩ c → answer c.tree c.env c.state = c.run)
    (hu : ∀ S t, InferCall.Updates ⟨e, env, s⟩ S t → update S env = env.apply S) :
    e.inferStep answer update env s = e.inferIn env s := by
  rw [inferIn_eq_inferStep]
  cases e with
  | int | bool | var | bare => rfl
  | lam m x b =>
    refine bind_congr_ok rfl fun a s₁ ha => ?_
    exact bind_congr_ok (h _ (.lam ha)) fun _ _ _ => rfl
  | app m f a =>
    refine bind_congr_ok (h _ .callee) fun r s₁ hf => ?_
    rw [hu _ _ (.app hf)]
    exact bind_congr_ok (h _ (.argument hf)) fun _ _ _ => rfl
  | letIn m x v b =>
    refine bind_congr_ok (h _ .value) fun r s₁ hv => ?_
    rw [hu _ _ (.letIn hv)]
    refine bind_congr_ok rfl fun c s₂ hc => bind_congr_ok rfl fun _ s₃ hn => ?_
    exact bind_congr_ok (h _ (.body hv hc hn)) fun _ _ _ => rfl
  | letRec m x v b =>
    refine bind_congr_ok rfl fun own s₁ ho => ?_
    refine bind_congr_ok (h _ (.recValue ho)) fun r s₂ hv => ?_
    refine bind_congr_ok rfl fun u s₃ hs₃ => bind_congr_ok rfl fun found s₄ hs₄ => ?_
    rw [hu _ _ (.letRec ho hv hs₃ hs₄)]
    refine bind_congr_ok rfl fun c s₅ hc => bind_congr_ok rfl fun _ s₆ hn => ?_
    exact bind_congr_ok (h _ (.recBody ho hv hs₃ hs₄ hc hn)) fun _ _ _ => rfl
  | binary m op l r =>
    refine bind_congr_ok (h _ .left) fun p s₁ hl => ?_
    refine bind_congr_ok rfl fun u s₂ hs₂ => bind_congr_ok rfl fun found s₃ hs₃ => ?_
    rw [hu _ _ (.right hl hs₂ hs₃)]
    exact bind_congr_ok (h _ (.right hl hs₂ hs₃)) fun _ _ _ => rfl
  | cond m c t e =>
    refine bind_congr_ok (h _ .condition) fun p s₁ hc => ?_
    refine bind_congr_ok rfl fun u s₂ hs₂ => bind_congr_ok rfl fun found s₃ hs₃ => ?_
    rw [hu _ _ (.yes hc hs₂ hs₃)]
    refine bind_congr_ok (h _ (.yes hc hs₂ hs₃)) fun q s₄ hy => ?_
    refine bind_congr_ok rfl fun found' s₅ hs₅ => ?_
    rw [hu _ _ (.no hc hs₂ hs₃ hy hs₅)]
    exact bind_congr_ok (h _ (.no hc hs₂ hs₃ hy hs₅)) fun _ _ _ => rfl

theorem reached_of_unify (henv : env.Unissued s.names) {p : Inferred} {t : Ty}
    {loc : Option Location} {u : Ty.Unifier} {S : Subst} {s₁ s₂ s₃ : PassState}
    (hp : e.inferIn env s = .ok p s₁) (ht : t.Unsolved (InScope env s.names s₁.names) p.subst)
    (hu : unify p.ty t loc s₁ = .ok u s₂) (hs : compose u.subst p.subst s₂ = .ok S s₃) :
    Reached env s.names S s₃.names := by
  have hr := (infers_of_inferIn hp).returns henv
  obtain ⟨hu, hs₂⟩ := unify_ok hu
  obtain ⟨rfl, hs₃⟩ := compose_ok hs
  rw [hs₃, hs₂]
  exact hr.unify ht hu

theorem reached_of_own (henv : env.Unissued s.names) {x : String} {own : Ty} {r : Inferred}
    {loc : Option Location} {u : Ty.Unifier} {S : Subst} {s₁ s₂ s₃ s₄ : PassState}
    (ho : freshVar s = .ok own s₁) (hr : e.inferIn (env.insert x (.mono own)) s₁ = .ok r s₂)
    (hu : unify r.ty (own.apply r.subst) loc s₂ = .ok u s₃)
    (hs : compose u.subst r.subst s₃ = .ok S s₄) :
    Reached env s.names S s₄.names ∧ u.type.Unsolved (InScope env s.names s₄.names) S := by
  obtain ⟨rfl, hs₁⟩ := freshVar_ok ho
  obtain ⟨hu, hs₃⟩ := unify_ok hu
  obtain ⟨rfl, hs₄⟩ := compose_ok hs
  have hi := infers_of_inferIn hr
  rw [hs₁] at hi
  rw [hs₄, hs₃]
  exact (hi.returns (henv.insert_fresh x)).own_unify henv hu

end Expr

namespace InferCall

open LetLower.Expr

variable {c c' : InferCall} {S : Subst} {s : PassState}

theorem Updates.reached (h : c.Updates S s) (henv : c.env.Unissued c.state.names) :
    Reached c.env c.state.names S s.names := by
  cases h with
  | app hf => exact ((infers_of_inferIn hf).returns henv).reached
  | letIn hv => exact ((infers_of_inferIn hv).returns henv).reached
  | letRec ho hv hu hs => exact (reached_of_own henv ho hv hu hs).1
  | right hl hu hs => exact reached_of_unify henv hl .int hu hs
  | yes hc hu hs => exact reached_of_unify henv hc .bool hu hs
  | no hc hu hs hy hs' =>
    have h₁ := reached_of_unify henv hc .bool hu hs
    have hq := (infers_of_inferIn hy).returns (h₁.unissued henv)
    obtain ⟨rfl, hs₅⟩ := compose_ok hs'
    rw [hs₅]
    exact h₁.infer (h₁.mem_free_apply henv) hq.reached

theorem Updates.takes (h : c.Updates S s) (henv : c.env.Ready c.state.names) : c.env.Takes S :=
  have hS := (h.reached henv.toUnissued).subst
  (henv.avoids (fun _ hz => hz.1) hS).takes henv.isPlain hS.isPlain

theorem Updates.ready (h : c.Updates S s) (henv : c.env.Ready c.state.names) :
    TyEnv.Ready (c.env.apply S) s.names :=
  (h.reached henv.toUnissued).ready henv

theorem Makes.ready (h : c.Makes c') (henv : c.env.Ready c.state.names) :
    c'.env.Ready c'.state.names := by
  cases h with
  | callee | value | left | condition => exact henv
  | lam ha | recValue ha =>
    obtain ⟨rfl, hs₁⟩ := freshVar_ok ha
    rw [hs₁]
    exact henv.insert_fresh _
  | argument hf => exact Updates.ready (.app hf) henv
  | body hv hc hn =>
    obtain ⟨rfl, hs₂⟩ := generalize_ok hc
    have hr := (infers_of_inferIn hv).returns henv.toUnissued
    rw [names_of_note hn, hs₂, hr.ty.apply_eq]
    exact hr.reached.ready_generalize henv hr.ty _
  | recBody ho hv hu hs hc hn =>
    obtain ⟨rfl, hs₅⟩ := generalize_ok hc
    obtain ⟨hfound, ht⟩ := reached_of_own henv.toUnissued ho hv hu hs
    rw [names_of_note hn, hs₅]
    exact hfound.ready_generalize henv ht _
  | right hl hu hs => exact Updates.ready (.right hl hu hs) henv
  | yes hc hu hs => exact Updates.ready (.yes hc hu hs) henv
  | no hc hu hs hy hs' => exact Updates.ready (.no hc hu hs hy hs') henv

theorem Reaches.ready (h : c.Reaches c') (henv : c.env.Ready c.state.names) :
    c'.env.Ready c'.state.names := by
  induction h with
  | refl => exact henv
  | tail _ h ih => exact h.ready ih

end InferCall

namespace Expr

/-- In a run from a closed environment every environment takes what is put into it, and a call puts
nothing into its environment but what is listed. -/
theorem inferIn_captureFree {env : TyEnv} (henv : env.IsClosed) (e : Expr) (names : NameSupply) :
    ∀ c, (InferCall.first e env names).Reaches c →
      (∀ S s, c.Updates S s → c.env.Takes S) ∧
      ∀ answer update, (∀ c', c.Makes c' → answer c'.tree c'.env c'.state = c'.run) →
        (∀ S s, c.Updates S s → update S c.env = c.env.apply S) →
        c.runWith answer update = c.run := by
  intro c hc
  have hready := hc.ready (henv.ready names)
  exact ⟨fun S s hS => hS.takes hready, fun answer update => inferStep_eq⟩

/-- The name that `id` binds is drawn for `g`, and a type in which `t2` is free replaces it. That
goes into the scheme of `f`, which binds `t1`, and leaves the scheme of `id` alone. -/
theorem inferIn_captureFree_beside_drawn :
    let env : TyEnv := .single "id" ⟨.single "t0", .fn (.var "t0") (.var "t0")⟩
    let g : Expr := .app {} (.var {} "g") (.int {} 1)
    let body : Expr := .app {} g (.app {} (.var {} "f") (.int {} 2))
    let e : Expr := .lam {} "g" (.letIn {} "f" (.lam {} "y" (.var {} "g")) body)
    let S : Subst := .single "t0" (.fn .int (.var "t2"))
    env.IsClosed ∧
      ∃ env' s s', (InferCall.first e env {}).Reaches ⟨body, env', s⟩ ∧
        InferCall.Updates ⟨body, env', s⟩ S s' ∧ env'.get? "id" = env.get? "id" ∧
        env'.get? "f" = some ⟨.single "t1", .fn (.var "t1") (.var "t0")⟩ ∧
        (env'.apply S).get? "f" =
          some ⟨.single "t1", .fn (.var "t1") (.fn .int (.var "t2"))⟩ ∧
        (env'.apply S).get? "id" = env.get? "id" ∧ env'.Takes S := by
  intro env g body e S
  have henv : env.IsClosed := TyEnv.isClosed_single (by decide) (by decide)
  obtain ⟨env', s, hc, ⟨r, s', hg, hS⟩, hid, hf, hf', hid'⟩ :
      ∃ env' s, (InferCall.first e env {}).Reaches ⟨body, env', s⟩ ∧
        (∃ r s', g.inferIn env' s = .ok r s' ∧ r.subst = S) ∧ env'.get? "id" = env.get? "id" ∧
        env'.get? "f" = some ⟨.single "t1", .fn (.var "t1") (.var "t0")⟩ ∧
        (env'.apply S).get? "f" =
          some ⟨.single "t1", .fn (.var "t1") (.fn .int (.var "t2"))⟩ ∧
        (env'.apply S).get? "id" = env.get? "id" :=
    ⟨_, _, .tail (.single (.lam rfl)) (.body rfl rfl rfl), ⟨_, _, by subst g; cbv, rfl⟩, rfl, rfl,
      rfl, rfl⟩
  have hS : InferCall.Updates ⟨body, env', s⟩ S s' := hS ▸ .app hg
  have htakes := (inferIn_captureFree henv e {} _ hc).1 S s' hS
  exact ⟨henv, env', s, s', hc, hS, hid, hf, hf', hid', htakes⟩

end Expr
end LetLower
