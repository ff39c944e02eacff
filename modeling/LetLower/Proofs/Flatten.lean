import LetLower.Compile
import LetLower.Proofs.Agree
import LetLower.Proofs.Builtins
import LetLower.Proofs.Infer.Complete
import LetLower.Proofs.Inline.Normal
import LetLower.Proofs.Inline.Typing
import LetLower.Proofs.Inline.Termination

/-!
# The stages of flattening

A run of inference is determined by the supply that it starts from, and the tree that it returns is
inlined within some depth. So what flattening does can be told stage by stage.
-/

namespace LetLower

open LetLower.Expr Pass

namespace Pass

variable {α : Type} {x : Pass α} {s t t' : NameSupply} {a b : α}

theorem Gives.unique (h : x.Gives s a t) (h' : x.Returns s b t') : b = a ∧ t' = t := by
  obtain ⟨log, _, h'⟩ := h'
  obtain ⟨_, h⟩ := h log
  cases h.symm.trans h'
  exact ⟨rfl, rfl⟩

theorem Gives.returns (h : x.Gives s a t) : x.Returns s a t :=
  have ⟨log, h⟩ := h []
  ⟨[], log, h⟩

end Pass

namespace Expr

variable {env : TyEnv} {e t d : Expr} {r r' : Inferred} {s s' t' : NameSupply}

theorem infers_of_returns_inferTypes (h : (e.inferTypes env).Returns s t s') :
    ∃ r, Infers env e s r s' ∧ t = r.completed := by
  obtain ⟨log, log', h⟩ := h
  exact infers_of_inferTypes h

theorem Infers.unique (h : Infers env e s r s') (h' : Infers env e s r' t') : r' = r ∧ t' = s' :=
  h.gives.unique h'.gives.returns

theorem Infers.exists_ends (h : Infers env e s r s') (he : e.HasPlainNames) (henv : env.IsClosed) :
    ∃ d t, Ends ∅ r.completed s' d t := by
  have hd := h.isDerivation henv
  have hr : Runs ∅ r.completed s' (fun _ => .atom) (fun _ => .atom) :=
    ⟨.empty s', .empty, (he.congr h.untyped_completed).not_marks s', hd.isAnnotated,
      .of_not_mem fun z _ => Bindings.not_mem_empty z⟩
  exact hr.exists_ends (hd.hasType.normalizes fun x c hx => (henv x c hx).2)

/-- What an expression is marked with before plays no part in inference. -/
theorem Infers.untyped (h : Infers env e s r s') : Infers env e.untyped s r s' := by
  induction h with
  | int => exact .int
  | bool => exact .bool
  | var hx => exact .var hx
  | lam _ ht ih => exact .lam ih ht
  | app _ _ hu ht ihf iha => exact .app ihf iha hu ht
  | letIn _ hc _ ihv ihb => exact .letIn ihv hc ihb
  | letRec _ hu hs hc _ ihv ihb => exact .letRec ihv hu hs hc ihb
  | binary _ hu hs _ hu' ihl ihr => exact .binary ihl hu hs ihr hu'
  | cond _ hu hs _ _ hu' ihc ihy ihn => exact .cond ihc hu hs ihy ihn hu'

/-- The trees that flattening hands on: with types, inlined, and with types again. -/
structure Flattens (env : TyEnv) (e typed d flat : Expr) : Prop where
  inferred : ∃ s r s', Infers env e s r s' ∧ typed = r.completed
  inlined : Inlines ∅ typed d
  again : ∃ s r s', Infers env d.strip s r s' ∧ flat = r.completed

namespace Flattens

variable {typed flat : Expr}

theorem exists_isDerivation (h : Flattens env e typed d flat) (henv : env.IsClosed) :
    ∃ a, typed.IsDerivation env a := by
  obtain ⟨s, r, s', hr, rfl⟩ := h.inferred
  exact ⟨_, hr.isDerivation henv⟩

theorem typed_untyped (h : Flattens env e typed d flat) : typed.untyped = e.untyped := by
  obtain ⟨_, r, _, hr, rfl⟩ := h.inferred
  exact hr.untyped_completed

theorem flat_untyped (h : Flattens env e typed d flat) : flat.untyped = d.untyped := by
  obtain ⟨_, r, _, hr, rfl⟩ := h.again
  exact hr.untyped_completed.trans (untyped_strip d)

theorem finished (h : Flattens env e typed d flat) : d.Everywhere IsFinished := by
  obtain ⟨_, r, _, hr, rfl⟩ := h.inferred
  exact h.inlined.finished InlineEnv.everywhere_empty InlineEnv.everywhere_empty
    hr.marksFunction_completed

/-- Inlining has left nothing to do. -/
theorem settled (h : Flattens env e typed d flat) : d.Everywhere IsSettled :=
  h.finished.imp fun _ hs => hs.settled

/-- The types that are found again are at every node at least as general as some type that the node
can have, and that type is an instance of the one found first. -/
theorem annotates (h : Flattens env e typed d flat) (henv : env.IsClosed) :
    ∃ a b φ L, typed.IsDerivation env a ∧ flat.IsDerivation env b ∧ a = b.bind φ ∧
      Annotates Fits φ L d flat := by
  obtain ⟨a, ha⟩ := h.exists_isDerivation henv
  obtain ⟨s, q, s', hq, rfl⟩ := h.again
  have hplain : env.IsPlain := fun x c hx => (henv x c hx).2
  have hfits : Derives Fits env typed a :=
    Derives.mono (fun m t hm => ⟨t, hm, .var, (Ty.bind_var_self t).symm⟩) ha
  have hd := h.inlined.keepsTypes stable_fits hplain hplain
    (.of_not_mem fun z _ => Bindings.not_mem_empty z) hfits
  obtain ⟨r, t', g, hr, hR, hty, htree⟩ := hd.infers (henv.ready s) Ty.isPlain_var
    (henv.covers .var)
  have hannotated := h.inlined.isAnnotated .empty ha.isAnnotated
  rw [strip_of_isAnnotated hannotated] at hq
  obtain ⟨rfl, rfl⟩ := hr.untyped.unique hq
  have hret := hr.returns (henv.ready s).toUnissued
  refine ⟨a, q.ty, q.subst.andThen g, InScope env s s', ha, hq.isDerivation henv, ?_, ?_⟩
  · rw [hty, hret.bind_ty]
  · refine htree.substitute (hret.reached.subst.within fun _ => id) ?_
    exact image_bind_unifier hret.reached.subst (k := g) fun _ _ => rfl

end Flattens

end Expr

section

variable {c : Config} {env : TyEnv} {e flat : Expr} {names : NameSupply} {depth : Nat}

theorem flatten_returns {o : Options} {st st' : PassState} (h : o.flatten e st = .ok flat st') :
    ∃ env typed d s₀ s₁ s₂, o.config.validate = .ok () ∧
      o.environment.Returns st.names env s₀ ∧ (e.inferTypes env).Returns s₀ typed s₁ ∧
      (inlineIn o.depth typed ∅).Returns s₁ d s₂ ∧
      (d.strip.inferTypes env).Returns s₂ flat st'.names := by
  obtain ⟨_, _, hv, h⟩ := bind_ok.1 h
  obtain ⟨hvalid, rfl⟩ := orFailure_ok.1 hv
  obtain ⟨env, st₀, henv, h⟩ := bind_ok.1 h
  obtain ⟨typed, st₁, htyped, h⟩ := bind_ok.1 h
  obtain ⟨_, _, ha, h⟩ := bind_ok.1 h
  obtain ⟨_, rfl⟩ := orFault_ok.1 ha
  obtain ⟨_, _, ht, h⟩ := bind_ok.1 h
  obtain ⟨_, rfl⟩ := orFault_ok.1 ht
  obtain ⟨_, _, hn, h⟩ := bind_ok.1 h
  obtain ⟨_, st₂, hn', h⟩ := bind_ok.1 h
  obtain ⟨d, st₃, hd, h⟩ := bind_ok.1 h
  obtain ⟨_, st₄, hn'', hflat⟩ := bind_ok.1 h
  have hs : st₂.names = st₁.names := (names_of_note hn').trans (names_of_note hn)
  refine ⟨env, typed, d, st₀.names, st₁.names, st₃.names, hvalid, ⟨_, _, henv⟩, ⟨_, _, htyped⟩,
    ⟨st₂.log, st₃.log, ?_⟩, ⟨st₄.log, st'.log, ?_⟩⟩
  · rw [← hs]
    exact hd
  · rw [← names_of_note hn'']
    exact hflat

theorem flattens_of_ok {st st' : PassState} (he : e.HasPlainNames)
    (h : ({ config := c, depth } : Options).flatten e st = .ok flat st') :
    ∃ env typed d s s', c.environment = .ok env ∧ env.IsBuiltin ∧
      (e.inferTypes env).Returns st.names typed s ∧ (inlineIn depth typed ∅).Returns s d s' ∧
      Flattens env e typed d flat := by
  obtain ⟨env, typed, d, _, s₁, s₂, hvalid, ⟨_, _, he'⟩, htyped, hd, hflat⟩ := flatten_returns h
  obtain ⟨henv, hst⟩ := orFault_ok.1 he'
  cases hst
  obtain ⟨env', henv', hbuiltin⟩ := Config.exists_environment hvalid
  obtain rfl : env' = env := Except.ok.inj (henv'.symm.trans henv)
  refine ⟨env', typed, d, s₁, s₂, henv, hbuiltin, htyped, hd, ?_⟩
  obtain ⟨r, hr, rfl⟩ := infers_of_returns_inferTypes htyped
  obtain ⟨q, hq, rfl⟩ := infers_of_returns_inferTypes hflat
  obtain ⟨_, _, hd⟩ := hd
  have hplain : r.completed.HasPlainNames := he.congr hr.untyped_completed
  exact ⟨⟨_, _, _, hr, rfl⟩, (inlines_of_inlineIn hd ⟨.empty _, hplain.not_marks _⟩).rules,
    ⟨_, _, _, hq, rfl⟩⟩

theorem flattens_of_run (he : e.HasPlainNames)
    (h : ((({ config := c, depth } : Options).flatten e).run names).1 = .ok flat) :
    ∃ env typed d s s', c.environment = .ok env ∧ env.IsBuiltin ∧
      (e.inferTypes env).Returns names typed s ∧ (inlineIn depth typed ∅).Returns s d s' ∧
      Flattens env e typed d flat := by
  obtain ⟨_, h⟩ := run_ok.1 h
  exact flattens_of_ok he h

theorem gives_flatten {typed d : Expr} {t : Ty} {text : String} {s₁ s₂ s₃ : NameSupply}
    (hc : c.validate = .ok ()) (henv : c.environment = .ok env)
    (htyped : (e.inferTypes env).Gives names typed s₁) (ht : typed.getTy = .ok t)
    (htext : t.render? = .ok text) (hd : (inlineIn depth typed ∅).Gives s₁ d s₂)
    (hflat : (d.strip.inferTypes env).Gives s₂ flat s₃) :
    (({ config := c, depth } : Options).flatten e).Gives names flat s₃ := by
  unfold Options.flatten Options.environment
  simp only [hc, henv]
  refine (gives_pure _ names).bind ((gives_pure _ names).bind (htyped.bind ?_))
  rw [ht]
  refine (gives_pure _ s₁).bind ?_
  rw [htext]
  refine (gives_pure _ s₁).bind ((gives_note _ s₁).bind ((gives_note _ s₁).bind ?_))
  exact hd.bind ((gives_note _ s₂).bind hflat)

theorem exists_flattens (hc : c.validate = .ok ()) (henv : c.environment = .ok env)
    (he : e.HasPlainNames) {typed : Expr} (h : ((e.inferTypes env).run names).1 = .ok typed) :
    env.IsBuiltin ∧ ∃ d flat n s, Flattens env e typed d flat ∧
      ∀ depth, n ≤ depth → (({ config := c, depth } : Options).flatten e).Gives names flat s := by
  obtain ⟨env', henv', hbuiltin⟩ := Config.exists_environment hc
  obtain rfl : env' = env := Except.ok.inj (henv'.symm.trans henv)
  refine ⟨hbuiltin, ?_⟩
  have hclosed := hbuiltin.isClosed
  obtain ⟨r, t, hr, rfl⟩ := infers_of_run h
  have ha := hr.isDerivation hclosed
  obtain ⟨d, t', n, hd⟩ := hr.exists_ends he hclosed
  have hplain : r.completed.HasPlainNames := he.congr hr.untyped_completed
  have hrules : Inlines ∅ r.completed d := by
    obtain ⟨_, hrun⟩ := hd n (Nat.le_refl n) []
    exact (inlines_of_inlineIn hrun ⟨.empty _, hplain.not_marks _⟩).rules
  have htype : d.strip.HasType env' r.ty := by
    have hp : env'.IsPlain := fun x c hx => (hclosed x c hx).2
    have hs : Supplies ∅ (· ∈ r.completed.free) env' env' :=
      .of_not_mem fun z _ => Bindings.not_mem_empty z
    exact (hrules.hasType hp hp hs ha.hasType).congr (untyped_strip d)
  obtain ⟨q, t'', _, hq, _⟩ := Derives.infers htype (hclosed.ready t') Ty.isPlain_var
    (hclosed.covers .var)
  refine ⟨d, q.completed, n, t'', ⟨⟨_, _, _, hr, rfl⟩, hrules, ⟨_, _, _, hq, rfl⟩⟩,
    fun depth hdepth => ?_⟩
  have hknown : r.ty.render? = .ok r.ty.render :=
    if_pos (Derives.isPlain ha fun x c hx => (hclosed x c hx).2).isKnown
  obtain ⟨a, hget⟩ := exists_getTy (hasTy_of_isAnnotated ha.isAnnotated)
  obtain rfl : a = r.ty := Option.some.inj ((ty?_of_getTy hget).symm.trans ha.ty?_eq)
  exact gives_flatten hc henv hr.gives_inferTypes hget hknown (hd depth hdepth) hq.gives_inferTypes

end

end LetLower
