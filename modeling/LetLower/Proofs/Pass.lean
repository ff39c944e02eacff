import LetLower.Pass

/-!
# Passes that succeed

What a step of a pass did when it succeeded, and which steps succeed. The log is left out of the
second kind of statement: `x.Gives s a s'` says that the pass takes the supply `s` to the value `a`
and the supply `s'` whatever was logged before. `x.Requires s p k` says that it succeeds if `p`
holds and reports a mistake of the kind `k` if not.
-/

namespace LetLower.Pass

variable {α β : Type}

/-- A step from one supply to another, on every log. -/
def Gives (x : Pass α) (s : NameSupply) (a : α) (s' : NameSupply) : Prop :=
  ∀ log, ∃ log', x ⟨s, log⟩ = .ok a ⟨s', log'⟩

theorem pure_ok {a b : α} {s s' : PassState} :
    (pure a : Pass α) s = .ok b s' ↔ a = b ∧ s = s' := by
  constructor
  · intro h
    cases h
    exact ⟨rfl, rfl⟩
  · rintro ⟨rfl, rfl⟩
    rfl

theorem bind_ok {x : Pass α} {f : α → Pass β} {b : β} {s s' : PassState} :
    (x >>= f) s = .ok b s' ↔ ∃ a t, x s = .ok a t ∧ f a t = .ok b s' := by
  change EStateM.bind x f s = _ ↔ _
  unfold EStateM.bind
  constructor
  · intro h
    cases hx : x s with
    | ok a t =>
      rw [hx] at h
      exact ⟨a, t, rfl, h⟩
    | error e t =>
      rw [hx] at h
      cases h
  · rintro ⟨a, t, hx, hf⟩
    rw [hx]
    exact hf

/-- A step after the same step, which may use what that has returned. -/
theorem bind_congr_ok {x x' : Pass α} {f f' : α → Pass β} {s : PassState} (hx : x s = x' s)
    (hf : ∀ a t, x' s = .ok a t → f a t = f' a t) : (x >>= f) s = (x' >>= f') s := by
  change EStateM.bind x f s = EStateM.bind x' f' s
  unfold EStateM.bind
  rw [hx]
  cases h : x' s with
  | ok a t => exact hf a t h
  | error e t => rfl

theorem not_fail_ok {f : Failure} {a : α} {s s' : PassState} :
    (fail f : Pass α) s ≠ .ok a s' :=
  fun h => nomatch h

theorem orFault_ok {r : Except Fault α} {a : α} {s s' : PassState} :
    orFault r s = .ok a s' ↔ r = .ok a ∧ s = s' := by
  cases r with
  | ok b =>
    rw [orFault, pure_ok]
    simp
  | error f =>
    constructor
    · exact fun h => absurd h not_fail_ok
    · rintro ⟨h, _⟩
      cases h

theorem orFailure_ok {r : Except Failure α} {a : α} {s s' : PassState} :
    orFailure r s = .ok a s' ↔ r = .ok a ∧ s = s' := by
  cases r with
  | ok b =>
    rw [orFailure, pure_ok]
    simp
  | error f =>
    constructor
    · exact fun h => absurd h not_fail_ok
    · rintro ⟨h, _⟩
      cases h

theorem names_of_note {e : Event} {u : Unit} {s s' : PassState} (h : note e s = .ok u s') :
    s'.names = s.names := by
  cases h
  rfl

theorem freshVar_ok {t : Ty} {s s' : PassState} (h : freshVar s = .ok t s') :
    t = .var s.names.fresh.1 ∧ s'.names = s.names.advance := by
  cases h
  exact ⟨rfl, rfl⟩

theorem compose_ok {newer older r : Subst} {s s' : PassState}
    (h : compose newer older s = .ok r s') :
    r = Subst.compose newer older ∧ s'.names = s.names := by
  cases h
  exact ⟨rfl, rfl⟩

theorem composeAll_ok {a b c r : Subst} {s s' : PassState}
    (h : composeAll [a, b, c] s = .ok r s') :
    r = Subst.compose c (Subst.compose b (Subst.compose a ∅)) ∧ s'.names = s.names := by
  cases h
  exact ⟨rfl, rfl⟩

theorem generalize_ok {env : TyEnv} {t : Ty} {c : Scheme} {s s' : PassState}
    (h : generalize env t s = .ok c s') : c = env.generalize t ∧ s'.names = s.names := by
  unfold generalize at h
  split at h
  · obtain ⟨u, s₁, hn, h⟩ := bind_ok.1 h
    obtain ⟨rfl, rfl⟩ := pure_ok.1 h
    exact ⟨rfl, names_of_note hn⟩
  · obtain ⟨rfl, rfl⟩ := pure_ok.1 h
    exact ⟨rfl, rfl⟩

theorem generalize_congr {env env' : TyEnv} {t : Ty} (h : env.generalize t = env'.generalize t)
    (s : PassState) : generalize env t s = generalize env' t s := by
  unfold generalize
  rw [h]

theorem unify_ok {a b : Ty} {loc : Option Location} {u : Ty.Unifier} {s s' : PassState}
    (h : unify a b loc s = .ok u s') : Ty.unify a b = .ok u ∧ s'.names = s.names := by
  unfold unify at h
  obtain ⟨_, s₁, hn, h⟩ := bind_ok.1 h
  cases hu : Ty.unify a b with
  | ok v =>
    rw [hu] at h
    obtain ⟨rfl, rfl⟩ := pure_ok.1 h
    exact ⟨rfl, names_of_note hn⟩
  | error e =>
    rw [hu] at h
    exact absurd h not_fail_ok

theorem bind_unify_compose_ok {a b : Ty} {loc : Option Location} {S : Subst}
    {f : Ty.Unifier → Subst → Pass α} {r : α} {s s' : PassState}
    (h : (unify a b loc >>= fun u => compose u.subst S >>= f u) s = .ok r s') :
    ∃ u t, Ty.unify a b = .ok u ∧ t.names = s.names ∧
      f u (Subst.compose u.subst S) t = .ok r s' := by
  obtain ⟨u, t₁, hu, h⟩ := bind_ok.1 h
  obtain ⟨found, t₂, hs, h⟩ := bind_ok.1 h
  obtain ⟨hu, ht₁⟩ := unify_ok hu
  obtain ⟨rfl, ht₂⟩ := compose_ok hs
  exact ⟨u, t₂, hu, ht₂.trans ht₁, h⟩

theorem bind_unify_compose_congr {a b : Ty} {loc : Option Location} {S : Subst}
    {f f' : Ty.Unifier → Subst → Pass α} {s : PassState}
    (hf : ∀ u t, Ty.unify a b = .ok u → t.names = s.names →
      f u (Subst.compose u.subst S) t = f' u (Subst.compose u.subst S) t) :
    (unify a b loc >>= fun u => compose u.subst S >>= f u) s
      = (unify a b loc >>= fun u => compose u.subst S >>= f' u) s := by
  refine bind_congr_ok rfl fun u t₁ hu => bind_congr_ok rfl fun found t₂ hs => ?_
  obtain ⟨hu, ht₁⟩ := unify_ok hu
  obtain ⟨rfl, ht₂⟩ := compose_ok hs
  exact hf u t₂ hu (ht₂.trans ht₁)

theorem bind_generalize_note_ok {env : TyEnv} {ty : Ty} {recursive : Bool} {x : String}
    {f : Scheme → Pass α} {r : α} {s s' : PassState}
    (h : (generalize env ty >>= fun c => note (.bound recursive x c) >>= fun _ => f c) s
      = .ok r s') :
    ∃ t, t.names = s.names ∧ f (env.generalize ty) t = .ok r s' := by
  obtain ⟨c, t₁, hc, h⟩ := bind_ok.1 h
  obtain ⟨_, t₂, hn, h⟩ := bind_ok.1 h
  obtain ⟨rfl, ht₁⟩ := generalize_ok hc
  exact ⟨t₂, (names_of_note hn).trans ht₁, h⟩

theorem bind_generalize_note_congr {env env' : TyEnv} {ty : Ty} {recursive : Bool} {x : String}
    {f f' : Scheme → Pass α} {s : PassState} (hc : env.generalize ty = env'.generalize ty)
    (hf : ∀ t, t.names = s.names → f (env.generalize ty) t = f' (env.generalize ty) t) :
    (generalize env ty >>= fun c => note (.bound recursive x c) >>= fun _ => f c) s
      = (generalize env' ty >>= fun c => note (.bound recursive x c) >>= fun _ => f' c) s := by
  refine bind_congr_ok (generalize_congr hc s) fun c t₁ hg => bind_congr_ok rfl fun _ t₂ hn => ?_
  obtain ⟨rfl, ht₁⟩ := generalize_ok hg
  rw [← hc]
  exact hf t₂ ((names_of_note hn).trans ht₁)

theorem run_ok {x : Pass α} {names : NameSupply} {a : α} :
    (x.run names).1 = .ok a ↔ ∃ s, x { names } = .ok a s := by
  unfold run
  rw [EStateM.run]
  cases x { names } with
  | ok b s =>
    constructor
    · intro h
      cases h
      exact ⟨s, rfl⟩
    · rintro ⟨t, h⟩
      cases h
      rfl
  | error f s =>
    constructor
    · intro h
      cases h
    · rintro ⟨t, h⟩
      cases h

theorem names_of_run {x : Pass α} {names : NameSupply} {a : α} {s : PassState}
    (h : x { names } = .ok a s) : (x.run names).2.1 = s.names := by
  unfold run EStateM.run
  rw [h]

theorem Gives.run_ok {x : Pass α} {s s' : NameSupply} {a : α} (h : x.Gives s a s') :
    (x.run s).1 = .ok a :=
  have ⟨log, hx⟩ := h []
  Pass.run_ok.2 ⟨⟨s', log⟩, hx⟩

theorem gives_pure (a : α) (s : NameSupply) : (pure a : Pass α).Gives s a s :=
  fun log => ⟨log, rfl⟩

theorem Gives.bind {x : Pass α} {f : α → Pass β} {s t s' : NameSupply} {a : α} {b : β}
    (hx : x.Gives s a t) (hf : (f a).Gives t b s') : (x >>= f).Gives s b s' := by
  intro log
  obtain ⟨log₁, h₁⟩ := hx log
  obtain ⟨log₂, h₂⟩ := hf log₁
  exact ⟨log₂, bind_ok.2 ⟨a, ⟨t, log₁⟩, h₁, h₂⟩⟩

theorem gives_note (e : Event) (s : NameSupply) : (note e).Gives s () s :=
  fun log => ⟨⟨e, s⟩ :: log, rfl⟩

theorem gives_freshFrom (base : String) (s : NameSupply) :
    (freshFrom base).Gives s (s.freshFrom base).1 s.advance :=
  fun log => ⟨log, rfl⟩

theorem gives_freshVar (s : NameSupply) : freshVar.Gives s (.var s.fresh.1) s.advance :=
  fun log => ⟨log, rfl⟩

theorem gives_instantiate (c : Scheme) (s : NameSupply) :
    (instantiate c).Gives s (c.instantiate s).1 (c.instantiate s).2 :=
  fun log => ⟨log, rfl⟩

theorem gives_compose (newer older : Subst) (s : NameSupply) :
    (compose newer older).Gives s (Subst.compose newer older) s :=
  (gives_note _ s).bind (gives_pure _ s)

theorem gives_composeFrom (ss : List Subst) (acc : Subst) (s : NameSupply) :
    (ss.foldlM (fun acc s => compose s acc) acc).Gives s
      (ss.foldl (fun acc s => Subst.compose s acc) acc) s := by
  induction ss generalizing acc with
  | nil => exact gives_pure acc s
  | cons t ss ih =>
    rw [List.foldlM_cons, List.foldl_cons]
    exact (gives_compose t acc s).bind (ih _)

theorem gives_composeAll (ss : List Subst) (s : NameSupply) :
    (composeAll ss).Gives s (Subst.composeAll ss) s :=
  gives_composeFrom ss ∅ s

theorem gives_generalize (env : TyEnv) (t : Ty) (s : NameSupply) :
    (generalize env t).Gives s (env.generalize t) s := by
  unfold generalize
  dsimp only
  split
  · exact (gives_note _ s).bind (gives_pure _ s)
  · exact gives_pure _ s

theorem gives_unify {a b : Ty} {u : Ty.Unifier} (h : Ty.unify a b = .ok u)
    (loc : Option Location) (s : NameSupply) : (unify a b loc).Gives s u s := by
  unfold unify
  refine (gives_note _ s).bind ?_
  rw [h]
  exact gives_pure u s

/-- A mistake of the kind is reported, on every log. -/
def Rejects (x : Pass α) (s : NameSupply) (k : DiagnosticKind) : Prop :=
  ∀ log, ∃ d t, x ⟨s, log⟩ = .error (.diagnostic d) t ∧ d.kind = k

/-- The pass succeeds if `p` holds, and reports a mistake of the kind if it does not. -/
structure Requires (x : Pass α) (s : NameSupply) (p : Prop) (k : DiagnosticKind) : Prop where
  gives : p → ∃ a t, x.Gives s a t
  rejects : ¬ p → x.Rejects s k

variable {p q : Prop} {k : DiagnosticKind} {x : Pass α} {f : α → Pass β} {s t : NameSupply} {a : α}

theorem rejects_report {d : Diagnostic} (s : NameSupply) : (report d : Pass α).Rejects s d.kind :=
  fun _ => ⟨d, _, rfl, rfl⟩

theorem Rejects.bind (h : x.Rejects s k) : (x >>= f).Rejects s k := by
  intro log
  obtain ⟨d, t, hx, hk⟩ := h log
  refine ⟨d, t, ?_, hk⟩
  change EStateM.bind x f _ = _
  unfold EStateM.bind
  rw [hx]

theorem Gives.bind_rejects (hx : x.Gives s a t) (h : (f a).Rejects t k) :
    (x >>= f).Rejects s k := by
  intro log
  obtain ⟨log', hx⟩ := hx log
  obtain ⟨d, t', hf, hk⟩ := h log'
  refine ⟨d, t', ?_, hk⟩
  change EStateM.bind x f _ = _
  unfold EStateM.bind
  rw [hx]
  exact hf

theorem Rejects.run (h : x.Rejects s k) :
    ∃ d, (x.run s).1 = .error (.diagnostic d) ∧ d.kind = k := by
  obtain ⟨d, t, hx, hk⟩ := h []
  refine ⟨d, ?_, hk⟩
  unfold Pass.run EStateM.run
  rw [hx]

theorem Gives.requires (hx : x.Gives s a t) (h : p) : x.Requires s p k :=
  ⟨fun _ => ⟨a, t, hx⟩, fun hn => absurd h hn⟩

theorem Rejects.requires (hx : x.Rejects s k) (h : ¬ p) : x.Requires s p k :=
  ⟨fun hp => absurd hp h, fun _ => hx⟩

theorem Gives.bind_requires (hx : x.Gives s a t) (h : (f a).Requires t p k) :
    (x >>= f).Requires s p k where
  gives hp :=
    have ⟨b, t', hf⟩ := h.gives hp
    ⟨b, t', hx.bind hf⟩
  rejects hp := hx.bind_rejects (h.rejects hp)

theorem Requires.bind (hx : x.Requires s p k)
    (hf : ∀ a t, x.Gives s a t → (f a).Requires t q k) : (x >>= f).Requires s (p ∧ q) k where
  gives h :=
    have ⟨a, t, ha⟩ := hx.gives h.1
    have ⟨b, t', hb⟩ := (hf a t ha).gives h.2
    ⟨b, t', ha.bind hb⟩
  rejects h := by
    by_cases hp : p
    · obtain ⟨a, t, ha⟩ := hx.gives hp
      exact ha.bind_rejects ((hf a t ha).rejects fun hq => h ⟨hp, hq⟩)
    · exact (hx.rejects hp).bind

theorem Requires.bind_gives (hx : x.Requires s p k)
    (hf : ∀ a t, x.Gives s a t → ∃ b t', (f a).Gives t b t') : (x >>= f).Requires s p k where
  gives hp :=
    have ⟨a, t, ha⟩ := hx.gives hp
    have ⟨b, t', hb⟩ := hf a t ha
    ⟨b, t', ha.bind hb⟩
  rejects hp := (hx.rejects hp).bind

theorem Requires.congr (h : x.Requires s p k) (hq : q ↔ p) : x.Requires s q k :=
  ⟨fun hp => h.gives (hq.1 hp), fun hp => h.rejects fun hn => hp (hq.2 hn)⟩

end LetLower.Pass
