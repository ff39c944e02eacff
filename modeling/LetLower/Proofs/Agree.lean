import LetLower.Proofs.Pass

/-!
# Runs that agree

Two runs are set side by side, each on a supply of its own. They agree when both succeed with values
and supplies that are related, or both fail with failures that are related. Agreement passes from
the steps to the whole, so a relation that every step keeps is kept by the run. The logs play no
part in it.
-/

namespace LetLower

/-- Both results are there and related, or both are errors and related. -/
inductive Matches {ε ε' α β : Type} (F : ε → ε' → Prop) (R : α → β → Prop) :
    Except ε α → Except ε' β → Prop
  | ok {a b} (h : R a b) : Matches F R (.ok a) (.ok b)
  | error {e e'} (h : F e e') : Matches F R (.error e) (.error e')

namespace Matches

variable {ε ε' α β γ : Type} {F : ε → ε' → Prop} {R R' : α → β → Prop} {r : Except ε α}
  {r' : Except ε' β}

theorem imp (h : Matches F R r r') (hR : ∀ a b, R a b → R' a b) : Matches F R' r r' := by
  cases h with
  | ok h => exact .ok (hR _ _ h)
  | error h => exact .error h

theorem map_left {Q : γ → β → Prop} {f : α → γ} (h : Matches F (fun a b => Q (f a) b) r r') :
    Matches F Q (r.map f) r' := by
  cases h with
  | ok h => exact .ok h
  | error h => exact .error h

theorem map_right {Q : α → γ → Prop} {f : β → γ} (h : Matches F (fun a b => Q a (f b)) r r') :
    Matches F Q r (r'.map f) := by
  cases h with
  | ok h => exact .ok h
  | error h => exact .error h

end Matches

/-- Both are mistakes in the program, and of the same kind. -/
def Failure.SameKind (f g : Failure) : Prop :=
  ∃ d d', f = .diagnostic d ∧ g = .diagnostic d' ∧ d.kind = d'.kind

/-- As `SameKind`, and the places of the two mistakes are related. -/
def Failure.SameKindAt (κ : Option Location → Option Location → Prop) (f g : Failure) : Prop :=
  ∃ d d', f = .diagnostic d ∧ g = .diagnostic d' ∧ d.kind = d'.kind ∧ κ d.loc d'.loc

theorem Failure.SameKindAt.sameKind {κ : Option Location → Option Location → Prop} {f g : Failure}
    (h : f.SameKindAt κ g) : f.SameKind g := by
  obtain ⟨d, d', hf, hg, hk, _⟩ := h
  exact ⟨d, d', hf, hg, hk⟩

namespace Pass

variable {α β γ δ : Type}

def Returns (x : Pass α) (s : NameSupply) (a : α) (t : NameSupply) : Prop :=
  ∃ log log', x ⟨s, log⟩ = .ok a ⟨t, log'⟩

inductive Agrees (F : Failure → Failure → Prop) (R : α → NameSupply → β → NameSupply → Prop) :
    EStateM.Result Failure PassState α → EStateM.Result Failure PassState β → Prop
  | ok {a b t t'} (h : R a t.names b t'.names) : Agrees F R (.ok a t) (.ok b t')
  | error {f g t t'} (h : F f g) : Agrees F R (.error f t) (.error g t')

/-- From the supplies `s` and `s'` the passes end alike, whatever was logged before. -/
def Agree (F : Failure → Failure → Prop) (R : α → NameSupply → β → NameSupply → Prop)
    (x : Pass α) (s : NameSupply) (y : Pass β) (s' : NameSupply) : Prop :=
  ∀ log log', Agrees F R (x ⟨s, log⟩) (y ⟨s', log'⟩)

variable {F F' : Failure → Failure → Prop} {R : α → NameSupply → β → NameSupply → Prop}
  {Q : γ → NameSupply → δ → NameSupply → Prop} {x : Pass α} {y : Pass β} {f : α → Pass γ}
  {g : β → Pass δ} {s s' t t' : NameSupply} {a : α} {b : β}

theorem agree_pure (h : R a s b s') : Agree F R (pure a) s (pure b) s' := fun _ _ => .ok h

theorem agree_fail {e e' : Failure} (h : F e e') : Agree F R (fail e) s (fail e') s' :=
  fun _ _ => .error h

theorem Agree.imp_failure (h : Agree F R x s y s') (hF : ∀ f g, F f g → F' f g) :
    Agree F' R x s y s' := by
  intro log log'
  have hrun := h log log'
  generalize x ⟨s, log⟩ = r at hrun ⊢
  generalize y ⟨s', log'⟩ = r' at hrun ⊢
  cases hrun with
  | ok hab => exact .ok hab
  | error he => exact .error (hF _ _ he)

theorem Gives.agree (hx : x.Gives s a t) (hy : y.Gives s' b t') (h : R a t b t') :
    Agree F R x s y s' := by
  intro log log'
  obtain ⟨_, hx⟩ := hx log
  obtain ⟨_, hy⟩ := hy log'
  rw [hx, hy]
  exact .ok h

theorem Agree.bind (h : Agree F R x s y s')
    (hf : ∀ a t b t', x.Returns s a t → y.Returns s' b t' → R a t b t' →
      Agree F Q (f a) t (g b) t') : Agree F Q (x >>= f) s (y >>= g) s' := by
  intro log log'
  have hrun := h log log'
  change Agrees F Q (EStateM.bind x f _) (EStateM.bind y g _)
  unfold EStateM.bind
  generalize hx : x ⟨s, log⟩ = r at hrun ⊢
  generalize hy : y ⟨s', log'⟩ = r' at hrun ⊢
  cases hrun with
  | @ok a b t t' hab => exact hf a t.names b t'.names ⟨log, _, hx⟩ ⟨log', _, hy⟩ hab t.log t'.log
  | error he => exact .error he

theorem Gives.bind_agree (hx : x.Gives s a t) (hy : y.Gives s' b t')
    (h : Agree F Q (f a) t (g b) t') : Agree F Q (x >>= f) s (y >>= g) s' := by
  refine Agree.bind (R := fun a₁ t₁ b₁ t₁' => a₁ = a ∧ t₁ = t ∧ b₁ = b ∧ t₁' = t')
    (hx.agree hy ⟨rfl, rfl, rfl, rfl⟩) ?_
  rintro _ _ _ _ _ _ ⟨rfl, rfl, rfl, rfl⟩
  exact h

theorem Agree.run {R : α → β → Prop} (h : Agree F (fun a _ b _ => R a b) x s y s') :
    Matches F R (x.run s).1 (y.run s').1 := by
  have hrun := h [] []
  unfold Pass.run EStateM.run
  generalize x { names := s } = r at hrun ⊢
  generalize y { names := s' } = r' at hrun ⊢
  cases hrun with
  | ok hab => exact .ok hab
  | error he => exact .error he

end Pass
end LetLower
