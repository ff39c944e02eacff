import LetLower.Proofs.Reduction.Term
import Mathlib.Logic.Relation

/-!
# Steps of reduction

What inlining does to a term: an argument goes in for a parameter, a value that is kept is
forgotten, and kept values move to the outside or below a parameter. `Normalizes` says that no
sequence of steps is endless, and then neither is one that now and then goes on with a part only.
-/

namespace LetLower.Term

inductive Step : Term → Term → Prop
  | beta {b a} : Step (app (lam b) a) (b.inst a)
  | drop {v b} : Step (keep v b) b
  | assoc {u v b} : Step (keep (keep u v) b) (keep u (keep v b))
  | hoist {v b} : Step (keep v (lam b)) (lam (keep v.shift b))
  | lam {b b'} (h : Step b b') : Step (lam b) (lam b')
  | callee {f f' a} (h : Step f f') : Step (app f a) (app f' a)
  | argument {f a a'} (h : Step a a') : Step (app f a) (app f a')
  | value {v v' b} (h : Step v v') : Step (keep v b) (keep v' b)
  | body {v b b'} (h : Step b b') : Step (keep v b) (keep v b')

theorem Step.subst {t t' : Term} (h : Step t t') (σ : Nat → Term) :
    Step (t.subst σ) (t'.subst σ) := by
  induction h generalizing σ with
  | beta =>
    rw [inst_subst]
    exact .beta
  | drop => exact .drop
  | assoc => exact .assoc
  | hoist =>
    rw [Term.subst, Term.subst, Term.subst, Term.subst, shift_subst_up]
    exact .hoist
  | lam _ ih => exact .lam (ih _)
  | callee _ ih => exact .callee (ih σ)
  | argument _ ih => exact .argument (ih σ)
  | value _ ih => exact .value (ih σ)
  | body _ ih => exact .body (ih σ)

abbrev Reduces : Term → Term → Prop := Relation.ReflTransGen Step

namespace Reduces

variable {t t' f f' a a' v v' b b' : Term}

theorem subst (h : Reduces t t') (σ : Nat → Term) : Reduces (t.subst σ) (t'.subst σ) :=
  h.lift _ fun _ _ h => h.subst σ

theorem shift (h : Reduces t t') : Reduces t.shift t'.shift := by
  rw [shift_eq_subst, shift_eq_subst]
  exact h.subst _

theorem lam (h : Reduces b b') : Reduces (.lam b) (.lam b') := h.lift _ fun _ _ => .lam

theorem app (hf : Reduces f f') (ha : Reduces a a') : Reduces (.app f a) (.app f' a') :=
  (hf.lift (Term.app · a) fun _ _ => .callee).trans (ha.lift (Term.app f') fun _ _ => .argument)

theorem keep (hv : Reduces v v') (hb : Reduces b b') : Reduces (.keep v b) (.keep v' b') :=
  (hv.lift (Term.keep · b) fun _ _ => .value).trans (hb.lift (Term.keep v') fun _ _ => .body)

end Reduces

inductive Part : Term → Term → Prop
  | lam {b} : Part b (lam b)
  | callee {f a} : Part f (app f a)
  | argument {f a} : Part a (app f a)
  | value {v b} : Part v (keep v b)
  | body {v b} : Part b (keep v b)

theorem Part.step {s s' t : Term} (h : Part s t) (hs : Step s s') :
    ∃ t', Step t t' ∧ Part s' t' := by
  cases h with
  | lam => exact ⟨_, .lam hs, .lam⟩
  | callee => exact ⟨_, .callee hs, .callee⟩
  | argument => exact ⟨_, .argument hs, .argument⟩
  | value => exact ⟨_, .value hs, .value⟩
  | body => exact ⟨_, .body hs, .body⟩

abbrev Within : Term → Term → Prop := Relation.ReflTransGen Part

theorem Within.step {s s' t : Term} (h : Within s t) (hs : Step s s') :
    ∃ t', Step t t' ∧ Within s' t' := by
  induction h with
  | refl => exact ⟨s', hs, .refl⟩
  | tail _ hp ih =>
    obtain ⟨t', ht, hw⟩ := ih
    obtain ⟨u', hu, hp'⟩ := hp.step ht
    exact ⟨u', hu, hw.tail hp'⟩

theorem acc_part (t : Term) : Acc Part t := by
  induction t with
  | var | atom => exact ⟨_, fun s h => nomatch h⟩
  | lam b ih =>
    refine ⟨_, fun s h => ?_⟩
    cases h
    exact ih
  | app f a ihf iha =>
    refine ⟨_, fun s h => ?_⟩
    cases h with
    | callee => exact ihf
    | argument => exact iha
  | keep v b ihv ihb =>
    refine ⟨_, fun s h => ?_⟩
    cases h with
    | value => exact ihv
    | body => exact ihb

/-- No sequence of steps from the term is endless. -/
abbrev Normalizes (t : Term) : Prop := Acc (fun s t => Step t s) t

/-- One term comes from the other by a step, or is a part of it. -/
def Below (s t : Term) : Prop := Step t s ∨ Part s t

theorem Within.acc_below {s t : Term} (h : Within s t) (ht : Acc Below t) : Acc Below s := by
  induction h with
  | refl => exact ht
  | tail _ hp ih => exact ih (ht.inv (.inr hp))

theorem below_of_steps {s t : Term} (h : Relation.TransGen Step t s) :
    Relation.TransGen Below s t :=
  Relation.TransGen.mono (fun _ _ => .inl) _ _ (Relation.transGen_swap.2 h)

theorem Normalizes.of_steps {t : Term} (h : ∀ t', Step t t' → Normalizes t') : Normalizes t :=
  ⟨t, h⟩

theorem Normalizes.of_subst {t : Term} {σ : Nat → Term} (h : Normalizes (t.subst σ)) :
    Normalizes t :=
  Subrelation.accessible (fun hs => Step.subst hs σ)
    (InvImage.accessible (fun t : Term => t.subst σ) h)

theorem Normalizes.of_callee {f a : Term} (h : Normalizes (app f a)) : Normalizes f :=
  Subrelation.accessible (fun hs => Step.callee hs) (InvImage.accessible (app · a) h)

/-- Going on with a part does not make a sequence of steps endless. -/
theorem Normalizes.acc_below {t : Term} (h : Normalizes t) : Acc Below t := by
  induction h with
  | intro t _ ih =>
    have hpart : ∀ s, Within s t → Acc Below s := by
      intro s
      induction acc_part s with
      | intro s _ ihs =>
        intro hst
        refine ⟨_, fun s' hs' => ?_⟩
        rcases hs' with hstep | hp
        · obtain ⟨t', ht, hst'⟩ := hst.step hstep
          exact hst'.acc_below (ih t' ht)
        · exact ihs s' hp (.head hp hst)
    exact hpart t .refl

end LetLower.Term
