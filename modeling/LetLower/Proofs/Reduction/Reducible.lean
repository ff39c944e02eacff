import LetLower.Proofs.Reduction.Step
import LetLower.Ty.Basic

/-!
# Reducible terms

A term is reducible at the type of a function if it takes reducible arguments to reducible results,
and at any other type if it never becomes a function, however it is reduced, and its reductions end.
So a `let` whose value normalizes is reducible where its body is: what moves the `let` below a
parameter cannot happen at a type that is not that of a function.
-/

namespace LetLower.Term

/-- Reductions of the term end, and none comes to a function. -/
inductive Inert : Term → Prop
  | intro {t} (hl : t.isLam = false) (hs : ∀ t', Step t t' → Inert t') : Inert t

def Reducible : Ty → Term → Prop
  | .fn a r, t => ∀ s, Reducible a s → Reducible r (app t s)
  | .bool, t | .int, t | .var _, t | .scheme _ _, t | .unknown, t => Inert t

theorem Inert.normalizes {t : Term} (h : Inert t) : Normalizes t := by
  induction h with
  | intro _ _ ih => exact .of_steps ih

theorem Reducible.step {τ : Ty} {t t' : Term} (h : Reducible τ t) (ht : Step t t') :
    Reducible τ t' := by
  induction τ generalizing t t' with
  | fn a r _ ihr => exact fun s hs => ihr (h s hs) (.callee ht)
  | bool | int | var | scheme | unknown =>
    cases h with
    | intro _ hs => exact hs t' ht

/-- What is reducible normalizes, and what is no function is reducible if all is that it steps
to. -/
theorem reducible_candidate (τ : Ty) :
    (∀ t, Reducible τ t → Normalizes t) ∧
      ∀ t : Term, t.isLam = false → (∀ t', Step t t' → Reducible τ t') → Reducible τ t := by
  induction τ with
  | fn a r iha ihr =>
    constructor
    · intro t ht
      have hatom : Reducible a atom := iha.2 atom rfl fun t' h => nomatch h
      exact (ihr.1 _ (ht atom hatom)).of_callee
    · intro t hl ht s hs
      have hn := iha.1 s hs
      induction hn with
      | intro s _ ih =>
        refine ihr.2 _ rfl fun u hu => ?_
        cases hu with
        | beta => cases hl
        | callee h => exact ht _ h s hs
        | argument h => exact ih _ h (hs.step h)
  | bool | int | var | scheme | unknown =>
    exact ⟨fun _ => Inert.normalizes, fun _ => .intro⟩

theorem Reducible.normalizes {τ : Ty} {t : Term} (h : Reducible τ t) : Normalizes t :=
  (reducible_candidate τ).1 t h

theorem Reducible.of_steps {τ : Ty} {t : Term} (hl : t.isLam = false)
    (h : ∀ t', Step t t' → Reducible τ t') : Reducible τ t :=
  (reducible_candidate τ).2 t hl h

theorem reducible_atom (τ : Ty) : Reducible τ atom := .of_steps rfl fun _ h => nomatch h

/-- A function is reducible if its body is with every reducible argument put in. -/
theorem Reducible.lam {a r : Ty} {b : Term} (h : ∀ s, Reducible a s → Reducible r (b.inst s)) :
    Reducible (.fn a r) (.lam b) := by
  have hb : Normalizes b := .of_subst (h atom (reducible_atom a)).normalizes
  induction hb with
  | intro b _ ihb =>
    intro s hs
    have hn := hs.normalizes
    induction hn with
    | intro s _ ihs =>
      refine .of_steps rfl fun t ht => ?_
      cases ht with
      | beta => exact h s hs
      | callee hstep =>
        cases hstep with
        | lam hb => exact ihb _ hb (fun s hs => (h s hs).step (hb.subst _)) s hs
      | argument hstep => exact ihs _ hstep (hs.step hstep)

/-- A value that normalizes can be kept beside what is reducible, at a type at which it may be moved
below a parameter. -/
theorem Reducible.keep_of_hoist {τ : Ty}
    (hoist : ∀ v b, Acc Below v → Reducible τ (.lam b) → Reducible τ (.lam (.keep v.shift b)))
    {v b : Term} (hv : Acc Below v) (hb : Reducible τ b) : Reducible τ (.keep v b) := by
  induction hv generalizing b with
  | intro v hacc ihv =>
    have hn := hb.normalizes
    induction hn with
    | intro b _ ihb =>
      refine .of_steps rfl fun t ht => ?_
      cases ht with
      | drop => exact hb
      | assoc => exact ihv _ (.inr .value) (ihv _ (.inr .body) hb)
      | hoist => exact hoist v _ ⟨v, hacc⟩ hb
      | value h => exact ihv _ (.inl h) hb
      | body h => exact ihb _ h (hb.step h)

theorem Reducible.keep {τ : Ty} {v b : Term} (hv : Acc Below v) (hb : Reducible τ b) :
    Reducible τ (.keep v b) := by
  induction τ generalizing v b with
  | fn a r _ ihr =>
    refine keep_of_hoist (fun v b hv hb => .lam fun s hs => ?_) hv hb
    have hkeep : (Term.keep v.shift b).inst s = .keep v (b.inst s) :=
      congrArg (Term.keep · (b.inst s)) inst_shift
    rw [hkeep]
    exact ihr hv ((hb s hs).step .beta)
  | bool | int | var | scheme | unknown =>
    refine keep_of_hoist (fun v b _ hb => ?_) hv hb
    cases hb with
    | intro hl _ => cases hl

end LetLower.Term
