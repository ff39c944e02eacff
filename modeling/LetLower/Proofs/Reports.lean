import LetLower.Infer
import LetLower.Inline
import LetLower.Proofs.Pass

/-!
# The mistakes that a pass reports

A pass fails with a fault or with a report, and `x.Reports ks` says of what kinds its reports are.
Inference reports the mistakes of typing. Inlining reports none: what goes wrong there is a fault.
-/

namespace LetLower

namespace Pass

variable {α β : Type} {ks ks' : List DiagnosticKind}

/-- Every mistake that the pass reports is of one of the kinds. -/
def Reports (x : Pass α) (ks : List DiagnosticKind) : Prop :=
  ∀ s d t, x s = .error (.diagnostic d) t → d.kind ∈ ks

theorem bind_error {x : Pass α} {f : α → Pass β} {e : Failure} {s s' : PassState} :
    (x >>= f) s = .error e s' ↔ x s = .error e s' ∨ ∃ a t, x s = .ok a t ∧ f a t = .error e s' := by
  change EStateM.bind x f s = _ ↔ _
  unfold EStateM.bind
  cases hx : x s with
  | ok a t =>
    constructor
    · exact fun h => .inr ⟨a, t, rfl, h⟩
    · rintro (h | ⟨_, _, h, hf⟩)
      · cases h
      · cases h
        exact hf
  | error e' t =>
    constructor
    · intro h
      cases h
      exact .inl rfl
    · rintro (h | ⟨_, _, h, _⟩)
      · cases h
        rfl
      · cases h

theorem Reports.bind_ok {x : Pass α} {f : α → Pass β} (hx : x.Reports ks)
    (hf : ∀ a s t, x s = .ok a t → (f a).Reports ks) : (x >>= f).Reports ks := by
  intro s d t h
  rcases bind_error.1 h with h | ⟨a, u, ha, h⟩
  · exact hx s d t h
  · exact hf a s u ha u d t h

theorem Reports.bind {x : Pass α} {f : α → Pass β} (hx : x.Reports ks)
    (hf : ∀ a, (f a).Reports ks) : (x >>= f).Reports ks :=
  hx.bind_ok fun a _ _ _ => hf a

theorem Reports.mono {x : Pass α} (h : x.Reports ks) (hks : ks ⊆ ks') : x.Reports ks' :=
  fun s d t hx => hks (h s d t hx)

theorem Reports.run {x : Pass α} (h : x.Reports ks) {names : NameSupply} {d : Diagnostic}
    (hx : (x.run names).1 = .error (.diagnostic d)) : d.kind ∈ ks := by
  unfold Pass.run EStateM.run at hx
  split at hx
  · cases hx
  · rename_i hs
    cases hx
    exact h _ _ _ hs

theorem reports_pure (a : α) : (pure a : Pass α).Reports ks := fun _ _ _ h => nomatch h

theorem reports_note (e : Event) : (note e).Reports ks := fun _ _ _ h => nomatch h

theorem reports_draw (f : NameSupply → α × NameSupply) : (draw f).Reports ks :=
  fun _ _ _ h => nomatch h

theorem reports_fault (f : Fault) : (fault f : Pass α).Reports ks := fun _ _ _ h => nomatch h

theorem reports_report {d : Diagnostic} (h : d.kind ∈ ks) : (report d : Pass α).Reports ks := by
  intro s d' t hd
  cases hd
  exact h

theorem reports_orFault (r : Except Fault α) : (orFault r).Reports ks := by
  cases r with
  | ok a => exact reports_pure a
  | error f => exact reports_fault f

theorem reports_freshVar : freshVar.Reports ks := (reports_draw _).bind fun _ => reports_pure _

theorem reports_compose (newer older : Subst) : (compose newer older).Reports ks :=
  (reports_note _).bind fun _ => reports_pure _

theorem reports_composeAll (a b c : Subst) : (composeAll [a, b, c]).Reports ks :=
  (reports_compose a ∅).bind fun _ => (reports_compose b _).bind fun _ =>
    (reports_compose c _).bind fun _ => reports_pure _

theorem reports_generalize (env : TyEnv) (t : Ty) : (generalize env t).Reports ks := by
  unfold generalize
  dsimp only
  split
  · exact (reports_note _).bind fun _ => reports_pure _
  · exact reports_pure _

end Pass

open Pass

def typingKinds : List DiagnosticKind := [.undefinedVariable, .typeMismatch, .infiniteType]

theorem Diagnostic.kind_typeMismatch {a b : Ty} {loc : Option Location} {d : Diagnostic}
    (h : typeMismatch a b loc = .ok d) : d.kind = .typeMismatch := by
  unfold typeMismatch Ty.render? at h
  cases ha : a.isKnown <;> cases hb : b.isKnown <;> rw [ha, hb] at h <;> cases h
  rfl

theorem Diagnostic.kind_infiniteType {x : String} {t : Ty} {loc : Option Location} {d : Diagnostic}
    (h : infiniteType x t loc = .ok d) : d.kind = .infiniteType := by
  unfold infiniteType Ty.render? at h
  cases ht : t.isKnown <;> rw [ht] at h <;> cases h
  rfl

theorem Diagnostic.kind_unsupportedConstruct {e : Expr} {d : Diagnostic}
    (h : unsupportedConstruct e = .ok d) : d.kind = .unsupportedConstruct := by
  unfold unsupportedConstruct Expr.source? at h
  cases he : e.isKnown <;> rw [he] at h <;> cases h
  rfl

theorem kind_ofUnifyError {loc : Option Location} {e : UnifyError} {d : Diagnostic}
    (h : ofUnifyError loc e = .diagnostic d) : d.kind ∈ typingKinds := by
  unfold ofUnifyError at h
  split at h
  · split at h
    · rename_i hd
      cases h
      rw [Diagnostic.kind_typeMismatch hd]
      decide
    · cases h
  · split at h
    · rename_i hd
      cases h
      rw [Diagnostic.kind_infiniteType hd]
      decide
    · cases h
  · split at h <;> cases h
  · cases h

theorem reports_unify (a b : Ty) (loc : Option Location) : (unify a b loc).Reports typingKinds := by
  refine (reports_note _).bind fun _ => ?_
  cases Ty.unify a b with
  | ok u => exact reports_pure u
  | error e =>
    intro s d t h
    exact kind_ofUnifyError (EStateM.Result.error.inj h).1

namespace Expr

theorem reports_inferIn (e : Expr) (env : TyEnv) : (e.inferIn env).Reports typingKinds := by
  induction e generalizing env with
  | int | bool => exact reports_pure _
  | bare => exact reports_fault _
  | var m x =>
    rw [inferIn, inferVar]
    split
    · exact reports_report List.mem_cons_self
    · exact (reports_draw _).bind fun _ => reports_pure _
  | lam m x b ih => exact reports_freshVar.bind fun _ => (ih _).bind fun _ => reports_pure _
  | app m f a ihf iha =>
    exact (ihf _).bind fun _ => (iha _).bind fun _ => reports_freshVar.bind fun _ =>
      (reports_unify _ _ _).bind fun _ => (reports_composeAll _ _ _).bind fun _ => reports_pure _
  | letIn m x v b ihv ihb =>
    exact (ihv _).bind fun _ => (reports_generalize _ _).bind fun _ =>
      (reports_note _).bind fun _ => (ihb _).bind fun _ => (reports_compose _ _).bind fun _ =>
        reports_pure _
  | letRec m x v b ihv ihb =>
    exact reports_freshVar.bind fun _ => (ihv _).bind fun _ => (reports_unify _ _ _).bind fun _ =>
      (reports_compose _ _).bind fun _ => (reports_generalize _ _).bind fun _ =>
        (reports_note _).bind fun _ => (ihb _).bind fun _ => (reports_compose _ _).bind fun _ =>
          reports_pure _
  | binary m op l r ihl ihr =>
    exact (ihl _).bind fun _ => (reports_unify _ _ _).bind fun _ =>
      (reports_compose _ _).bind fun _ => (ihr _).bind fun _ => (reports_unify _ _ _).bind fun _ =>
        (reports_compose _ _).bind fun _ => (reports_compose _ _).bind fun _ => reports_pure _
  | cond m c t e ihc iht ihe =>
    exact (ihc _).bind fun _ => (reports_unify _ _ _).bind fun _ =>
      (reports_compose _ _).bind fun _ => (iht _).bind fun _ => (reports_compose _ _).bind fun _ =>
        (ihe _).bind fun _ => (reports_compose _ _).bind fun _ =>
          (reports_unify _ _ _).bind fun _ => (reports_compose _ _).bind fun _ => reports_pure _

theorem reports_inferTypes (e : Expr) (env : TyEnv) : (e.inferTypes env).Reports typingKinds := by
  rw [inferTypes, infer]
  exact ((reports_inferIn e env).bind fun _ => (reports_note _).bind fun _ => reports_pure _).bind
    fun _ => reports_pure _

variable {ks : List DiagnosticKind}

theorem reports_enter (env : InlineEnv) (x : String) (value : Option Expr) :
    (enter env x value).Reports ks := by
  refine (reports_orFault _).bind fun clash => ?_
  dsimp only
  split
  · exact (reports_draw _).bind fun _ => (reports_note _).bind fun _ => reports_pure _
  · exact reports_pure _

theorem reports_scope (b : Entered) (e : Expr) : (b.scope e).Reports ks := by
  unfold Entered.scope
  split
  · exact reports_orFault _
  · exact reports_pure _

theorem reports_rotate (m : Mark) (x : String) (n : Mark) (y : String) (v w b : Expr) :
    (rotate m x n y v w b).Reports ks :=
  (reports_draw _).bind fun _ => (reports_note _).bind fun _ => (reports_orFault _).bind fun _ =>
    reports_pure _

theorem reports_letOver (m : Mark) (x : String) (v b : Expr) : (letOver m x v b).Reports ks := by
  fun_induction letOver m x v b with
  | case1 fm p b hm ih =>
    refine (reports_draw _).bind fun q => (reports_note _).bind fun _ => ?_
    split
    · exact (ih q).bind fun _ => reports_pure _
    · exact reports_fault _
  | case2 => exact reports_fault _
  | case3 => exact (reports_orFault _).bind fun _ => reports_pure _

section Rules

variable {run : Inliner} (h : ∀ e env, (run e env).Reports ks) (m : Mark) (x : String)
  (env : InlineEnv)
include h

theorem reports_inlinePut (v b : Expr) : (inlinePut run x v b env).Reports ks :=
  (reports_enter _ _ _).bind fun _ => (reports_scope _ _).bind fun _ => h _ _

theorem reports_inlineApp (f a : Expr) : (inlineApp run m f a env).Reports ks := by
  refine (h _ _).bind fun f => (h _ _).bind fun a => ?_
  cases f.function? with
  | none => exact reports_pure _
  | some p => exact (reports_note _).bind fun _ => reports_inlinePut h _ _ _ _

theorem reports_inlineLet (v b : Expr) : (inlineLet run m x v b env).Reports ks := by
  refine (h _ _).bind fun v => (reports_orFault _).bind fun t => ?_
  split
  · exact (reports_note _).bind fun _ => reports_inlinePut h _ _ _ _
  · exact (reports_enter _ _ _).bind fun _ => (reports_scope _ _).bind fun _ =>
      (h _ _).bind fun _ => reports_letOver _ _ _ _

theorem reports_inlineLetRec (v b : Expr) : (inlineLetRec run m x v b env).Reports ks :=
  (reports_enter _ _ _).bind fun _ => (reports_scope _ _).bind fun _ =>
    (reports_scope _ _).bind fun _ => (h _ _).bind fun _ => (h _ _).bind fun _ => reports_pure _

theorem reports_inlineStep (e : Expr) : (inlineStep run e env).Reports ks := by
  unfold inlineStep
  split
  · exact reports_fault _
  split
  · exact reports_pure _
  · exact reports_pure _
  · exact reports_pure _
  · exact reports_pure _
  · exact (reports_enter _ _ _).bind fun _ => (reports_scope _ _).bind fun _ =>
      (h _ _).bind fun _ => reports_pure _
  · exact reports_inlineApp h _ _ _ _
  · exact reports_inlineLetRec h _ _ _ _ _
  · exact (reports_rotate _ _ _ _ _ _ _).bind fun _ => h _ _
  · exact reports_inlineLet h _ _ _ _ _
  · exact (h _ _).bind fun _ => (h _ _).bind fun _ => reports_pure _
  · exact (h _ _).bind fun _ => (h _ _).bind fun _ => (h _ _).bind fun _ => reports_pure _

end Rules

theorem reports_inlineIn (depth : Nat) (e : Expr) (env : InlineEnv) :
    (inlineIn depth e env).Reports [] := by
  induction depth generalizing e env with
  | zero => exact reports_fault _
  | succ depth ih => exact reports_inlineStep ih env e

end Expr
end LetLower
