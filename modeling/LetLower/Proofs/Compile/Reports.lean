import LetLower.Proofs.Code.Reports
import LetLower.Proofs.Compile
import LetLower.Proofs.Flatten

/-!
# What compilation reports

Wherever the predefined function stands in a program, inference marks it with its type, and inlining
takes the mark along. So a `let` whose value comes down to that function has a function for its
value, and is taken out. No name is then without a slot when the program is lowered.
-/

namespace LetLower

open LetLower.Expr Pass

namespace Expr

variable {env : TyEnv} {e typed d flat : Expr} {x : String} {t u : Ty} {k : Nat}

theorem IsDerivation.eachFree (h : e.IsDerivation env t) (hu : u.IsPlain)
    (hx : ∀ c, env.get? x = some c → c = .mono u) : e.EachFree (fun _ m => m.ty = some u) x k := by
  have hinsert : ∀ {env : TyEnv} {y : String} {c : Scheme}, y ≠ x →
      (∀ c, env.get? x = some c → c = .mono u) →
      ∀ c', Bindings.get? (env.insert y c) x = some c' → c' = .mono u := by
    intro env y c hy h c' hc'
    rw [Bindings.get?_insert, if_neg (Ne.symm hy)] at hc'
    exact h c' hc'
  unfold IsDerivation at h
  induction h generalizing k with
  | int | bool => trivial
  | var hm hget hinst =>
    rintro rfl
    rw [hx _ hget, Scheme.hasInstance_mono_iff hu] at hinst
    rw [hm, hinst]
  | @lam _ _ y _ _ _ _ _ _ ih =>
    by_cases hy : y = x
    · exact .inl hy
    · exact .inr (ih (hinsert hy hx))
  | app _ _ _ ihf iha => exact ⟨ihf hx, iha hx⟩
  | @letIn _ _ y _ _ _ _ _ _ _ ihv ihb =>
    refine ⟨ihv hx, ?_⟩
    by_cases hy : y = x
    · exact .inl hy
    · exact .inr (ihb (hinsert hy hx))
  | @letRec _ _ y _ _ _ _ _ _ _ _ ihv ihb =>
    by_cases hy : y = x
    · exact .inl hy
    · exact .inr ⟨ihv (hinsert hy hx), ihb (hinsert hy hx)⟩
  | binary _ _ _ ihl ihr => exact ⟨ihl hx, ihr hx⟩
  | cond _ _ _ _ ihc iht ihe => exact ⟨ihc hx, iht hx, ihe hx⟩

theorem ty?_of_endsIn (h : e.EndsIn x) (he : e.Everywhere IsFinished)
    (hx : e.EachFree (fun _ m => m.ty = some u) x k) : e.ty? = some u := by
  induction e generalizing k with
  | var => exact hx h
  | letIn m y v b _ ihb =>
    obtain ⟨hself, _, hbody⟩ := everywhere_letIn.1 he
    exact hself.marksBody.trans (ihb h.2 hbody (hx.2.resolve_left h.1))
  | int | bool | lam | app | letRec | binary | cond | bare => exact h.elim

/-- In an inlined tree no `let` binds a name that is marked with the type of a function. -/
theorem neverBinds (hu : u.isFunction) (he : e.Everywhere IsFinished)
    (hx : e.EachFree (fun _ m => m.ty = some u) x k) : e.NeverBinds x := by
  induction e generalizing k with
  | int | bool | var | bare => trivial
  | lam m y b ih => exact hx.imp_right fun hx => ih (everywhere_lam.1 he).2 hx
  | app m a b iha ihb =>
    obtain ⟨_, ha, hb⟩ := everywhere_app.1 he
    exact ⟨iha ha hx.1, ihb hb hx.2⟩
  | letIn m y v b ihv ihb =>
    obtain ⟨hself, hv, hb⟩ := everywhere_letIn.1 he
    refine ⟨⟨fun hends => ?_, ihv hv hx.1⟩, hx.2.imp_right fun hx => ihb hb hx⟩
    have hdata : v.ty?.any Ty.isFunction = false := hself.settled.2
    rw [ty?_of_endsIn hends hv hx.1, Option.any_some, hu] at hdata
    cases hdata
  | letRec m y v b ihv ihb =>
    obtain ⟨_, hv, hb⟩ := everywhere_letRec.1 he
    exact hx.imp_right fun hx => ⟨ihv hv hx.1, ihb hb hx.2⟩
  | binary m op a b iha ihb =>
    obtain ⟨_, ha, hb⟩ := everywhere_binary.1 he
    exact ⟨iha ha hx.1, ihb hb hx.2⟩
  | cond m a b c iha ihb ihc =>
    obtain ⟨_, ⟨ha, hb⟩, hc⟩ := everywhere_cond.1 he
    exact ⟨iha ha hx.1, ihb hb hx.2.1, ihc hc hx.2.2⟩

theorem Flattens.neverBinds (h : Flattens env e typed d flat) (henv : env.IsBuiltin) :
    flat.NeverBinds addName := by
  obtain ⟨a, ha⟩ := h.exists_isDerivation henv.isClosed
  have htyped : typed.EachFree (fun _ m => m.ty = some TyEnv.sumTy) addName 0 :=
    ha.eachFree (by decide) fun c hc => (henv _ c hc).2
  rw [neverBinds_congr h.flat_untyped]
  exact Expr.neverBinds rfl h.finished (h.inlined.eachFree_of_empty (fun _ hm => hm) htyped)

end Expr

theorem Pass.Reports.notingFailure {α : Type} {x : Pass α} {ks : List DiagnosticKind}
    (h : x.Reports ks) : (Options.notingFailure x).Reports ks := by
  intro s d t hx
  unfold Options.notingFailure at hx
  split at hx
  · rename_i hs
    rcases bind_error.1 hx with hx | ⟨_, _, _, hx⟩
    · cases hx
    · cases hx
      exact h _ _ _ hs
  · exact h _ _ _ hx

variable {c : Config} {e : Expr} {names : NameSupply} {depth : Nat}

theorem reports_flatten (hc : c.validate = .ok ()) :
    (({ config := c, depth } : Options).flatten e).Reports typingKinds := by
  unfold Options.flatten
  rw [hc]
  refine (reports_pure ()).bind fun _ => (reports_orFault _).bind fun env =>
    (reports_inferTypes e env).bind fun typed => (reports_orFault _).bind fun t => ?_
  refine (reports_orFault _).bind fun _ => (reports_note _).bind fun _ =>
    (reports_note _).bind fun _ => ?_
  exact ((reports_inlineIn depth typed ∅).mono (List.nil_subset _)).bind fun d =>
    (reports_note _).bind fun _ => reports_inferTypes _ env

/-- A program without marks in its names is compiled, or a mistake of typing is reported, or that
part of it has no code. No name is reported as missing a slot. -/
theorem compile_reports {d : Diagnostic} (hc : c.validate = .ok ()) (he : e.HasPlainNames)
    (h : ((({ config := c, depth } : Options).compile e).run names).1 = .error (.diagnostic d)) :
    d.kind ∈ [.undefinedVariable, .typeMismatch, .infiniteType, .unsupportedConstruct] := by
  refine Reports.run ((Reports.notingFailure ?_).bind fun m =>
    (reports_note _).bind fun _ => reports_pure m) h
  refine ((reports_flatten hc).mono (List.subset_append_left _ _)).bind_ok fun flat s s' hflat => ?_
  obtain ⟨env, typed, d, _, _, _, hbuiltin, _, _, hstages⟩ := flattens_of_ok he hflat
  obtain ⟨_, r, _, hr, rfl⟩ := hstages.again
  have hflat := hr.isDerivation hbuiltin.isClosed
  exact (hflat.reports_lower hbuiltin (hstages.neverBinds hbuiltin) _ _).mono (by decide)

-- the evaluation below runs through a recursion on the size of the tree
attribute [local semireducible] letOver

/-- Below a `let` the predefined function stands without its arguments. -/
theorem compile_reports_sum_below_let :
    let e : Expr := .app {} (.app {} (.letIn {} "x" (.int {} 1) (.var {} "add")) (.int {} 2))
      (.int {} 3)
    let c : Config := {}
    c.validate = .ok () ∧ e.HasPlainNames ∧
      ∃ d, ((({ config := c, depth := 9 } : Options).compile e).run {}).1 =
        .error (.diagnostic d) ∧ d.kind = .unsupportedConstruct ∧
        d.kind ∈ [.undefinedVariable, .typeMismatch, .infiniteType, .unsupportedConstruct] := by
  intro e c
  have hc : c.validate = .ok () := validate_default (by decide)
  have he : e.HasPlainNames := by decide
  have hrun : ∃ d, ((({ config := c, depth := 9 } : Options).compile e).run {}).1 =
      .error (.diagnostic d) ∧ d.kind = .unsupportedConstruct := by
    simp only [Options.compile, Options.flatten, hc]
    exact ⟨_, by cbv, rfl⟩
  obtain ⟨d, hd, hkind⟩ := hrun
  exact ⟨hc, he, d, hd, hkind, compile_reports hc he hd⟩

end LetLower
