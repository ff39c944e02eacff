import LetLower.Proofs.Flatten
import LetLower.Proofs.Compile
import LetLower.Proofs.Inline.Alike
import LetLower.Proofs.Code.Alike

/-!
# Compilation does not depend on names

Neither the names of binders nor the names that the supply hands out can be seen in what compilation
returns. Two compilations, of programs that are equal up to the names of binders and from any two
supplies, go in step through all the stages: what they hand on differs in names only, and lowering
leaves no names in the code.
-/

namespace LetLower

open LetLower.Expr Pass

namespace Pass

variable {α β : Type} {F F' : Failure → Failure → Prop}
  {R : α → NameSupply → β → NameSupply → Prop} {x : Pass α} {y : Pass β} {s s' t : NameSupply}
  {a : α}

theorem Agree.of_gives (h : Agree F R x s y s') (hx : x.Gives s a t) : Agree F' R x s y s' := by
  intro log log'
  have hrun := h log log'
  obtain ⟨_, hx⟩ := hx log
  rw [hx] at hrun ⊢
  generalize y ⟨s', log'⟩ = r at hrun ⊢
  cases hrun with
  | ok h => exact .ok h

theorem Agree.notingFailure (h : Agree Failure.SameKind R x s y s') :
    Agree Failure.SameKind R (Options.notingFailure x) s (Options.notingFailure y) s' := by
  intro log log'
  have hrun := h log log'
  unfold Options.notingFailure
  generalize x ⟨s, log⟩ = r at hrun ⊢
  generalize y ⟨s', log'⟩ = r' at hrun ⊢
  cases hrun with
  | ok h => exact .ok h
  | error h =>
    obtain ⟨d, d', rfl, rfl, hk⟩ := h
    exact .error ⟨d, d', rfl, rfl, hk⟩

end Pass

variable {e e' : Expr} {c : Config}

theorem exists_depth {env : TyEnv} (henv : env.IsClosed) (he : e.HasPlainNames) (s : NameSupply) :
    ∃ n, ∀ r t, Infers env e s r t → ∃ d t', ∀ depth, n ≤ depth →
      (inlineIn depth r.completed ∅).Gives t d t' := by
  by_cases hr : ∃ r t, Infers env e s r t
  · obtain ⟨r, t, hr⟩ := hr
    obtain ⟨d, t', n, hends⟩ := hr.exists_ends he henv
    refine ⟨n, fun r' t₁ hr' => ?_⟩
    obtain ⟨rfl, rfl⟩ := hr.unique hr'
    exact ⟨d, t', hends⟩
  · exact ⟨0, fun r t h => absurd ⟨r, t, h⟩ hr⟩

theorem flatten_agree (hc : c.validate = .ok ()) {μ : Mark → Mark → Prop} (h : e.Alike μ Eq e')
    (he : e.HasPlainNames) (he' : e'.HasPlainNames) (s s' : NameSupply) :
    ∃ n, ∀ depth, n ≤ depth →
      Agree Failure.SameKind
        (fun flat _ flat' _ => ∃ ρ, Relator.BiUnique ρ ∧ flat.Alike (Mark.Alike ρ) Eq flat')
        (({ config := c, depth } : Options).flatten e) s
        (({ config := c, depth } : Options).flatten e') s' := by
  obtain ⟨env, henv, hbuiltin⟩ := Config.exists_environment hc
  have hclosed := hbuiltin.isClosed
  obtain ⟨n, hn⟩ := exists_depth hclosed he s
  refine ⟨n, fun depth hdepth => ?_⟩
  unfold Options.flatten Options.environment
  simp only [hc, henv]
  refine (gives_pure _ s).bind_agree (gives_pure _ s') ?_
  refine (gives_pure env s).bind_agree (gives_pure env s') ?_
  refine (h.inferTypes_agree hclosed s s').bind ?_
  rintro typed t typed' t' hrun hrun' ⟨ρ, _, htyped⟩
  obtain ⟨r, hr, rfl⟩ := infers_of_returns_inferTypes hrun
  obtain ⟨r', hr', rfl⟩ := infers_of_returns_inferTypes hrun'
  obtain ⟨a, a', ha, ha', haa⟩ := htyped.exists_getTy
  have hrender : a.render? = .ok a.render := if_pos haa.isPlain.isKnown
  have hrender' : a'.render? = .ok a'.render := if_pos haa.symm.isPlain.isKnown
  rw [ha, ha']
  refine (gives_pure a t).bind_agree (gives_pure a' t') ?_
  rw [hrender, hrender']
  refine (gives_pure _ t).bind_agree (gives_pure _ t') ?_
  refine (gives_note _ t).bind_agree (gives_note _ t') ?_
  refine (gives_note _ t).bind_agree (gives_note _ t') ?_
  have hplain : r.completed.HasPlainNames := he.congr hr.untyped_completed
  have hplain' : r'.completed.HasPlainNames := he'.congr hr'.untyped_completed
  have hin : Inlinable ∅ r.completed t :=
    ⟨.empty t, .empty, hplain.not_marks t, htyped.isAnnotated⟩
  have hin' : Inlinable ∅ r'.completed t' :=
    ⟨.empty t', .empty, hplain'.not_marks t',
      (htyped.symm.monoMark fun _ _ => Mark.Alike.flip).isAnnotated⟩
  have hempty : InlineEnv.Alike ρ Eq Eq ∅ ∅ := fun u v huv =>
    .inl ⟨Bindings.not_mem_empty u, Bindings.not_mem_empty v, huv⟩
  obtain ⟨d, t₁, hgives⟩ := hn r t hr
  refine ((htyped.inlineIn_agree hin hin' hempty).of_gives (hgives depth hdepth)).bind ?_
  rintro d t₁ d' t₁' hrun hrun' hd
  refine (gives_note _ t₁).bind_agree (gives_note _ t₁') ?_
  have hstrip : d.strip.Alike (fun _ _ => True) Eq d'.strip := by
    rw [strip_of_isAnnotated hd.isAnnotated,
      strip_of_isAnnotated (hd.symm.monoMark fun _ _ => Mark.Alike.flip).isAnnotated]
    exact hd.mapMark fun _ _ _ => trivial
  exact hstrip.inferTypes_agree hclosed t₁ t₁'

theorem compile_agree (hc : c.validate = .ok ()) {μ : Mark → Mark → Prop} (h : e.Alike μ Eq e')
    (he : e.HasPlainNames) (he' : e'.HasPlainNames) (s s' : NameSupply) :
    ∃ n, ∀ depth, n ≤ depth →
      Agree Failure.SameKind (fun m _ m' _ => m = m')
        (({ config := c, depth } : Options).compile e) s
        (({ config := c, depth } : Options).compile e') s' := by
  obtain ⟨n, hn⟩ := flatten_agree hc h he he' s s'
  refine ⟨n, fun depth hdepth => ?_⟩
  unfold Options.compile
  refine (Agree.notingFailure ((hn depth hdepth).bind (Q := fun m _ m' _ => m = m') ?_)).bind ?_
  · rintro flat t flat' t' _ _ ⟨ρ, hρ, hflat⟩
    exact hflat.lower_agree hρ t t'
  · rintro m t _ t' _ _ rfl
    exact (gives_note _ t).bind_agree (gives_note _ t') (agree_pure rfl)

/-- Programs that are equal up to the names of binders are compiled to one module, or refused for
the same kind of mistake. -/
theorem compile_alphaEq (hc : c.validate = .ok ()) (h : AlphaEq e e') (hk : e.isKnown)
    (he : e.HasPlainNames) (he' : e'.HasPlainNames) (names : NameSupply) :
    ∃ n, ∀ depth, n ≤ depth →
      Matches Failure.SameKind Eq
        ((({ config := c, depth } : Options).compile e).run names).1
        ((({ config := c, depth } : Options).compile e').run names).1 := by
  obtain ⟨n, hn⟩ := compile_agree hc (h.alike hk) he he' names names
  exact ⟨n, fun depth hdepth => (hn depth hdepth).run⟩

/-- A binder may take the name of a predefined function, and two may share one name. -/
theorem compile_alphaEq_shadowing :
    let e : Expr := .letIn {} "f" (.lam {} "x" (.binary {} .add (.var {} "x") (.int {} 1)))
      (.letIn {} "y" (.app {} (.var {} "f") (.int {} 2)) (.app {} (.var {} "f") (.var {} "y")))
    let e' : Expr := .letIn {} "add" (.lam {} "add" (.binary {} .add (.var {} "add") (.int {} 1)))
      (.letIn {} "x" (.app {} (.var {} "add") (.int {} 2)) (.app {} (.var {} "add") (.var {} "x")))
    let c : Config := {}
    c.validate = .ok () ∧ AlphaEq e e' ∧ e.isKnown ∧ e.HasPlainNames ∧ e'.HasPlainNames ∧
      ∃ n, ∀ depth, n ≤ depth →
        Matches Failure.SameKind Eq
          ((({ config := c, depth } : Options).compile e).run {}).1
          ((({ config := c, depth } : Options).compile e').run {}).1 := by
  intro e e' c
  have hc : c.validate = .ok () := validate_default (by decide)
  have h : AlphaEq e e' := by decide
  have hk : e.isKnown := by decide
  have he : e.HasPlainNames := by decide
  have he' : e'.HasPlainNames := by decide
  exact ⟨hc, h, hk, he, he', compile_alphaEq hc h hk he he' {}⟩

/-- The supply leaves no trace: from any two supplies a program is compiled to one module, or
refused for the same kind of mistake. -/
theorem compile_independent_of_supply (hc : c.validate = .ok ()) (hk : e.isKnown)
    (he : e.HasPlainNames) (names names' : NameSupply) :
    ∃ n, ∀ depth, n ≤ depth →
      Matches Failure.SameKind Eq
        ((({ config := c, depth } : Options).compile e).run names).1
        ((({ config := c, depth } : Options).compile e).run names').1 := by
  obtain ⟨n, hn⟩ := compile_agree hc ((AlphaEq.refl e).alike hk) he he names names'
  exact ⟨n, fun depth hdepth => (hn depth hdepth).run⟩

/-- The variables of a scheme are instantiated in the order of their texts, and that is another one
when the counter passes from nine to ten between them. -/
theorem compile_independent_of_supply_crossing_ten :
    let e : Expr := .letIn {} "f" (.lam {} "x" (.lam {} "y" (.var {} "x")))
      (.letIn {} "y" (.app {} (.app {} (.var {} "f") (.int {} 2)) (.var {} "add")) (.var {} "y"))
    let c : Config := {}
    let names : NameSupply := { stem := "a", next := 9 }
    c.validate = .ok () ∧ e.isKnown ∧ e.HasPlainNames ∧
      ∃ n, ∀ depth, n ≤ depth →
        Matches Failure.SameKind Eq
          ((({ config := c, depth } : Options).compile e).run {}).1
          ((({ config := c, depth } : Options).compile e).run names).1 := by
  intro e c names
  have hc : c.validate = .ok () := validate_default (by decide)
  have hk : e.isKnown := by decide
  have he : e.HasPlainNames := by decide
  exact ⟨hc, hk, he, compile_independent_of_supply hc hk he {} names⟩

end LetLower
