import LetLower.Proofs.Infer.Complete
import LetLower.Proofs.Infer.Derivation

/-!
# Principal types

Inference succeeds on every expression that has a type, and of all its types it returns one that the
others are instances of. What the nodes of an expression carry plays no part in this: an expression
has the types of the same expression with nothing marked on it.
-/

namespace LetLower.Expr

open TyEnv

theorem HasType.of_mapMark {f : Mark → Mark} {e : Expr} {env : TyEnv} {t : Ty}
    (h : (e.mapMark f).HasType env t) : e.HasType env t := by
  induction e generalizing env t with
  | int =>
    cases h
    exact .int trivial
  | bool =>
    cases h
    exact .bool trivial
  | var =>
    cases h with
    | var _ hx hc => exact .var trivial hx hc
  | lam m x b ih =>
    cases h with
    | lam _ ha hb => exact .lam trivial ha (ih hb)
  | app m g a ihg iha =>
    cases h with
    | app _ hg ha => exact .app trivial (ihg hg) (iha ha)
  | letIn m x v b ihv ihb =>
    cases h with
    | letIn _ hv hb => exact .letIn trivial (ihv hv) (ihb hb)
  | letRec m x v b ihv ihb =>
    cases h with
    | letRec _ ha hv hb => exact .letRec trivial ha (ihv hv) (ihb hb)
  | binary m op l r ihl ihr =>
    cases h with
    | binary _ hl hr => exact .binary trivial (ihl hl) (ihr hr)
  | cond m c y n ihc ihy ihn =>
    cases h with
    | cond _ hc hy hn => exact .cond trivial (ihc hc) (ihy hy) (ihn hn)
  | bare => cases h

theorem HasType.congr {env : TyEnv} {e e' : Expr} {t : Ty} (h : e.HasType env t)
    (he : e'.untyped = e.untyped) : e'.HasType env t := by
  have hu : e.untyped.HasType env t := Derives.mapMark (fun _ _ _ => trivial) h
  rw [← he] at hu
  exact hu.of_mapMark

theorem isDerivation_of_run {e t : Expr} {env : TyEnv} {names : NameSupply} (henv : env.IsClosed)
    (h : ((e.inferTypes env).run names).1 = .ok t) :
    t.untyped = e.untyped ∧ ∃ a, t.IsDerivation env a := by
  obtain ⟨r, s', hr, rfl⟩ := infers_of_run h
  exact ⟨(untyped_substitute _ _).trans hr.untyped_eq, r.ty, hr.isDerivation henv⟩

theorem HasType.exists_run {env : TyEnv} {e : Expr} {t : Ty} (h : e.HasType env t)
    (henv : env.IsClosed) (names : NameSupply) :
    ∃ u a, ((e.inferTypes env).run names).1 = .ok u ∧ u.ty? = some a ∧ t.IsInstanceOf a := by
  obtain ⟨r, s', g, hr, hg, rfl, _⟩ := Derives.infers h (henv.ready names) Ty.isPlain_var
    (henv.covers .var)
  refine ⟨r.completed, r.ty, hr.run, (hr.isDerivation henv).ty?_eq, ?_⟩
  exact Ty.isInstanceOf_bind hg.isPlain (hr.returns (henv.ready names).toUnissued).ty.isPlain

/-- An expression that has a type is inferred, and all its types are instances of the one found,
which is itself one of them. -/
theorem inferTypes_principal {env : TyEnv} {e : Expr} {t : Ty} (h : e.HasType env t)
    (henv : env.IsClosed) (names : NameSupply) :
    ∃ u a, ((e.inferTypes env).run names).1 = .ok u ∧ u.ty? = some a ∧ t.IsInstanceOf a ∧
      e.HasType env a ∧ ∀ b, e.HasType env b → b.IsInstanceOf a := by
  obtain ⟨u, a, hu, ha, ht⟩ := h.exists_run henv names
  obtain ⟨hut, a', hd⟩ := isDerivation_of_run henv hu
  obtain rfl : a' = a := Option.some.inj (hd.ty?_eq.symm.trans ha)
  refine ⟨u, a', hu, ha, ht, hd.hasType.congr hut.symm, fun b hb => ?_⟩
  obtain ⟨u', b', hu', hb', hbi⟩ := hb.exists_run henv names
  obtain rfl : u = u' := Except.ok.inj (hu.symm.trans hu')
  obtain rfl : a' = b' := Option.some.inj (ha.symm.trans hb')
  exact hbi

theorem inferTypes_principal_self_application :
    let e : Expr := .letIn {} "f" (.lam {} "x" (.var {} "x")) (.app {} (.var {} "f") (.var {} "f"))
    let t : Ty := .fn .int .int
    e.HasType ∅ t ∧ TyEnv.IsClosed ∅ ∧
      ∃ u a, ((e.inferTypes ∅).run {}).1 = .ok u ∧ u.ty? = some a ∧ t.IsInstanceOf a ∧
        e.HasType ∅ a ∧ ∀ b, e.HasType ∅ b → b.IsInstanceOf a := by
  intro e t
  have henv : TyEnv.IsClosed ∅ := fun x _ h => by
    rw [Bindings.get?_empty] at h
    cases h
  let a : Ty := .var "a"
  let c : Scheme := TyEnv.generalize ∅ (.fn a a)
  have ha : "a" ∈ c.bound := by decide
  have hf (u : Ty) (hu : u.IsPlain) :
      (Expr.var {} "f").HasType (Bindings.insert ∅ "f" c) (.fn u u) := by
    refine .var trivial rfl ⟨.single "a" u, Subst.isPlain_single hu, fun x hx => ?_, rfl⟩
    rw [List.mem_singleton.1 hx]
    exact ha
  have h : e.HasType ∅ t :=
    .letIn (a := .fn a a) trivial
      (.lam trivial trivial (.var trivial rfl (Scheme.hasInstance_mono a)))
      (.app trivial (hf t ⟨trivial, trivial⟩) (hf .int trivial))
  exact ⟨h, henv, inferTypes_principal h henv {}⟩

end LetLower.Expr
