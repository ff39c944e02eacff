import LetLower.Proofs.Code.Lower
import LetLower.Proofs.Expr.Marks
import LetLower.Proofs.Infer.Derivation
import LetLower.Proofs.Reports
import LetLower.Proofs.Ty.Unify
import LetLower.Proofs.Typing.Residual
import LetLower.Proofs.Typing.Transport

/-!
# What lowering reports

Lowering goes into a part only through `let`s and sums, so it has passed the binder of every name
that it meets, and the binder has a slot. The predefined function is the only name without a binder.
It is no operand of a sum, by its type, so it can be met without its arguments only where a `let`
binds it. Where that does not happen, no name is reported as missing.
-/

namespace LetLower

open LetLower.Expr Pass

namespace Expr

/-- Below some `let`s the tree is the free name. -/
def EndsIn (x : String) : Expr → Prop
  | var _ y => y = x
  | letIn _ y _ b => y ≠ x ∧ b.EndsIn x
  | _ => False

/-- No `let` in the tree binds what ends in the free name. -/
def NeverBinds (x : String) : Expr → Prop
  | letIn _ y v b => (¬ v.EndsIn x ∧ v.NeverBinds x) ∧ (y = x ∨ b.NeverBinds x)
  | lam _ y b => y = x ∨ b.NeverBinds x
  | letRec _ y v b => y = x ∨ v.NeverBinds x ∧ b.NeverBinds x
  | app _ a b | binary _ _ a b => a.NeverBinds x ∧ b.NeverBinds x
  | cond _ a b c => a.NeverBinds x ∧ b.NeverBinds x ∧ c.NeverBinds x
  | int .. | bool .. | var .. | bare _ => True

variable {x : String} {e e' : Expr}

theorem endsIn_mapMark (f : Mark → Mark) (e : Expr) : (e.mapMark f).EndsIn x ↔ e.EndsIn x := by
  induction e <;> simp_all only [mapMark, EndsIn]

theorem neverBinds_mapMark (f : Mark → Mark) (e : Expr) :
    (e.mapMark f).NeverBinds x ↔ e.NeverBinds x := by
  induction e <;> simp_all only [mapMark, NeverBinds, endsIn_mapMark]

theorem neverBinds_congr (h : e'.untyped = e.untyped) : e'.NeverBinds x ↔ e.NeverBinds x :=
  calc e'.NeverBinds x ↔ e'.untyped.NeverBinds x := (neverBinds_mapMark _ e').symm
    _ ↔ e.untyped.NeverBinds x := by rw [h]
    _ ↔ e.NeverBinds x := neverBinds_mapMark _ e

end Expr

/-- Every name of the environment has a slot, unless it is the predefined function. -/
def Scope.Provides (scope : Scope) (env : TyEnv) : Prop :=
  ∀ x c, env.get? x = some c → x ∈ scope ∨ x = addName ∧ c = .mono TyEnv.sumTy

namespace Scope.Provides

variable {scope : Scope} {env : TyEnv}

theorem of_isBuiltin (h : env.IsBuiltin) (scope : Scope) : scope.Provides env :=
  fun x c hx => .inr (h x c hx)

theorem insert (h : scope.Provides env) (x : String) (c : Scheme) (i : Nat) :
    Scope.Provides (scope.insert x i) (env.insert x c) := by
  intro y c' hy
  rw [Bindings.mem_insert]
  rw [Bindings.get?_insert] at hy
  split at hy
  · exact .inl (.inl ‹_›)
  · exact (h y c' hy).imp_left .inr

theorem eq_sumTy (h : scope.Provides env) {m : Mark} {t : Ty}
    (ht : (var m x).IsDerivation env t) (hx : x ∉ scope) : x = addName ∧ t = TyEnv.sumTy := by
  cases ht with | var _ hget hinst =>
  obtain ⟨rfl, rfl⟩ := (h _ _ hget).resolve_left hx
  exact ⟨rfl, (Scheme.hasInstance_mono_iff (by decide)).1 hinst⟩

end Scope.Provides

namespace Expr

variable {slot : SlotType} {env : TyEnv} {e : Expr} {t : Ty} {layout : Layout} {scope : Scope}

theorem reports_unsupported (e : Expr) : (unsupported e).Reports [.unsupportedConstruct] := by
  refine (reports_orFault _).bind_ok fun d s t hd => reports_report ?_
  obtain ⟨hd, _⟩ := orFault_ok.1 hd
  exact List.mem_singleton.2 (Diagnostic.kind_unsupportedConstruct hd)

/-- Names are looked up where they have slots, if the predefined function is not bound by a `let`
without its arguments and the whole is not that function. -/
theorem IsDerivation.reports_lowerIn (h : e.IsDerivation env t) (hscope : scope.Provides env)
    (hbinds : addName ∈ scope ∨ e.NeverBinds addName)
    (hends : addName ∈ scope ∨ t.isFunction = false ∨ ¬ e.EndsIn addName) :
    (e.lowerIn slot layout scope).Reports [.unsupportedConstruct] := by
  fun_induction lowerIn slot e layout scope generalizing env t with
  | case1 => exact reports_pure _
  | case2 => exact reports_pure _
  | case3 => exact reports_pure _
  | case4 loc u x layout scope hx =>
    have hx := Bindings.get?_eq_none_iff.1 hx
    obtain ⟨rfl, rfl⟩ := hscope.eq_sumTy h hx
    rcases hends.resolve_left hx with hends | hends
    · cases hends
    · exact absurd rfl hends
  | case5 loc u x v b layout scope ihv ihb =>
    cases h with | letIn _ hv hb =>
    have hbody : ∀ {i : Nat} {p : Prop}, addName ∈ scope ∨ x = addName ∨ p →
        addName ∈ Bindings.insert scope x i ∨ p := fun h =>
      (or_assoc.2 h).imp_left fun h => Bindings.mem_insert.2 (h.symm.imp_left Eq.symm)
    have hend : addName ∈ scope ∨ x = addName ∨ t.isFunction = false ∨ ¬ b.EndsIn addName := by
      refine hends.imp_right fun h => or_iff_not_imp_left.2 fun hx => ?_
      exact h.imp_right fun h hb => h ⟨hx, hb⟩
    refine (ihv hv hscope (hbinds.imp_right fun h => h.1.2)
      (hbinds.imp_right fun h => .inr h.1.1)).bind fun _ => (reports_note _).bind fun _ => ?_
    exact (ihb _ _ hb (hscope.insert x _ _) (hbody (hbinds.imp_right And.right))
      (hbody hend)).bind fun _ => reports_pure _
  | case6 loc u l r layout scope ihl ihr =>
    cases h with | binary _ hl hr =>
    exact (ihl hl hscope (hbinds.imp_right And.left) (.inr (.inl rfl))).bind fun _ =>
      (ihr _ hr hscope (hbinds.imp_right And.right) (.inr (.inl rfl))).bind fun _ =>
        reports_pure _
  | case7 loc u loc' u' loc'' u'' x l r layout scope hx ihl ihr =>
    cases h with | app _ hf hr =>
    cases hf with | app _ hg hl =>
    obtain ⟨_, hsum⟩ := hscope.eq_sumTy hg hx.2
    cases hsum
    exact (ihl hl hscope (hbinds.imp_right fun h => h.1.2) (.inr (.inl rfl))).bind fun _ =>
      (ihr _ hr hscope (hbinds.imp_right And.right) (.inr (.inl rfl))).bind fun _ =>
        reports_pure _
  | case8 => exact reports_unsupported _
  | case9 => exact reports_unsupported _

theorem IsDerivation.entry_ok (h : e.IsDerivation env t) (henv : env.IsPlain) {body : Expr}
    {s s' : PassState} (hentry : e.entry slot s = .ok (layout, scope, body) s') :
    (scope = ∅ ∧ body = e ∧ t.isFunction = false) ∨
      ∃ m x a r, e = lam m x body ∧ scope = .single x 0 ∧
        body.IsDerivation (env.insert x (.mono a)) r ∧ r.isFunction = false := by
  have hplain : t.IsPlain := Derives.isPlain h henv
  unfold entry at hentry
  split at hentry
  · rename_i loc u x b
    obtain ⟨_, _, hu, hentry⟩ := bind_ok.1 hentry
    obtain ⟨hentry, _⟩ := pure_ok.1 hentry
    cases hentry
    cases h with | @lam _ _ _ _ a r hm _ hb =>
    cases hm
    have hunifies := (Ty.unifies_of_unify hplain (by decide) (unify_ok hu).1).mostGeneral.unifies
    exact .inr ⟨_, x, a, r, rfl, rfl, hb, Ty.isFunction_of_bind (Ty.fn.inj hunifies).2⟩
  · obtain ⟨u, _, hu, hentry⟩ := bind_ok.1 hentry
    obtain ⟨_, _, hu', hentry⟩ := bind_ok.1 hentry
    obtain ⟨hentry, _⟩ := pure_ok.1 hentry
    cases hentry
    obtain ⟨hu, _⟩ := orFault_ok.1 hu
    obtain rfl : u = t := Option.some.inj ((ty?_of_getTy hu).symm.trans h.ty?_eq)
    have hunifies := (Ty.unifies_of_unify hplain (by decide) (unify_ok hu').1).mostGeneral.unifies
    exact .inl ⟨rfl, rfl, Ty.isFunction_of_bind hunifies⟩

theorem reports_entry (e : Expr) : (e.entry slot).Reports typingKinds := by
  unfold entry
  split
  · exact (reports_unify _ _ _).bind fun _ => reports_pure _
  · exact (reports_orFault _).bind fun _ => (reports_unify _ _ _).bind fun _ => reports_pure _

/-- A program in which no `let` binds the predefined function itself is lowered, or its type is
wrong, or part of it has no code. -/
theorem IsDerivation.reports_lower (h : e.IsDerivation env t) (henv : env.IsBuiltin)
    (hbinds : e.NeverBinds addName) (name : String) (exported : Bool) :
    (e.lower slot name exported).Reports (.unsupportedConstruct :: typingKinds) := by
  refine ((reports_entry e).mono (List.subset_cons_self _ _)).bind_ok ?_
  rintro ⟨layout, scope, body⟩ s s' hentry
  have hbody : (body.lowerIn slot layout scope).Reports [.unsupportedConstruct] := by
    rcases h.entry_ok (fun x c hx => (henv.isClosed x c hx).2) hentry with
      ⟨rfl, rfl, ht⟩ | ⟨m, x, a, r, rfl, rfl, hb, hr⟩
    · exact h.reports_lowerIn (.of_isBuiltin henv _) (.inr hbinds) (.inr (.inl ht))
    · exact hb.reports_lowerIn ((Scope.Provides.of_isBuiltin henv ∅).insert x _ 0)
        (hbinds.imp_left fun hx => Bindings.mem_single.2 hx.symm) (.inr (.inl hr))
  exact (hbody.mono (List.cons_subset_cons _ (List.nil_subset _))).bind fun _ =>
    (reports_note _).bind fun _ => reports_pure _

end Expr
end LetLower
