import LetLower.Proofs.Code.Lower
import LetLower.Proofs.Ty.Unify
import LetLower.Proofs.Typing.Residual

/-!
# Lowering residual programs

Where no `let` binds a function, a residual program has code exactly if no `let` yields one. The
predefined function then always stands in front of both its arguments, and every other name has a
slot. A `let` that yields a function is applied somewhere, and that is the one thing that is
reported.
-/

namespace LetLower

open LetLower.Expr Pass

/-- The names of values are those that have a slot, and no other function than the predefined one
has a name. -/
structure Scope.Covers (scope : Scope) (env : TyEnv) : Prop where
  mem_iff : ∀ x t, env.get? x = some (.mono t) → (x ∈ scope ↔ t.isFunction = false)
  sum : env.BindsSum

namespace Scope.Covers

variable {scope : Scope} {env : TyEnv} {t : Ty} {x : String}

theorem empty (h : env.IsBuiltin) : Scope.Covers ∅ env := by
  refine ⟨fun x t hx => ?_, h.bindsSum⟩
  obtain ⟨_, ht⟩ := h x _ hx
  cases ht
  exact ⟨fun hm => absurd hm (Bindings.not_mem_empty x), fun hf => nomatch hf⟩

theorem insert (h : scope.Covers env) (ht : t.isFunction = false) (x : String) (i : Nat) :
    Scope.Covers (scope.insert x i) (env.insert x (.mono t)) := by
  refine ⟨fun y u hy => ?_, h.sum.insert ht x⟩
  rw [Bindings.mem_insert]
  rw [Bindings.get?_insert] at hy
  split at hy
  · rename_i hyx
    cases hy
    exact ⟨fun _ => ht, fun _ => .inl hyx⟩
  · rename_i hyx
    rw [← h.mem_iff y u hy]
    exact ⟨fun hm => hm.resolve_left hyx, .inr⟩

end Scope.Covers

theorem Mark.eq_of_ty {m : Mark} {t : Ty} (h : m.ty = some t) : m = ⟨m.loc, some t⟩ := by
  rw [← h]

namespace Expr

variable {slot : SlotType} {env : TyEnv} {e : Expr} {t : Ty} {layout : Layout} {scope : Scope}

theorem rejects_unsupported (h : e.isKnown) (s : NameSupply) :
    (unsupported e).Rejects s .unsupportedConstruct := by
  obtain ⟨d, hd, hk⟩ := exists_unsupportedConstruct h
  rw [unsupported, hd, ← hk]
  exact (gives_pure d s).bind_rejects (rejects_report s)

theorem yieldsData_sum {m m' m'' : Mark} {x : String} {l r : Expr} :
    (app m (app m' (var m'' x) l) r).YieldsData ↔ l.YieldsData ∧ r.YieldsData := by
  refine everywhere_app.trans ((and_iff_right rfl).trans (and_congr_left fun _ => ?_))
  refine everywhere_app.trans ((and_iff_right rfl).trans (and_iff_right ?_))
  exact List.forall_mem_singleton.2 rfl

/-- A function that is applied to give a value, and is not the predefined one with its first
argument, is yielded by a `let`. -/
theorem IsResidual.not_yieldsData {m : Mark} {f a : Expr} (hf : f.IsResidual env (.fn .int t))
    (henv : env.IsResidual) (ht : t.isFunction = false) (hscope : scope.Covers env)
    (hsum : ∀ loc u loc' u' x l, f ≠ .app ⟨loc, some u⟩ (.var ⟨loc', some u'⟩ x) l) :
    ¬ (Expr.app m f a).YieldsData := by
  intro hy
  obtain ⟨_, hyf, _⟩ := everywhere_app.1 hy
  cases hf with
  | var _ hget =>
    obtain ⟨_, hsumTy⟩ := hscope.sum _ _ hget rfl
    cases hsumTy
    cases ht
  | letIn hm => cases ((yieldsData_letIn hm).1 hyf).1
  | @app _ m' g l _ hm hg hl =>
    obtain ⟨_, hyg, _⟩ := everywhere_app.1 hyf
    cases hg with
    | @var _ m'' x _ hm' hget =>
      obtain ⟨loc, u⟩ := m'
      obtain ⟨loc', u'⟩ := m''
      cases hm
      cases hm'
      exact hsum _ _ _ _ _ _ rfl
    | letIn hm => cases ((yieldsData_letIn hm).1 hyg).1
    | app _ hh _ =>
      cases hh.ty henv

/-- A residual program that has a value, and in which no `let` binds a function, is lowered exactly
if no `let` yields one. -/
theorem IsResidual.lowerIn_requires (h : e.IsResidual env t) (henv : env.IsResidual)
    (ht : t.isFunction = false) (hscope : scope.Covers env) (hdata : e.BindsData)
    (s : NameSupply) :
    (e.lowerIn slot layout scope).Requires s e.YieldsData .unsupportedConstruct := by
  fun_induction lowerIn slot e layout scope generalizing env t s with
  | case1 => exact (gives_pure _ s).requires (List.forall_mem_singleton.2 rfl)
  | case2 => exact (gives_pure _ s).requires (List.forall_mem_singleton.2 rfl)
  | case3 => exact (gives_pure _ s).requires (List.forall_mem_singleton.2 rfl)
  | case4 loc u x layout scope hx =>
    cases h with | var _ hget =>
    have hmem := (hscope.mem_iff x t hget).2 ht
    obtain ⟨i, hi⟩ := Bindings.mem_iff_get?.1 hmem
    rw [hx] at hi
    cases hi
  | case5 loc u x v b layout scope ihv ihb =>
    cases h with | @letIn _ _ _ _ _ a _ hm hv hb =>
    obtain ⟨ha, hdv, hdb⟩ := (bindsData_letIn hv.ty?_eq).1 hdata
    refine ((ihv hv henv ha hscope hdv s).bind ?_).congr
      ((yieldsData_letIn hm).trans (and_iff_right ht))
    rintro ⟨n, layout₁⟩ s₁ _
    refine (gives_note _ s₁).bind_requires ?_
    exact (ihb _ _ hb (henv.insert (hv.ty henv) x) ht (hscope.insert ha x _) hdb s₁).bind_gives
      fun _ s₂ _ => ⟨_, s₂, gives_pure _ s₂⟩
  | case6 loc u l r layout scope ihl ihr =>
    cases h with | sum _ hl hr =>
    obtain ⟨_, hdl, hdr⟩ := everywhere_binary.1 hdata
    refine ((ihl hl henv rfl hscope hdl s).bind ?_).congr
      (everywhere_binary.trans (and_iff_right rfl))
    rintro ⟨n, layout₁⟩ s₁ _
    exact (ihr _ hr henv rfl hscope hdr s₁).bind_gives
      fun _ s₂ _ => ⟨_, s₂, gives_pure _ s₂⟩
  | case7 loc u loc' u' loc'' u'' x l r layout scope hx ihl ihr =>
    cases h with | app _ hf hr =>
    cases hf with | app _ _ hl =>
    obtain ⟨_, hdf, hdr⟩ := everywhere_app.1 hdata
    obtain ⟨_, _, hdl⟩ := everywhere_app.1 hdf
    refine ((ihl hl henv rfl hscope hdl s).bind ?_).congr yieldsData_sum
    rintro ⟨n, layout₁⟩ s₁ _
    exact (ihr _ hr henv rfl hscope hdr s₁).bind_gives fun _ s₂ _ => ⟨_, s₂, gives_pure _ s₂⟩
  | case8 loc u loc' u' loc'' u'' x l r layout scope hx =>
    cases h with | app _ hf hr =>
    cases hf with | app _ hg hl =>
    cases hg with | var _ hget =>
    refine absurd ⟨(hscope.sum x _ hget rfl).1, fun hm => ?_⟩ hx
    cases (hscope.mem_iff x _ hget).1 hm
  | case9 e layout scope hint hbool hvar hlet hsum happ =>
    refine (rejects_unsupported h.isKnown s).requires ?_
    cases h with
    | int hm => exact (hint _ _ _ (by rw [Mark.eq_of_ty hm])).elim
    | bool hm => exact (hbool _ _ _ (by rw [Mark.eq_of_ty hm])).elim
    | var hm => exact (hvar _ _ _ (by rw [Mark.eq_of_ty hm])).elim
    | letIn hm => exact (hlet _ _ _ _ _ (by rw [Mark.eq_of_ty hm])).elim
    | sum hm => exact (hsum _ _ _ _ (by rw [Mark.eq_of_ty hm])).elim
    | app hm hf ha =>
      refine hf.not_yieldsData henv ht hscope ?_
      rintro loc u loc' u' x l rfl
      exact happ _ _ _ _ _ _ _ _ _ (by rw [Mark.eq_of_ty hm])

theorem IsResidual.getTy (h : e.IsResidual env t) : e.getTy = .ok t := by
  cases h with
  | int hm | bool hm | var hm | app hm | letIn hm | sum hm => rw [Mark.eq_of_ty hm]; rfl

theorem IsResidual.isLam (h : e.IsResidual env t) : e.isLam = false := by
  cases h <;> rfl

theorem IsResidual.gives_entry (h : e.IsResidual env .int) (s : NameSupply) :
    (e.entry slot).Gives s ({}, ∅, e) s := by
  obtain ⟨u, hu⟩ := Ty.exists_unify Ty.isPlain_int Ty.isPlain_int (f := Ty.var) rfl
  rw [entry_of_not_isLam h.isLam, h.getTy]
  exact (gives_pure _ s).bind ((gives_unify hu e.loc s).bind (gives_pure _ s))

theorem IsResidual.lower_requires {name : String} {exported : Bool} (h : e.IsResidual env .int)
    (henv : env.IsBuiltin) (hdata : e.BindsData) (s : NameSupply) :
    (e.lower slot name exported).Requires s e.YieldsData .unsupportedConstruct := by
  refine (h.gives_entry s).bind_requires ?_
  exact (h.lowerIn_requires henv.isResidual rfl (.empty henv) hdata s).bind_gives
    fun _ t _ => ⟨_, t, (gives_note _ t).bind (gives_pure _ t)⟩

end Expr
end LetLower
