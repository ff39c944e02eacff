import LetLower.Proofs.Code.Residual
import LetLower.Proofs.Compile
import LetLower.Proofs.Flatten

/-!
# Compilation of straight-line programs

A straight-line program of type int is flattened to a residual one. What can keep that from being
compiled is a `let` that yields a function: the predefined one, with an argument still to come.
There is none if the program itself gives that function both arguments wherever it stands.
-/

namespace LetLower

open LetLower.Expr Pass

namespace Pass

variable {α : Type} {x : Pass α} {s t : NameSupply} {a : α} {p : Prop} {k : DiagnosticKind}

theorem Gives.notingFailure (h : x.Gives s a t) : (Options.notingFailure x).Gives s a t := by
  intro log
  obtain ⟨log', hx⟩ := h log
  refine ⟨log', ?_⟩
  unfold Options.notingFailure
  rw [hx]

theorem Rejects.notingFailure (h : x.Rejects s k) : (Options.notingFailure x).Rejects s k := by
  intro log
  obtain ⟨d, t, hx, hk⟩ := h log
  unfold Options.notingFailure
  rw [hx]
  exact ⟨d, _, rfl, hk⟩

theorem Requires.notingFailure (h : x.Requires s p k) :
    (Options.notingFailure x).Requires s p k where
  gives hp :=
    have ⟨a, t, hx⟩ := h.gives hp
    ⟨a, t, hx.notingFailure⟩
  rejects hp := (h.rejects hp).notingFailure

end Pass

namespace Expr

variable {env : TyEnv} {e typed d flat : Expr}

theorem isStraight_untyped (e : Expr) : e.untyped.isStraight = e.isStraight := by
  cases e with
  | binary m op l r => cases op <;> rfl
  | int | bool | var | lam | app | letIn | letRec | cond | bare => rfl

theorem isReducible_untyped (e : Expr) : e.untyped.isReducible = e.isReducible := by
  have hlam : ∀ e : Expr, e.untyped.isLam = e.isLam := fun e => by cases e <;> rfl
  cases e with
  | app m f a => exact hlam f
  | letIn m x v b =>
    change (v.untyped.isLam || b.untyped.isLam) = (v.isLam || b.isLam)
    rw [hlam, hlam]
  | int | bool | var | lam | letRec | binary | cond | bare => rfl

namespace Flattens

theorem isResidual (h : Flattens env e typed d flat) (henv : env.IsBuiltin)
    (hs : e.IsStraightLine) (hint : typed.ty? = some .int) : flat.IsResidual env .int := by
  obtain ⟨a, b, φ, _, ha, hb, hab, _⟩ := h.annotates henv.isClosed
  obtain rfl : a = .int := Option.some.inj (ha.ty?_eq.symm.trans hint)
  have hstraight : flat.IsStraightLine := by
    have htyped : typed.IsStraightLine :=
      Everywhere.congr hs (fun s => by rw [isStraight_untyped]) h.typed_untyped
    exact (h.inlined.everywhere shallow_isStraight InlineEnv.everywhere_empty htyped).congr
      (fun s => by rw [isStraight_untyped]) h.flat_untyped
  have hnormal : flat.IsNormal :=
    (h.settled.imp fun _ hs => hs.1).congr (fun s => by rw [isReducible_untyped]) h.flat_untyped
  have hdata : b.isFunction = false := Ty.isFunction_of_bind hab.symm
  have hflat := IsDerivation.isResidual hb henv.isResidual hnormal hstraight
    (Derives.isLam_eq_false hb hdata)
  cases hflat.ty henv.isResidual with
  | int => exact hflat
  | bool | partialSum | sum => cases hab

/-- Inlining takes no argument away from the predefined function. -/
theorem isAppliedTo (h : Flattens env e typed d flat) {x : String} {n : Nat}
    (he : e.isAppliedTo x n 0) : flat.EachFree (fun l _ => n ≤ l) x 0 := by
  rw [← isAppliedTo_iff, isAppliedTo_congr h.flat_untyped, isAppliedTo_iff]
  refine h.inlined.eachFree_of_empty (fun hkl hk => Nat.le_trans hk hkl) ?_
  rwa [← isAppliedTo_iff, isAppliedTo_congr h.typed_untyped]

end Flattens

end Expr

variable {c : Config} {env : TyEnv} {e typed : Expr} {names : NameSupply}

/-- Once a program is flattened, to a residual one in which no `let` binds a function, compiling it
requires only that no `let` yields one. -/
theorem compile_requires {depth : Nat} {flat : Expr} {s : NameSupply}
    (hflat : (({ config := c, depth } : Options).flatten e).Gives names flat s)
    (h : flat.IsResidual env .int) (henv : env.IsBuiltin) (hdata : flat.BindsData) :
    (({ config := c, depth } : Options).compile e).Requires names flat.YieldsData
      .unsupportedConstruct := by
  unfold Options.compile
  refine (hflat.bind_requires (h.lower_requires henv hdata s)).notingFailure.bind_gives ?_
  exact fun m t _ => ⟨m, t, (gives_note _ t).bind (gives_pure m t)⟩

/-- A straight-line program of type int is flattened to a tree of type int. If no `let` in that tree
binds a function, then the program is compiled exactly if none yields one, and otherwise refused as
unsupported; and it is always compiled if the predefined function has both arguments wherever it
stands in the program. -/
theorem compile_straight (hc : c.validate = .ok ()) (henv : c.environment = .ok env)
    (he : e.HasPlainNames) (hs : e.IsStraightLine)
    (htyped : ((e.inferTypes env).run names).1 = .ok typed) (hint : typed.ty? = some .int) :
    ∃ n, ∀ depth, n ≤ depth → ∃ flat,
      ((({ config := c, depth } : Options).flatten e).run names).1 = .ok flat ∧
      flat.ty? = some .int ∧
      (flat.BindsData →
        (flat.YieldsData →
          ∃ m, ((({ config := c, depth } : Options).compile e).run names).1 = .ok m) ∧
        (¬ flat.YieldsData →
          ∃ d, ((({ config := c, depth } : Options).compile e).run names).1 =
            .error (.diagnostic d) ∧ d.kind = .unsupportedConstruct)) ∧
      (e.isAppliedTo addName 2 0 →
        ∃ m, ((({ config := c, depth } : Options).compile e).run names).1 = .ok m) := by
  obtain ⟨hbuiltin, d, flat, n, s, hflattens, hgives⟩ := exists_flattens hc henv he htyped
  have hresidual := hflattens.isResidual hbuiltin hs hint
  refine ⟨n, fun depth hdepth => ⟨flat, (hgives depth hdepth).run_ok, hresidual.ty?_eq, ?_⟩⟩
  have hcompile := compile_requires (hgives depth hdepth) hresidual hbuiltin
  have hok : flat.BindsData → flat.YieldsData →
      ∃ m, ((({ config := c, depth } : Options).compile e).run names).1 = .ok m := by
    intro hdata hyields
    obtain ⟨m, t, hm⟩ := (hcompile hdata).gives hyields
    exact ⟨m, hm.run_ok⟩
  refine ⟨fun hdata => ⟨hok hdata, fun hyields => ((hcompile hdata).rejects hyields).run⟩, ?_⟩
  intro happlied
  obtain ⟨_, hdata, hyields⟩ :=
    hresidual.saturated hbuiltin.bindsSum fun _ => hflattens.isAppliedTo happlied
  exact hok hdata hyields

/-- A name may stand for the predefined function with one of its arguments. -/
theorem compile_straight_increment :
    let e : Expr := .letIn {} "inc" (.app {} (.var {} "add") (.int {} 1))
      (.app {} (.var {} "inc") (.int {} 41))
    let c : Config := {}
    let env : TyEnv := .single "add" (.mono TyEnv.sumTy)
    c.validate = .ok () ∧ c.environment = .ok env ∧ e.HasPlainNames ∧ e.IsStraightLine ∧
      ∃ typed, ((e.inferTypes env).run {}).1 = .ok typed ∧ typed.ty? = some .int ∧
        ∃ n, ∀ depth, n ≤ depth → ∃ flat,
          ((({ config := c, depth } : Options).flatten e).run {}).1 = .ok flat ∧
          flat.ty? = some .int ∧
          (flat.BindsData →
            (flat.YieldsData →
              ∃ m, ((({ config := c, depth } : Options).compile e).run {}).1 = .ok m) ∧
            (¬ flat.YieldsData →
              ∃ d, ((({ config := c, depth } : Options).compile e).run {}).1 =
                .error (.diagnostic d) ∧ d.kind = .unsupportedConstruct)) ∧
          (e.isAppliedTo addName 2 0 →
            ∃ m, ((({ config := c, depth } : Options).compile e).run {}).1 = .ok m) := by
  intro e c env
  let m : Mark := ⟨none, some .int⟩
  let m' : Mark := ⟨none, some (.fn .int .int)⟩
  let m'' : Mark := ⟨none, some (.fn .int (.fn .int .int))⟩
  let typed : Expr := .letIn m "inc" (.app m' (.var m'' "add") (.int m 1))
    (.app m (.var m' "inc") (.int m 41))
  have hc : c.validate = .ok () := validate_default (by decide)
  have he : e.HasPlainNames := by decide
  have hs : e.IsStraightLine := by decide
  have hgives : (e.inferTypes env).Gives {} typed { next := 2 } := by
    intro log
    exact ⟨_, by cbv⟩
  have htyped := hgives.run_ok
  exact ⟨hc, rfl, he, hs, typed, htyped, rfl, compile_straight hc rfl he hs htyped rfl⟩

-- the evaluation below runs through a recursion on the size of the tree
attribute [local semireducible] letOver

/-- A `let` that yields the predefined function with one of its arguments cannot be compiled. -/
theorem compile_straight_applied_let :
    let e : Expr := .app {}
      (.letIn {} "x" (.int {} 1) (.app {} (.var {} "add") (.var {} "x"))) (.int {} 2)
    let c : Config := {}
    let env : TyEnv := .single "add" (.mono TyEnv.sumTy)
    c.validate = .ok () ∧ c.environment = .ok env ∧ e.HasPlainNames ∧ e.IsStraightLine ∧
      (∃ typed, ((e.inferTypes env).run {}).1 = .ok typed ∧ typed.ty? = some .int) ∧
      ∀ depth, 9 ≤ depth → ∃ d, ((({ config := c, depth } : Options).compile e).run {}).1 =
        .error (.diagnostic d) ∧ d.kind = .unsupportedConstruct := by
  intro e c env
  let m : Mark := ⟨none, some .int⟩
  let m' : Mark := ⟨none, some (.fn .int .int)⟩
  let m'' : Mark := ⟨none, some (.fn .int (.fn .int .int))⟩
  let flat : Expr := .app m
    (.letIn m' "x" (.int m 1) (.app m' (.var m'' "add") (.var m "x"))) (.int m 2)
  have hc : c.validate = .ok () := validate_default (by decide)
  have htyped : (e.inferTypes env).Gives {} flat { next := 2 } := by
    intro log
    exact ⟨_, by cbv⟩
  refine ⟨hc, rfl, by decide, by decide, ⟨flat, htyped.run_ok, rfl⟩, fun depth hdepth => ?_⟩
  obtain ⟨k, rfl⟩ := Nat.exists_eq_add_of_le' hdepth
  have hinlined : (inlineIn (k + 9) flat ∅).Gives { next := 2 } flat { next := 2 } := by
    intro log
    exact ⟨_, by cbv⟩
  have hagain : (flat.strip.inferTypes env).Gives { next := 2 } flat { next := 4 } := by
    intro log
    exact ⟨_, by cbv⟩
  have hflat := gives_flatten hc rfl htyped rfl rfl hinlined hagain
  have hresidual : flat.IsResidual env .int :=
    .app rfl (.letIn rfl (.int rfl) (.app rfl (.var rfl rfl) (.var rfl rfl))) (.int rfl)
  have hbuiltin : env.IsBuiltin := by
    obtain ⟨env', henv', hbuiltin⟩ := Config.exists_environment hc
    obtain rfl := Except.ok.inj henv'
    exact hbuiltin
  exact ((compile_requires hflat hresidual hbuiltin (by decide)).rejects (by decide)).run

end LetLower
