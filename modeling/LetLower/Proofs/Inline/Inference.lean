import LetLower.Proofs.Infer.Principal
import LetLower.Proofs.Inline.Run
import LetLower.Proofs.Inline.Typing

/-!
# Inference after inlining

What inlining makes of an inferred program can be inferred once its types are taken away, with a
type that is at least as general: the type found first is a type of the inlined tree by the rules,
and inference finds a most general one.
-/

namespace LetLower.Expr

/-- An inferred program is inferred again after inlining, and loses no generality. -/
theorem inferTypes_inlined {e t d : Expr} {env : TyEnv} {a : Ty} {depth : Nat}
    {names names' : NameSupply} (he : e.HasPlainNames) (henv : env.IsClosed)
    (h : ((e.inferTypes env).run names).1 = .ok t) (ha : t.ty? = some a)
    (hd : ((inlineIn depth t ∅).run names').1 = .ok d) (names'' : NameSupply) :
    ∃ u b, ((d.strip.inferTypes env).run names'').1 = .ok u ∧ u.ty? = some b ∧
      a.IsInstanceOf b := by
  obtain ⟨ht, a', hda⟩ := isDerivation_of_run henv h
  obtain rfl : a' = a := Option.some.inj (hda.ty?_eq.symm.trans ha)
  have hplain : env.IsPlain := fun x c hx => (henv x c hx).2
  have hs : Supplies ∅ (· ∈ t.free) env env := .of_not_mem fun z _ => Bindings.not_mem_empty z
  have hr := (inlines_of_run (he.congr ht) hd).hasType hplain hplain hs hda.hasType
  exact (hr.congr (untyped_strip d)).exists_run henv names''

theorem inferTypes_inlined_self_application :
    let e : Expr := .letIn {} "f" (.lam {} "x" (.var {} "x")) (.app {} (.var {} "f") (.var {} "f"))
    let a : Ty := .fn (.var "t2") (.var "t2")
    let v : Expr := .lam ⟨none, some (.fn (.var "t0") (.var "t0"))⟩ "x"
      (.var ⟨none, some (.var "t0")⟩ "x")
    let t : Expr := .letIn ⟨none, some a⟩ "f" v
      (.app ⟨none, some a⟩ (.var ⟨none, some (.fn a a)⟩ "f") (.var ⟨none, some a⟩ "f"))
    e.HasPlainNames ∧ TyEnv.IsClosed ∅ ∧ ((e.inferTypes ∅).run {}).1 = .ok t ∧
      t.ty? = some a ∧ ((inlineIn 9 t ∅).run {}).1 = .ok v ∧
      ∃ u b, ((v.strip.inferTypes ∅).run {}).1 = .ok u ∧ u.ty? = some b ∧ a.IsInstanceOf b := by
  intro e a v t
  have he : e.HasPlainNames := by decide
  have henv : TyEnv.IsClosed ∅ := fun x _ h => by
    rw [Bindings.get?_empty] at h
    cases h
  have ht : ((e.inferTypes ∅).run {}).1 = .ok t := by cbv
  have hv : ((inlineIn 9 t ∅).run {}).1 = .ok v := by cbv
  exact ⟨he, henv, ht, rfl, hv, inferTypes_inlined he henv ht rfl hv {}⟩

end LetLower.Expr
