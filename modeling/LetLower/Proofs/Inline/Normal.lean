import LetLower.Proofs.Infer.Derivation
import LetLower.Proofs.Inline.Nodes
import LetLower.Proofs.Inline.Run

/-!
# Inlined programs are normal

Inference marks each function of the tree that it returns with the type of a function, whatever the
environment holds, and the substitution that completes the tree keeps such marks. So inlining such a
tree leaves nothing to do.
-/

namespace LetLower

theorem Ty.isFunction_apply {t : Ty} (h : t.isFunction) (s : Subst) : (t.apply s).isFunction := by
  cases t with
  | fn => rfl
  | bool | int | var | scheme | unknown => cases h

namespace Expr

variable {env : TyEnv} {e : Expr} {s s' : NameSupply} {r : Inferred}

theorem isLam_mapMark (f : Mark → Mark) (e : Expr) : (e.mapMark f).isLam = e.isLam := by
  cases e <;> rfl

theorem MarksFunction.substitute (h : e.MarksFunction) (S : Subst) :
    (e.substitute S).MarksFunction := by
  intro hl
  rw [Expr.substitute, isLam_mapMark] at hl
  obtain ⟨t, ht, hf⟩ := h hl
  refine ⟨t.apply S, ?_, Ty.isFunction_apply hf S⟩
  have hm : e.mark.ty = some t := ht
  rw [Expr.substitute, ty?, mark_mapMark, hm, Option.map_some]

theorem everywhere_substitute (h : e.Everywhere MarksFunction) (S : Subst) :
    (e.substitute S).Everywhere MarksFunction := by
  unfold Everywhere Expr.substitute
  rw [subtrees_mapMark, List.forall_mem_map]
  exact fun f hf => (h f hf).substitute S

theorem Infers.marksFunction (h : Infers env e s r s') : r.tree.Everywhere MarksFunction := by
  induction h with
  | int | bool | var => exact List.forall_mem_singleton.2 (marksFunction_of_isLam rfl)
  | lam _ ht ih =>
    rw [ht]
    exact everywhere_lam.2 ⟨fun _ => ⟨_, rfl, rfl⟩, ih⟩
  | app _ _ _ _ ihf iha => exact everywhere_app.2 ⟨marksFunction_of_isLam rfl, ihf, iha⟩
  | letIn _ _ _ ihv ihb => exact everywhere_letIn.2 ⟨marksFunction_of_isLam rfl, ihv, ihb⟩
  | letRec _ _ _ _ _ ihv ihb =>
    exact everywhere_letRec.2 ⟨marksFunction_of_isLam rfl, everywhere_substitute ihv _, ihb⟩
  | binary _ _ _ _ _ ihl ihr => exact everywhere_binary.2 ⟨marksFunction_of_isLam rfl, ihl, ihr⟩
  | cond _ _ _ _ _ _ ihc ihy ihn =>
    exact everywhere_cond.2 ⟨marksFunction_of_isLam rfl, ⟨ihc, ihy⟩, ihn⟩

theorem Infers.marksFunction_completed (h : Infers env e s r s') :
    r.completed.Everywhere MarksFunction :=
  everywhere_substitute h.marksFunction _

/-- In what inlining makes of an inferred program no known function is applied, none is bound by a
`let`, and no `let` has one for its body. -/
theorem inlineIn_isNormal {t d : Expr} {depth : Nat} {names names' : NameSupply}
    (he : e.HasPlainNames) (h : ((e.inferTypes env).run names).1 = .ok t)
    (hd : ((inlineIn depth t ∅).run names').1 = .ok d) : d.IsNormal := by
  obtain ⟨r, s', hr, rfl⟩ := infers_of_run h
  have hplain : r.completed.HasPlainNames := he.congr hr.untyped_completed
  have hfinished := (inlines_of_run hplain hd).finished InlineEnv.everywhere_empty
    InlineEnv.everywhere_empty hr.marksFunction_completed
  exact fun f hf => (hfinished f hf).settled.1

-- the evaluation below runs through a recursion on the size of the tree
attribute [local semireducible] letOver

/-- A function applied inside a recursive one, and a `let` around a function that is applied. -/
theorem inlineIn_isNormal_applied_let :
    let i : Mark := ⟨none, some .int⟩
    let f : Mark := ⟨none, some (.fn .int .int)⟩
    let loop (body : Expr) : Expr := .lam f "n" (.binary i .sub body (.var i "n"))
    let again (x : String) : Expr := .app i (.var f "g") (.var i x)
    let t : Expr := .letRec i "g" (loop (.app i (.lam f "y" (again "y")) (.var i "n")))
      (.app i (.letIn f "z" (.int i 3) (.lam f "w" (again "z"))) (.int i 4))
    let d : Expr := .letRec i "g" (loop (again "n")) (.letIn i "z" (.int i 3) (again "z"))
    let e : Expr := t.strip
    e.HasPlainNames ∧ ((e.inferTypes ∅).run {}).1 = .ok t ∧
      ((inlineIn 9 t ∅).run {}).1 = .ok d ∧ ¬ t.IsNormal ∧ d.IsNormal := by
  intro i f loop again t d e
  have he : e.HasPlainNames := by decide
  have ht : ((e.inferTypes ∅).run {}).1 = .ok t := by cbv
  have hd : ((inlineIn 9 t ∅).run {}).1 = .ok d := rfl
  exact ⟨he, ht, hd, by decide, inlineIn_isNormal he ht hd⟩

end Expr
end LetLower
