import LetLower.Proofs.Infer.Derivation

/-!
# What is solved is gone

The substitution of a run is in solved form: nothing that it replaces is left in what it puts in.
It replaces only variables that were drawn during the run, and the type that is returned speaks of
none of them. So one pass of it over the tree leaves no solved variable in any annotation.
-/

namespace LetLower

namespace Ty

theorem apply_eq_self {s : Subst} {t : Ty} (h : ∀ x ∈ t.free, x ∉ s) : t.apply s = t := by
  induction t generalizing s with
  | var x =>
    have hx : s.get? x = none := Bindings.get?_eq_none_iff.2 (h x (mem_free_var.2 rfl))
    rw [apply, hx]
    rfl
  | fn a r iha ihr =>
    rw [apply, iha fun x hx => h x (mem_free_fn.2 (.inl hx)),
      ihr fun x hx => h x (mem_free_fn.2 (.inr hx))]
  | scheme bound body ih =>
    rw [apply, ih fun x hx hm => ?_]
    obtain ⟨t, ht⟩ := Bindings.mem_iff_get?.1 hm
    rw [Bindings.get?_without] at ht
    split at ht
    · cases ht
    · rename_i hb
      exact h x (NameSet.mem_diff.2 ⟨hx, hb⟩) (Bindings.mem_iff_get?.2 ⟨t, ht⟩)
  | bool | int | unknown => rfl

variable {s : Subst} (hs : ∀ x ∈ s, x ∉ s.range)
include hs

theorem not_mem_of_mem_free_apply {t : Ty} {z : String} (hz : z ∈ (t.apply s).free) : z ∉ s := by
  intro hm
  rcases mem_free_apply hz with ⟨_, hn⟩ | hr
  · exact Bindings.get?_eq_none_iff.1 hn hm
  · exact hs z hm hr

theorem apply_apply (t : Ty) : (t.apply s).apply s = t.apply s :=
  apply_eq_self fun _ hz => not_mem_of_mem_free_apply hs hz

end Ty

namespace Expr

variable {env : TyEnv} {e : Expr} {s s' : NameSupply} {r : Inferred}

theorem Infers.ty?_eq (h : Infers env e s r s') : r.tree.ty? = some r.ty := by
  cases h <;> rfl

/-- In a closed environment nothing but what was drawn in the run is there to be solved. -/
theorem Infers.exists_number_of_mem (h : Infers env e s r s') (henv : env.IsClosed) {x : String}
    (hx : x ∈ r.subst) : ∃ k, s.next ≤ k ∧ k < s'.next ∧ x = s.stem ++ toString k := by
  have hr := (h.returns (henv.ready s).toUnissued).reached
  obtain ⟨hfree | hi, hn⟩ := hr.subst.domain x hx
  · exact absurd hfree (henv.not_mem_free x)
  · exact hi.exists_number hr.supply hn

/-- One pass of what a run has solved leaves nothing of it, in any type and in the tree. -/
theorem infer_solved {names : NameSupply} (henv : env.IsClosed)
    (h : ((e.infer env).run names).1 = .ok r) :
    (∀ x ∈ r.subst, x ∉ r.subst.range) ∧
      (∀ t : Ty, (t.apply r.subst).apply r.subst = t.apply r.subst) ∧
      (∀ x ∈ r.subst, ∃ k, names.next ≤ k ∧ k < ((e.infer env).run names).2.1.next ∧
        x = names.stem ++ toString k) ∧
      r.tree.ty? = some r.ty ∧ r.ty.apply r.subst = r.ty ∧
      ∃ t, ((e.inferTypes env).run names).1 = .ok t ∧ t.ty? = some r.ty ∧ t.isAnnotated ∧
        ∀ m ∈ t.marks, ∀ u ∈ m.ty, ∀ x ∈ u.free, x ∉ r.subst := by
  obtain ⟨s, hrun⟩ := Pass.run_ok.1 h
  have hi := infers_of_infer hrun
  have hret := hi.returns (henv.ready names).toUnissued
  have hd := hi.isDerivation henv
  have hsolved := hret.reached.subst.solved
  refine ⟨hsolved, Ty.apply_apply hsolved, fun x hx => ?_, hi.ty?_eq, hret.ty.apply_eq,
    r.completed, hi.run, hd.ty?_eq, hd.isAnnotated, fun m hm u hu x hx => ?_⟩
  · rw [Pass.names_of_run hrun]
    exact hi.exists_number_of_mem henv hx
  · rw [Inferred.completed, substitute, marks_mapMark] at hm
    obtain ⟨m', _, rfl⟩ := List.mem_map.1 hm
    obtain ⟨t, _, rfl⟩ := Option.map_eq_some_iff.1 hu
    exact Ty.not_mem_of_mem_free_apply hsolved hx

/-- Three variables are solved, and the fourth is in the type that is returned. -/
theorem infer_solved_applied_identity :
    let env : TyEnv := .single "id" ⟨.single "a", .fn (.var "a") (.var "a")⟩
    let e : Expr := .lam {} "f" (.app {} (.app {} (.var {} "id") (.var {} "f")) (.int {} 1))
    let u : Ty := .fn .int (.var "t3")
    let tree : Expr := .lam ⟨none, some (.fn u (.var "t3"))⟩ "f"
      (.app ⟨none, some (.var "t3")⟩
        (.app ⟨none, some (.var "t2")⟩
          (.var ⟨none, some (.fn (.var "t1") (.var "t1"))⟩ "id")
          (.var ⟨none, some (.var "t0")⟩ "f"))
        (.int ⟨none, some .int⟩ 1))
    let r : Inferred := ⟨tree, .fn u (.var "t3"), ⟨[("t1", u), ("t0", u), ("t2", u)], by decide⟩⟩
    env.IsClosed ∧ ((e.infer env).run {}).1 = .ok r ∧ (∀ x ∈ r.subst, x ∉ r.subst.range) ∧
      r.ty.apply r.subst = r.ty ∧
      ∃ t, ((e.inferTypes env).run {}).1 = .ok t ∧ t.ty? = some r.ty ∧
        ∀ m ∈ t.marks, ∀ u ∈ m.ty, ∀ x ∈ u.free, x ∉ r.subst := by
  intro env e u tree r
  have henv : env.IsClosed := fun x c hx => by
    rw [Bindings.get?_single] at hx
    split at hx
    · obtain rfl := Option.some.inj hx
      have hfree : (⟨.single "a", .fn (.var "a") (.var "a")⟩ : Scheme).free = ∅ := by decide
      exact ⟨fun z hz => NameSet.not_mem_empty z (hfree ▸ hz), by decide⟩
    · cases hx
  have hr : ((e.infer env).run {}).1 = .ok r := by cbv
  obtain ⟨hsolved, _, _, _, hty, t, ht, hroot, _, hmarks⟩ := infer_solved henv hr
  exact ⟨henv, hr, hsolved, hty, t, ht, hroot, hmarks⟩

end Expr
end LetLower
