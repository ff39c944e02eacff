import LetLower.Proofs.Infer.Safe

/-!
# Undefined names

The free names of an expression and the names that inference looks up outside it are found by
different recursions. They agree: what inference reports as undefined is free and not defined, and
no expression with such a name is given a type.
-/

namespace LetLower

namespace Expr

variable {e : Expr} {env : TyEnv} {S : Subst} {x : String} {c : Scheme}

theorem free_defined_of_apply (h : ∀ z ∈ e.free, z ∈ env.apply S) : ∀ z ∈ e.free, z ∈ env :=
  fun z hz => Bindings.mem_map.1 (h z hz)

/-- Below a binder its own name is defined, and only that name more than outside. -/
theorem free_defined_of_insert (h : ∀ z ∈ e.free, z ∈ Bindings.insert env x c) :
    ∀ z ∈ e.free, z ≠ x → z ∈ env :=
  fun z hz hne => (Bindings.mem_insert.1 (h z hz)).resolve_left hne

theorem Infers.free_defined {s s' : NameSupply} {r : Inferred} (h : Infers env e s r s') :
    ∀ z ∈ e.free, z ∈ env := by
  induction h with
  | int => exact fun z hz => absurd hz (NameSet.not_mem_empty z)
  | bool => exact fun z hz => absurd hz (NameSet.not_mem_empty z)
  | var hx =>
    intro z hz
    rw [NameSet.mem_single.1 hz]
    exact Bindings.mem_iff_get?.2 ⟨_, hx⟩
  | lam _ _ ih =>
    intro z hz
    obtain ⟨hz, hne⟩ := NameSet.mem_erase.1 hz
    exact free_defined_of_insert ih z hz hne
  | app _ _ _ _ ihf iha =>
    intro z hz
    exact (NameSet.mem_union.1 hz).elim (ihf z) (free_defined_of_apply iha z)
  | letIn _ _ _ ihv ihb =>
    intro z hz
    refine (NameSet.mem_union.1 hz).elim (ihv z) fun hz => ?_
    obtain ⟨hz, hne⟩ := NameSet.mem_erase.1 hz
    exact Bindings.mem_map.1 (free_defined_of_insert ihb z hz hne)
  | letRec _ _ _ _ _ ihv ihb =>
    intro z hz
    obtain ⟨hz, hne⟩ := NameSet.mem_erase.1 hz
    rcases NameSet.mem_union.1 hz with hz | hz
    · exact free_defined_of_insert ihv z hz hne
    · exact Bindings.mem_map.1 (free_defined_of_insert ihb z hz hne)
  | binary _ _ _ _ _ ihl ihr =>
    intro z hz
    exact (NameSet.mem_union.1 hz).elim (ihl z) (free_defined_of_apply ihr z)
  | cond _ _ _ _ _ _ ihc ihy ihn =>
    intro z hz
    refine (NameSet.mem_union.1 hz).elim (fun hz => ?_) (free_defined_of_apply ihn z)
    exact (NameSet.mem_union.1 hz).elim (ihc z) (free_defined_of_apply ihy z)

/-- A name is reported as undefined only where it stands free in the expression and the environment
does not have it. If there is such a name, inference ends in a report: of that name, or of a mistake
that it came upon before. -/
theorem infer_undefined (he : e.isKnown) (henv : env.IsPlain) (names : NameSupply) :
    (∀ d, ((e.infer env).run names).1 = .error (.diagnostic d) → d.kind = .undefinedVariable →
      ∃ m z, .var m z ∈ e.subtrees ∧ d = .undefinedVariable z m.loc ∧ z ∈ e.free ∧ z ∉ env) ∧
    ((∃ z ∈ e.free, z ∉ env) → ∃ d, ((e.infer env).run names).1 = .error (.diagnostic d)) := by
  obtain ⟨hend, _⟩ := (infer_ends he henv).run names
  obtain ⟨r, hr, _⟩ | ⟨d, hd, hmistake⟩ := hend
  · rw [hr]
    refine ⟨nofun, ?_⟩
    rintro ⟨z, hz, hn⟩
    obtain ⟨s, hs⟩ := Pass.run_ok.1 hr
    exact absurd ((infers_of_infer hs).free_defined z hz) hn
  · rw [hd]
    refine ⟨?_, fun _ => ⟨d, rfl⟩⟩
    rintro _ ⟨⟩ hkind
    cases hmistake with
    | undefined hmem hfree hx => exact ⟨_, _, hmem, rfl, hfree, hx⟩
    | mismatch hkind' =>
      rw [hkind] at hkind'
      rcases hkind' with h | h <;> cases h

/-- A `let` does not define its name in its own value: the parameter `z` and the body are in order,
and the `z` between them is reported. With a boolean in front of it, that is reported instead. -/
theorem infer_undefined_let_value :
    let env : TyEnv := .single "f" ⟨.single "a", .fn (.var "a") (.var "b")⟩
    let e : Expr := .letRec {} "g" (.lam {} "z" (.app {} (.var {} "g") (.var {} "z")))
      (.letIn {} "z" (.app {} (.var {} "f") (.var { loc := some ⟨1, 40, "p"⟩ } "z")) (.var {} "z"))
    let e' : Expr := .binary {} .add (.bool {} true) e
    e.isKnown ∧ e'.isKnown ∧ env.IsPlain ∧
      (∃ d, ((e.infer env).run {}).1 = .error (.diagnostic d) ∧ d.kind = .undefinedVariable ∧
        ∃ m z, .var m z ∈ e.subtrees ∧ d = .undefinedVariable z m.loc ∧ z ∈ e.free ∧ z ∉ env) ∧
      (∃ z ∈ e'.free, z ∉ env) ∧ ∃ d, ((e'.infer env).run {}).1 = .error (.diagnostic d) := by
  intro env e e'
  have he : e.isKnown := by decide
  have he' : e'.isKnown := by decide
  have henv : env.IsPlain := TyEnv.isPlain_single (by decide)
  obtain ⟨d, hkind, hd⟩ : ∃ d : Diagnostic, d.kind = .undefinedVariable ∧
      ((e.infer env).run {}).1 = .error (.diagnostic d) := ⟨_, rfl, by cbv⟩
  have hz : ∃ z ∈ e'.free, z ∉ env := ⟨"z", by decide, by decide⟩
  exact ⟨he, he', henv, ⟨d, hd, hkind, (infer_undefined he henv {}).1 d hd hkind⟩, hz,
    (infer_undefined he' henv {}).2 hz⟩

end Expr
end LetLower
