import LetLower.Proofs.Expr.Alike
import LetLower.Proofs.Bindings

/-!
# Renaming by a new name and back

A name that a tree does not mention can stand for one of its free names. Nothing else changes by
that, and renaming back restores the tree: the occurrences that the first renaming left alone are
bound to a name that shadows, and the new name does not stand among them.
-/

namespace LetLower.Expr

theorem rename_eq_self {x : String} (y : String) {e : Expr} (hx : x ∉ e.names) :
    e.rename x y = e := by
  induction e generalizing y with
  | int | bool | bare => rfl
  | var m z =>
    have hz : z ≠ x := fun h => hx (List.mem_singleton.2 h.symm)
    rw [rename_var, if_neg hz]
  | lam m z b ih =>
    simp only [names, List.mem_cons, not_or] at hx
    rw [rename_lam, ih _ hx.2]
  | app m a b iha ihb | binary m op a b iha ihb =>
    simp only [names, List.mem_append, not_or] at hx
    rw [rename, iha y hx.1, ihb y hx.2]
  | letIn m z a b iha ihb =>
    simp only [names, List.mem_cons, List.mem_append, not_or] at hx
    rw [rename_letIn, iha y hx.2.1, ihb _ hx.2.2]
  | letRec m z a b iha ihb =>
    simp only [names, List.mem_cons, List.mem_append, not_or] at hx
    rw [rename_letRec, iha _ hx.2.1, ihb _ hx.2.2]
  | cond m a b c iha ihb ihc =>
    simp only [names, List.mem_append, not_or] at hx
    rw [rename, iha y hx.1.1, ihb y hx.1.2, ihc y hx.2]

/-- Renaming back below a binder, which may shadow the old name but is not the new one. -/
theorem rename_back_below {x y z : String} {b : Expr} (hz : y ≠ z) (hy : y ∉ b.names)
    (h : (b.rename x y).rename y x = b) :
    (b.rename x (if z = x then x else y)).rename y (if z = y then y else x) = b := by
  rw [if_neg hz.symm]
  split
  · rw [rename_self, rename_eq_self x hy]
  · exact h

theorem rename_back {x y : String} {e : Expr} (hy : y ∉ e.names) :
    (e.rename x y).rename y x = e := by
  induction e with
  | int | bool | bare => rfl
  | var m z =>
    have hz : z ≠ y := fun h => hy (List.mem_singleton.2 h.symm)
    rw [rename_var, rename_var]
    by_cases hx : z = x
    · rw [if_pos hx, if_pos rfl, hx]
    · rw [if_neg hx, if_neg hz]
  | lam m z b ih =>
    simp only [names, List.mem_cons, not_or] at hy
    rw [rename_lam, rename_lam, rename_back_below hy.1 hy.2 (ih hy.2)]
  | app m a b iha ihb | binary m op a b iha ihb =>
    simp only [names, List.mem_append, not_or] at hy
    rw [rename, rename, iha hy.1, ihb hy.2]
  | letIn m z a b iha ihb =>
    simp only [names, List.mem_cons, List.mem_append, not_or] at hy
    rw [rename_letIn, rename_letIn, iha hy.2.1, rename_back_below hy.1 hy.2.2 (ihb hy.2.2)]
  | letRec m z a b iha ihb =>
    simp only [names, List.mem_cons, List.mem_append, not_or] at hy
    rw [rename_letRec, rename_letRec, rename_back_below hy.1 hy.2.1 (iha hy.2.1),
      rename_back_below hy.1 hy.2.2 (ihb hy.2.2)]
  | cond m a b c iha ihb ihc =>
    simp only [names, List.mem_append, not_or] at hy
    rw [rename, rename, iha hy.1.1, ihb hy.1.2, ihc hy.2]

/-- The free names correspond, and no others are free. -/
theorem free_rename {x y : String} {e : Expr} (he : e.isKnown) (hy : y ∉ e.names) :
    (e.rename x y).free = .ofList (e.free.names.map (renamed x y)) := by
  have h := alike_rename (x := x) he (.inr hy)
  refine NameSet.eq_of_mem_iff fun z => ?_
  rw [NameSet.mem_ofList, List.mem_map]
  constructor
  · intro hz
    obtain ⟨u, hu, huz⟩ := h.symm.exists_mem_free hz
    exact ⟨u, hu, huz.symm⟩
  · rintro ⟨u, hu, rfl⟩
    obtain ⟨v, hv, rfl⟩ := h.exists_mem_free hu
    exact hv

/-- Renaming by a name that the tree does not mention replaces free occurrences and nothing else,
and can be undone. -/
theorem rename?_reversible {e : Expr} (he : e.isAnnotated) (old : String) {new : String}
    (hn : new ∉ e.names) :
    ∃ e', e.rename? old new = .ok e' ∧
      (∃ names, e.free? = .ok names ∧
        e'.free? = .ok (.ofList (names.names.map (renamed old new)))) ∧
      e'.rename? new old = .ok e ∧
      Alike Eq (fun u v => v = renamed old new u) e e' := by
  have hk := isKnown_of_isAnnotated he
  have he' : (e.rename old new).isAnnotated := isAnnotated_rename he
  refine ⟨e.rename old new, rename?_eq he, ⟨e.free, if_pos hk, ?_⟩, ?_,
    alike_rename hk (.inr hn)⟩
  · rw [free?, if_pos (isKnown_of_isAnnotated he'), free_rename hk hn]
  · rw [rename?_eq he', rename_back hn]

/-- The renamed name is bound again by a `let`, whose value mentions it from outside, by a
`let rec`, whose value does not, and by a function. -/
theorem rename?_reversible_shadowed :
    let m : Mark := { loc := some ⟨3, 7, "a.let"⟩, ty := some .int }
    let x : Expr := .var m "x"
    let loop : Expr := .letRec m "x" (.app m x x) x
    let e : Expr := .cond m (.letIn m "x" x (.app m (.lam m "x" x) loop)) x (.lam m "y" x)
    let z : Expr := .var m "z"
    let d : Expr := .cond m (.letIn m "x" z (.app m (.lam m "x" x) loop)) z (.lam m "y" z)
    e.isAnnotated ∧ "z" ∉ e.names ∧ e.rename? "x" "z" = .ok d ∧ d.rename? "z" "x" = .ok e ∧
      d.free? = .ok (.single "z") ∧ Alike Eq (fun u v => v = renamed "x" "z" u) e d := by
  intro m x loop e z d
  have he : e.isAnnotated := by decide
  have hz : "z" ∉ e.names := by decide
  obtain ⟨d', hd, ⟨names, hnames, hfree⟩, hback, halike⟩ :=
    rename?_reversible he "x" hz
  obtain rfl : d = d' := Except.ok.inj hd
  obtain rfl : e.free = names := Except.ok.inj hnames
  have hmap : NameSet.ofList (e.free.names.map (renamed "x" "z")) = .single "z" := by decide
  exact ⟨he, hz, hd, hback, hmap ▸ hfree, halike⟩

end LetLower.Expr
