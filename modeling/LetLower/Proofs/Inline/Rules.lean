import LetLower.Inline
import LetLower.Expr.Normal
import LetLower.Proofs.Bindings
import LetLower.Proofs.Names
import LetLower.Proofs.Pass
import LetLower.Proofs.Expr.Rename

/-!
# Inlining as rules

`Inlines env e r` says that `r` is what inlining makes of `e` where the names in `env` stand for the
expressions there. There is one rule for each thing that can happen at a node, with no depth, no
supply and no log. What remains of the fresh names is that they are apart from every name that they
could be confused with.
-/

namespace LetLower

namespace Expr

/-- The name `y` can be used for a binder `x` whose scopes mention `names`. -/
structure Enters (env : InlineEnv) (x y : String) (names : List String) : Prop where
  scope : y = x ∨ y ∉ names
  key : y = x ∨ y ∉ env
  values : ∀ z w, z ≠ x → env.get? z = some w → y ∉ w.free

inductive LetOver (m : Mark) (x : String) (v : Expr) : Expr → Expr → Prop
  | lam {fm p q b r} (hm : fm.ty.isSome) (hx : q ≠ x) (hv : q ∉ v.free) (hb : q ∉ b.names)
      (h : LetOver m x v (b.rename p q) r) : LetOver m x v (.lam fm p b) (.lam fm q r)
  | here {b t} (hb : b.isLam = false) (ht : b.getTy = .ok t) :
      LetOver m x v b (.letIn { m with ty := some t } x v b)

inductive Inlines : InlineEnv → Expr → Expr → Prop
  | int {env m n} : Inlines env (.int m n) (.int m n)
  | bool {env m b} : Inlines env (.bool m b) (.bool m b)
  | var {env m x} : Inlines env (.var m x) ((env.get? x).getD (.var m x))
  | lam {env m x y b b'} (hy : Enters env x y b.names)
      (hb : Inlines (env.erase x) (b.rename x y) b') : Inlines env (.lam m x b) (.lam m y b')
  | app {env m f f' a a'} (hf : Inlines env f f') (ha : Inlines env a a')
      (hn : f'.function? = none) : Inlines env (.app m f a) (.app m f' a')
  | beta {env m f fm x b a a' y r} (hf : Inlines env f (.lam fm x b)) (ha : Inlines env a a')
      (hm : fm.ty.isSome) (hfree : ∀ z ∈ (lam fm x b).free, z ∉ env) (hy : y = x ∨ y ∉ b.names)
      (hb : Inlines ((env.erase x).insert y a') (b.rename x y) r) : Inlines env (.app m f a) r
  | letRec {env m x y v v' b b'} (hy : Enters env x y (v.names ++ b.names))
      (hv : Inlines (env.erase x) (v.rename x y) v')
      (hb : Inlines (env.erase x) (b.rename x y) b') :
      Inlines env (.letRec m x v b) (.letRec m y v' b')
  | rotate {env m x loc t y v w b z r}
      (hz : z ∉ (letIn m x (.letIn ⟨loc, some t⟩ y v w) b).names)
      (h : Inlines env (.letIn ⟨loc, m.ty⟩ z v (.letIn m x (w.rename y z) b)) r) :
      Inlines env (.letIn m x (.letIn ⟨loc, some t⟩ y v w) b) r
  | eliminate {env m x v v' t b y r} (hv : Inlines env v v') (ht : v'.getTy = .ok t)
      (hf : t.isFunction = true) (hy : y = x ∨ y ∉ b.names)
      (hb : Inlines ((env.erase x).insert y v') (b.rename x y) r) : Inlines env (.letIn m x v b) r
  | keep {env m x v v' t b y b' r} (hv : Inlines env v v') (ht : v'.getTy = .ok t)
      (hf : t.isFunction = false) (hy : Enters env x y b.names)
      (hb : Inlines (env.erase x) (b.rename x y) b') (h : LetOver m y v' b' r) :
      Inlines env (.letIn m x v b) r
  | binary {env m op l l' r r'} (hl : Inlines env l l') (hr : Inlines env r r') :
      Inlines env (.binary m op l r) (.binary m op l' r')
  | cond {env m c c' t t' e e'} (hc : Inlines env c c') (ht : Inlines env t t')
      (he : Inlines env e e') : Inlines env (.cond m c t e) (.cond m c' t' e')

/-- What stands for a name: the name itself where nothing else does. -/
def standsFor (subst : InlineEnv) (z : String) : Expr := (subst.get? z).getD (.var {} z)

section

variable {subst : InlineEnv} {x y z : String} {v : Expr} {names : List String}

theorem standsFor_of_not_mem (h : z ∉ subst) : standsFor subst z = .var {} z := by
  rw [standsFor, Bindings.get?_eq_none_iff.2 h, Option.getD_none]

theorem standsFor_erase (hz : z ≠ x) :
    standsFor (Bindings.erase subst x) z = standsFor subst z := by
  rw [standsFor, Bindings.get?_erase, if_neg hz, standsFor]

theorem standsFor_insert_self : standsFor (Bindings.insert subst y v) y = v := by
  rw [standsFor, Bindings.get?_insert, if_pos rfl, Option.getD_some]

theorem standsFor_insert (hz : z ≠ y) :
    standsFor (Bindings.insert subst y v) z = standsFor subst z := by
  rw [standsFor, Bindings.get?_insert, if_neg hz, standsFor]

theorem Enters.not_mem_erase (h : Enters subst x y names) : y ∉ Bindings.erase subst x := by
  intro hy
  have hy := Bindings.mem_erase.1 hy
  exact h.key.elim hy.1 fun h => h hy.2

theorem free_getD_var (m : Mark) :
    ((subst.get? z).getD (.var m z)).free = (standsFor subst z).free := by
  rw [standsFor]
  cases subst.get? z with
  | none => rfl
  | some w => rfl

theorem Enters.standsFor_self (h : Enters subst x y names) :
    standsFor (Bindings.erase subst x) y = .var {} y :=
  standsFor_of_not_mem h.not_mem_erase

theorem Enters.not_mem_free_standsFor (h : Enters subst x y names) (hx : z ≠ x) (hy : z ≠ y) :
    y ∉ (standsFor subst z).free := by
  rw [standsFor]
  cases hw : subst.get? z with
  | none => exact fun hm => hy (NameSet.mem_single.1 hm).symm
  | some w => exact h.values z w hx hw

end

theorem mem_free_of_rotated {m n n' : Mark} {x y z u : String} {v w b : Expr}
    (h : u ∈ (letIn n' z v (.letIn m x (w.rename y z) b)).free) :
    u ∈ (letIn m x (.letIn n y v w) b).free := by
  simp only [free, NameSet.mem_union, NameSet.mem_erase] at h ⊢
  rcases h with h | ⟨h | h, hne⟩
  · exact .inl (.inl h)
  · exact .inl (.inr ((mem_free_rename h).resolve_right hne))
  · exact .inr h

/-- No name in the tree is still to be made from a base. -/
def Unmarked (s : NameSupply) (e : Expr) : Prop := ∀ z ∈ e.names, ¬ s.Marks z

theorem Unmarked.mono {s s' : NameSupply} {e : Expr} (h : Unmarked s e) (hs : s.Reaches s') :
    Unmarked s' e :=
  fun z hz hm => h z hz (hm.of_reaches hs)

theorem Unmarked.rename {s : NameSupply} {e : Expr} (h : Unmarked s e) {x y : String}
    (hy : ¬ s.Marks y) : Unmarked s (e.rename x y) := by
  intro z hz
  rcases mem_names_rename hz with hz | rfl
  · exact h z hz
  · exact hy

theorem Unmarked.rotated {s s' : NameSupply} {m n n' : Mark} {x y z : String} {v w b : Expr}
    (h : (letIn m x (.letIn n y v w) b).Unmarked s) (hs : s.Reaches s') (hz : ¬ s'.Marks z) :
    (letIn n' z v (.letIn m x (w.rename y z) b)).Unmarked s' := by
  have h' := h.mono hs
  intro u hu
  simp only [names, List.mem_cons, List.mem_append] at hu
  rcases hu with rfl | hu | rfl | hu | hu
  · exact hz
  · exact h' u (by simp only [names, List.mem_cons, List.mem_append, hu, true_or, or_true])
  · exact h' u List.mem_cons_self
  · rcases mem_names_rename hu with hu | rfl
    · exact h' u (by simp only [names, List.mem_cons, List.mem_append, hu, true_or, or_true])
    · exact hz
  · exact h' u (by simp only [names, List.mem_cons, List.mem_append, hu, or_true])

theorem rename?_ok {x y : String} {e e' : Expr} (h : e.rename? x y = .ok e') :
    e' = e.rename x y := by
  unfold rename? at h
  split at h
  · exact (Except.ok.inj h).symm
  · cases h

theorem function?_eq_some {e b : Expr} {x : String} (h : e.function? = some (x, b)) :
    ∃ m, e = .lam m x b ∧ m.ty.isSome := by
  unfold function? at h
  split at h
  · split at h
    · cases h
      exact ⟨_, rfl, by assumption⟩
    · cases h
  · cases h

theorem not_mem_free_of_mentionedIn {x : String} {es : List Expr}
    (h : mentionedIn x es = .ok false) : ∀ e ∈ es, x ∉ e.free := by
  induction es with
  | nil => exact fun e he => absurd he List.not_mem_nil
  | cons e es ih =>
    unfold mentionedIn free? at h
    split at h
    · cases h
    · rename_i free hfree
      split at hfree
      · cases hfree
        split at h
        · cases h
        · rename_i hx
          exact List.forall_mem_cons.2 ⟨hx, ih h⟩
      · cases hfree

end Expr
end LetLower
