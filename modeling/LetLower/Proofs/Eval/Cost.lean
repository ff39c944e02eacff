import LetLower.Eval

/-!
# Evaluation by rules

`Costs ρ e v k` says that `e` comes to `v` with `k` calls, where each use of a recursive name is a
call as well. Unlike the bound of `eval`, which measures how deep steps are nested, calls add up, so
what is left of a budget after one part can be given to the next.
-/

namespace LetLower

/-- The second environment is the first with one more binder. -/
inductive ValueEnv.Extends (ρ : ValueEnv) (x : String) : ValueEnv → Prop
  | bind (v : Value) : Extends ρ x (ρ.bind x v)
  | recursive (e : Expr) : Extends ρ x (ρ.recursive x e)

namespace Expr

inductive Costs : ValueEnv → Expr → Value → Nat → Prop
  | int {ρ m n} : Costs ρ (.int m n) (.int n) 0
  | bool {ρ m b} : Costs ρ (.bool m b) (.bool b) 0
  | bound {ρ m x v} : Costs (.bind ρ x v) (.var m x) v 0
  | unfolded {ρ m x e v k} (h : Costs (.recursive ρ x e) e v k) :
      Costs (.recursive ρ x e) (.var m x) v (k + 1)
  | outer {ρ ρ₁ m x y v k} (hρ : ρ.Extends y ρ₁) (hx : x ≠ y) (h : Costs ρ (.var m x) v k) :
      Costs ρ₁ (.var m x) v k
  | lam {ρ m x b} : Costs ρ (.lam m x b) (.closure ρ x b) 0
  | closure {ρ m f a ρ₀ x b w v i j k} (hf : Costs ρ f (.closure ρ₀ x b) i) (ha : Costs ρ a w j)
      (hb : Costs (.bind ρ₀ x w) b v k) : Costs ρ (.app m f a) v (i + j + k + 1)
  | sum {ρ m f a w i j} (hf : Costs ρ f .sum i) (ha : Costs ρ a w j) :
      Costs ρ (.app m f a) (.sumFrom w) (i + j + 1)
  | sumFrom {ρ m f a l w p q i j} (hf : Costs ρ f (.sumFrom l) i) (ha : Costs ρ a w j)
      (hl : l.number? = some p) (hw : w.number? = some q) :
      Costs ρ (.app m f a) (.int (p + q)) (i + j + 1)
  | letIn {ρ m x v b w u i j} (hv : Costs ρ v w i) (hb : Costs (.bind ρ x w) b u j) :
      Costs ρ (.letIn m x v b) u (i + j)
  | letRec {ρ m x v b w u i j} (hv : Costs (.recursive ρ x v) v w i)
      (hb : Costs (.bind ρ x w) b u j) : Costs ρ (.letRec m x v b) u (i + j)
  | binary {ρ m op l r u w p q i j} (hl : Costs ρ l u i) (hr : Costs ρ r w j)
      (hu : u.number? = some p) (hw : w.number? = some q) :
      Costs ρ (.binary m op l r) (op.compute p q) (i + j)
  | cond {ρ m c t e u v i j} (hc : Costs ρ c u i) (hb : Costs ρ (if u.holds then t else e) v j) :
      Costs ρ (.cond m c t e) v (i + j)

variable {ρ ρ₁ : ValueEnv} {e f a b c : Expr} {u v w : Value} {m m' : Mark} {x y : String}

theorem Evaluates.common {ρ' : ValueEnv} {e' : Expr} {v' : Value} (h : Evaluates ρ e v)
    (h' : Evaluates ρ' e' v') : ∃ n, eval n ρ e = some v ∧ eval n ρ' e' = some v' := by
  obtain ⟨i, hi⟩ := h
  obtain ⟨j, hj⟩ := h'
  exact ⟨max i j, eval_mono (Nat.le_max_left i j) hi, eval_mono (Nat.le_max_right i j) hj⟩

theorem Evaluates.outer (hρ : ρ.Extends y ρ₁) (hx : x ≠ y) (h : Evaluates ρ (var m x) v) :
    Evaluates ρ₁ (var m x) v := by
  obtain ⟨n, hn⟩ := h
  refine ⟨n, ?_⟩
  cases n with
  | zero => cases hn
  | succ n =>
    cases hρ with
    | bind | recursive =>
      rw [eval, step, ValueEnv.read, if_neg hx]
      exact hn

theorem Evaluates.call {g : Value} (hf : Evaluates ρ f g) (ha : Evaluates ρ a w)
    (h : ∃ n, g.call (eval n) w = some v) : Evaluates ρ (app m f a) v := by
  obtain ⟨n, hf, ha⟩ := hf.common ha
  obtain ⟨k, hk⟩ := h
  refine ⟨max n k + 1, ?_⟩
  have hcall := Value.call_mono (fun _ _ _ => eval_mono (Nat.le_max_right n k)) hk
  simp only [eval, step, eval_mono (Nat.le_max_left n k) hf,
    eval_mono (Nat.le_max_left n k) ha, Option.bind_eq_bind, Option.bind_some, hcall]

theorem Costs.evaluates {k : Nat} (h : Costs ρ e v k) : Evaluates ρ e v := by
  induction h with
  | int | bool | lam => exact ⟨1, rfl⟩
  | bound => exact ⟨1, by rw [eval, step, ValueEnv.read, if_pos rfl]⟩
  | unfolded _ ih =>
    obtain ⟨n, hn⟩ := ih
    exact ⟨n + 1, by rw [eval, step, ValueEnv.read, if_pos rfl, hn]⟩
  | outer hρ hx _ ih => exact ih.outer hρ hx
  | closure _ _ _ ihf iha ihb => exact ihf.call iha ihb
  | sum _ _ ihf iha => exact ihf.call iha ⟨0, rfl⟩
  | sumFrom _ _ hl hw ihf iha =>
    refine ihf.call iha ⟨0, ?_⟩
    simp only [Value.call, hl, hw, Option.bind_eq_bind, Option.bind_some, Option.pure_def]
  | letIn _ _ ihv ihb | letRec _ _ ihv ihb =>
    obtain ⟨n, hv, hb⟩ := ihv.common ihb
    refine ⟨n + 1, ?_⟩
    simp only [eval, step, hv, hb, Option.bind_eq_bind, Option.bind_some]
  | binary _ _ hu hw ihl ihr =>
    obtain ⟨n, hl, hr⟩ := ihl.common ihr
    refine ⟨n + 1, ?_⟩
    simp only [eval, step, hl, hr, hu, hw, Option.bind_eq_bind, Option.bind_some,
      Option.pure_def]
  | cond _ _ ihc ihb =>
    obtain ⟨n, hc, hb⟩ := ihc.common ihb
    refine ⟨n + 1, ?_⟩
    split at hb
    · rename_i hu
      simp only [eval, step, hc, hu, hb, Option.bind_eq_bind, Option.bind_some, if_true]
    · rename_i hu
      simp only [eval, step, hc, hu, hb, Option.bind_eq_bind, Option.bind_some, if_false,
        Bool.false_eq_true]

/-- A name is read as deep in the environment as its binder stands. -/
theorem costs_of_read {run : Evaluator}
    (hrun : ∀ ρ e v, run ρ e = some v → ∃ k, Costs ρ e v k) :
    {ρ : ValueEnv} → ρ.read run x = some v → ∃ k, Costs ρ (var m x) v k
  | .empty, h => by cases h
  | .bind ρ y w, h => by
    rw [ValueEnv.read] at h
    split at h
    · rename_i hx
      obtain rfl := Option.some.inj h
      subst hx
      exact ⟨0, .bound⟩
    · rename_i hx
      obtain ⟨k, hk⟩ := costs_of_read hrun h
      exact ⟨k, .outer (.bind w) hx hk⟩
  | .recursive ρ y e, h => by
    rw [ValueEnv.read] at h
    split at h
    · rename_i hx
      obtain ⟨k, hk⟩ := hrun _ _ _ h
      subst hx
      exact ⟨k + 1, .unfolded hk⟩
    · rename_i hx
      obtain ⟨k, hk⟩ := costs_of_read hrun h
      exact ⟨k, .outer (.recursive e) hx hk⟩

theorem costs_of_step {run : Evaluator}
    (hrun : ∀ ρ e v, run ρ e = some v → ∃ k, Costs ρ e v k) (h : e.step run ρ = some v) :
    ∃ k, Costs ρ e v k := by
  cases e with
  | int | bool | lam =>
    obtain rfl := Option.some.inj h
    exact ⟨0, by constructor⟩
  | bare => cases h
  | var m x => exact costs_of_read hrun h
  | app m f a =>
    obtain ⟨g, hg, h⟩ := Option.bind_eq_some_iff.1 h
    obtain ⟨w, hw, h⟩ := Option.bind_eq_some_iff.1 h
    obtain ⟨i, hf⟩ := hrun _ _ _ hg
    obtain ⟨j, ha⟩ := hrun _ _ _ hw
    cases g with
    | int | bool => cases h
    | closure ρ₀ x b =>
      obtain ⟨k, hb⟩ := hrun _ _ _ h
      exact ⟨_, .closure hf ha hb⟩
    | sum =>
      obtain rfl := Option.some.inj h
      exact ⟨_, .sum hf ha⟩
    | sumFrom l =>
      obtain ⟨p, hp, h⟩ := Option.bind_eq_some_iff.1 h
      obtain ⟨q, hq, h⟩ := Option.bind_eq_some_iff.1 h
      obtain rfl := Option.some.inj h
      exact ⟨_, .sumFrom hf ha hp hq⟩
  | letIn m x e b =>
    obtain ⟨w, hw, h⟩ := Option.bind_eq_some_iff.1 h
    obtain ⟨i, hv⟩ := hrun _ _ _ hw
    obtain ⟨j, hb⟩ := hrun _ _ _ h
    exact ⟨_, .letIn hv hb⟩
  | letRec m x e b =>
    obtain ⟨w, hw, h⟩ := Option.bind_eq_some_iff.1 h
    obtain ⟨i, hv⟩ := hrun _ _ _ hw
    obtain ⟨j, hb⟩ := hrun _ _ _ h
    exact ⟨_, .letRec hv hb⟩
  | binary m op l r =>
    obtain ⟨u, hu, h⟩ := Option.bind_eq_some_iff.1 h
    obtain ⟨p, hp, h⟩ := Option.bind_eq_some_iff.1 h
    obtain ⟨w, hw, h⟩ := Option.bind_eq_some_iff.1 h
    obtain ⟨q, hq, h⟩ := Option.bind_eq_some_iff.1 h
    obtain rfl := Option.some.inj h
    obtain ⟨i, hl⟩ := hrun _ _ _ hu
    obtain ⟨j, hr⟩ := hrun _ _ _ hw
    exact ⟨_, .binary hl hr hp hq⟩
  | cond m c t e =>
    obtain ⟨u, hu, h⟩ := Option.bind_eq_some_iff.1 h
    obtain ⟨i, hc⟩ := hrun _ _ _ hu
    have hb : run ρ (if u.holds then t else e) = some v := by
      split at h
      · rename_i hu
        rwa [if_pos hu]
      · rename_i hu
        rwa [if_neg hu]
    obtain ⟨j, hb⟩ := hrun _ _ _ hb
    exact ⟨_, .cond hc hb⟩

theorem Evaluates.costs (h : Evaluates ρ e v) : ∃ k, Costs ρ e v k := by
  obtain ⟨n, hn⟩ := h
  induction n generalizing ρ e v with
  | zero => cases hn
  | succ n ih => exact costs_of_step (fun _ _ _ h => ih h) hn

theorem Costs.unique {i j : Nat} (hv : Costs ρ e v i) (hw : Costs ρ e w j) : v = w :=
  hv.evaluates.unique hw.evaluates

theorem Costs.remark {k : Nat} (h : Costs ρ (var m x) v k) (m' : Mark) :
    Costs ρ (var m' x) v k := by
  generalize he : var m x = e at h
  induction h with
  | bound =>
    cases he
    exact .bound
  | unfolded h =>
    cases he
    exact .unfolded h
  | outer hρ hx _ ih =>
    cases he
    exact .outer hρ hx (ih rfl)
  | _ => cases he

theorem costs_var_iff {k : Nat} (hρ : ρ.Extends y ρ₁) (hx : x ≠ y) :
    Costs ρ₁ (var m x) v k ↔ Costs ρ (var m x) v k := by
  constructor
  · intro h
    cases hρ with
    | bind w =>
      cases h with
      | bound => exact absurd rfl hx
      | outer hρ hx h =>
        cases hρ
        exact h
    | recursive e =>
      cases h with
      | unfolded => exact absurd rfl hx
      | outer hρ hx h =>
        cases hρ
        exact h
  · exact .outer hρ hx

theorem costs_bound_iff {k : Nat} : Costs (.bind ρ x w) (var m x) v k ↔ v = w ∧ k = 0 := by
  constructor
  · intro h
    cases h with
    | bound => exact ⟨rfl, rfl⟩
    | outer hρ hx =>
      cases hρ
      exact absurd rfl hx
  · rintro ⟨rfl, rfl⟩
    exact .bound

theorem costs_unfolded_iff {k : Nat} :
    Costs (.recursive ρ x e) (var m x) v k ↔ ∃ j, Costs (.recursive ρ x e) e v j ∧ k = j + 1 := by
  constructor
  · intro h
    cases h with
    | unfolded h => exact ⟨_, h, rfl⟩
    | outer hρ hx =>
      cases hρ
      exact absurd rfl hx
  · rintro ⟨j, h, rfl⟩
    exact .unfolded h

def Calls : Value → Value → Value → Nat → Prop
  | .closure ρ x b, w, v, k => Costs (ρ.bind x w) b v k
  | .sum, w, v, k => v = .sumFrom w ∧ k = 0
  | .sumFrom l, w, v, k =>
    ∃ p q, l.number? = some p ∧ w.number? = some q ∧ v = .int (p + q) ∧ k = 0
  | .int _, _, _, _ | .bool _, _, _, _ => False

theorem costs_app_iff {n : Nat} : Costs ρ (app m f a) v n ↔
    ∃ g w i j k, Costs ρ f g i ∧ Costs ρ a w j ∧ Calls g w v k ∧ n = i + j + k + 1 := by
  constructor
  · intro h
    cases h with
    | closure hf ha hb => exact ⟨_, _, _, _, _, hf, ha, hb, rfl⟩
    | sum hf ha => exact ⟨_, _, _, _, 0, hf, ha, ⟨rfl, rfl⟩, rfl⟩
    | sumFrom hf ha hl hw => exact ⟨_, _, _, _, 0, hf, ha, ⟨_, _, hl, hw, rfl, rfl⟩, rfl⟩
  · rintro ⟨g, w, i, j, k, hf, ha, hc, rfl⟩
    cases g with
    | int | bool => exact hc.elim
    | closure => exact .closure hf ha hc
    | sum =>
      obtain ⟨rfl, rfl⟩ := hc
      exact .sum hf ha
    | sumFrom l =>
      obtain ⟨p, q, hl, hw, rfl, rfl⟩ := hc
      exact .sumFrom hf ha hl hw

theorem Calls.unique {g k : Value} {i j : Nat} (hv : Calls g k v i) (hw : Calls g k w j) :
    v = w := by
  cases g with
  | int | bool => exact hv.elim
  | closure => exact Costs.unique hv hw
  | sum => exact hv.1.trans hw.1.symm
  | sumFrom l =>
    obtain ⟨p, q, hp, hq, rfl, _⟩ := hv
    obtain ⟨p', q', hp', hq', rfl, _⟩ := hw
    rw [Option.some.inj (hp.symm.trans hp'), Option.some.inj (hq.symm.trans hq')]

end Expr
end LetLower
