import LetLower.Proofs.Eval.Cost
import LetLower.Proofs.Expr.Rename

/-!
# Approximation

An expression approximates another one up to `n` when each value that it comes to with at most `n`
calls is approximated, for what is left of the calls, by a value of the other. A constant
approximates itself only; a function approximates one that gives approximated results for
approximated arguments. With `s` the other one must not make more calls: approximation for all
numbers of calls can then be put before one for a given number, and without `s` after it.
-/

namespace LetLower

namespace Value

def constant? : Value → Option (Int ⊕ Bool)
  | int n => some (.inl n)
  | bool b => some (.inr b)
  | closure .. | sum | sumFrom _ => none

theorem number?_congr {u v : Value} (h : u.constant? = v.constant?) : u.number? = v.number? := by
  cases u <;> cases v <;> cases h <;> rfl

theorem holds_congr {u v : Value} (h : u.constant? = v.constant?) : u.holds = v.holds := by
  cases u <;> cases v <;> cases h <;> rfl

theorem isFunction_congr {u v : Value} (h : u.constant? = v.constant?) :
    u.isFunction = v.isFunction := by
  cases u <;> cases v <;> cases h <;> rfl

theorem eq_of_constant? {u v : Value} (h : u.constant? = v.constant?)
    (hu : u.isFunction = false) : u = v := by
  cases u <;> cases v <;> cases h <;> first | rfl | cases hu

def Approx (s : Prop) (n : Nat) (f f' : Value) : Prop :=
  f.constant? = f'.constant? ∧
    ∀ m, m < n → ∀ a a', Approx s m a a' → ∀ k, k ≤ m → ∀ v, Expr.Calls f a v k →
      ∃ v' k', Expr.Calls f' a' v' k' ∧ (s → k' ≤ k) ∧ Approx s (m - k) v v'
termination_by n

/-- Each outcome with at most `n` calls is approximated, for the calls that are left, by an outcome
on the other side. -/
def Follows (s : Prop) (n : Nat) (P P' : Value → Nat → Prop) : Prop :=
  ∀ k, k ≤ n → ∀ v, P v k → ∃ v' k', P' v' k' ∧ (s → k' ≤ k) ∧ Approx s (n - k) v v'

variable {s : Prop} {m n : Nat} {f f' a a' : Value} {P Q R : Value → Nat → Prop}

theorem approx_iff : Approx s n f f' ↔ f.constant? = f'.constant? ∧
    ∀ m, m < n → ∀ a a', Approx s m a a' →
      Follows s m (Expr.Calls f a) (Expr.Calls f' a') := by
  rw [Approx]
  rfl

theorem Approx.constant? (h : Approx s n f f') : f.constant? = f'.constant? := (approx_iff.1 h).1

theorem Approx.calls (h : Approx s n f f') (hm : m < n) (ha : Approx s m a a') :
    Follows s m (Expr.Calls f a) (Expr.Calls f' a') :=
  (approx_iff.1 h).2 m hm a a' ha

theorem Approx.mono (h : Approx s n f f') (hm : m ≤ n) : Approx s m f f' :=
  approx_iff.2 ⟨h.constant?, fun _ hi _ _ ha => h.calls (Nat.lt_of_lt_of_le hi hm) ha⟩

theorem Follows.mono (h : Follows s n P Q) (hm : m ≤ n) : Follows s m P Q := by
  intro k hk v hv
  obtain ⟨v', k', hv', hs, hvv⟩ := h k (Nat.le_trans hk hm) v hv
  exact ⟨v', k', hv', hs, hvv.mono (Nat.sub_le_sub_right hm k)⟩

theorem approx_int (i : Int) : Approx s n (.int i) (.int i) :=
  approx_iff.2 ⟨rfl, fun _ _ _ _ _ _ _ _ h => h.elim⟩

theorem approx_bool (b : Bool) : Approx s n (.bool b) (.bool b) :=
  approx_iff.2 ⟨rfl, fun _ _ _ _ _ _ _ _ h => h.elim⟩

theorem approx_compute (op : Operator) (i j : Int) :
    Approx s n (op.compute i j) (op.compute i j) := by
  cases op with
  | add | sub => exact approx_int _
  | less => exact approx_bool _

theorem approx_sumFrom (h : Approx s n a a') : Approx s n (.sumFrom a) (.sumFrom a') := by
  refine approx_iff.2 ⟨rfl, fun m _ b b' hb k hk v hv => ?_⟩
  obtain ⟨p, q, hp, hq, rfl, rfl⟩ := hv
  refine ⟨.int (p + q), 0, ⟨p, q, ?_, ?_, rfl, rfl⟩, fun _ => Nat.le_refl 0, approx_int _⟩
  · rwa [← number?_congr h.constant?]
  · rwa [← number?_congr hb.constant?]

theorem approx_sum : Approx s n .sum .sum := by
  refine approx_iff.2 ⟨rfl, fun m _ b b' hb k hk v hv => ?_⟩
  obtain ⟨rfl, rfl⟩ := hv
  exact ⟨.sumFrom b', 0, ⟨rfl, rfl⟩, fun _ => Nat.le_refl 0, approx_sumFrom hb⟩

end Value

namespace Expr

open Value (Follows)

def Approx (s : Prop) (n : Nat) (ρ : ValueEnv) (e : Expr) (ρ' : ValueEnv) (e' : Expr) : Prop :=
  Follows s n (Costs ρ e) (Costs ρ' e')

section

variable {s : Prop} {n : Nat} {ρ ρ' ρ₁ ρ₁' : ValueEnv} {e e' f f' a a' v v' b b' c c' : Expr}
  {i j : Mark} {x y z : String} {op : Operator}

theorem Approx.mono {m : Nat} (h : Approx s n ρ e ρ' e') (hm : m ≤ n) : Approx s m ρ e ρ' e' :=
  Follows.mono h hm

theorem approx_int (k : Int) : Approx s n ρ (int i k) ρ' (int j k) := by
  intro k hk v hv
  cases hv
  exact ⟨_, 0, .int, fun _ => Nat.le_refl 0, Value.approx_int _⟩

theorem approx_bool (k : Bool) : Approx s n ρ (bool i k) ρ' (bool j k) := by
  intro k hk v hv
  cases hv
  exact ⟨_, 0, .bool, fun _ => Nat.le_refl 0, Value.approx_bool _⟩

theorem approx_closure
    (h : ∀ m, m < n → ∀ w w', Value.Approx s m w w' →
      Approx s m (ρ.bind x w) b (ρ'.bind y w') b') :
    Value.Approx s n (.closure ρ x b) (.closure ρ' y b') :=
  Value.approx_iff.2 ⟨rfl, h⟩

theorem approx_lam
    (h : ∀ m, m < n → ∀ w w', Value.Approx s m w w' →
      Approx s m (ρ.bind x w) b (ρ'.bind y w') b') :
    Approx s n ρ (lam i x b) ρ' (lam j y b') := by
  intro k hk v hv
  cases hv
  exact ⟨_, 0, .lam, fun _ => Nat.le_refl 0, approx_closure h⟩

theorem approx_app (hf : Approx s n ρ f ρ' f') (ha : Approx s n ρ a ρ' a') :
    Approx s n ρ (app i f a) ρ' (app j f' a') := by
  intro k hk v hv
  obtain ⟨g, w, kf, ka, kc, hg, hw, hc, rfl⟩ := costs_app_iff.1 hv
  obtain ⟨g', kf', hg', hsf, hgg⟩ := hf kf (by omega) g hg
  obtain ⟨w', ka', hw', hsa, hww⟩ := ha ka (by omega) w hw
  have hcall := hgg.calls (m := n - kf - ka - 1) (by omega) (hww.mono (by omega))
  obtain ⟨v', kc', hc', hsc, hvv⟩ := hcall kc (by omega) v hc
  refine ⟨v', _, costs_app_iff.2 ⟨g', w', kf', ka', kc', hg', hw', hc', rfl⟩, fun hs => ?_, ?_⟩
  · have := hsf hs
    have := hsa hs
    have := hsc hs
    omega
  · exact hvv.mono (by omega)

theorem approx_letIn (hv : Approx s n ρ v ρ' v')
    (hb : ∀ m, m ≤ n → ∀ w w', Value.Approx s m w w' →
      Approx s m (ρ.bind x w) b (ρ'.bind y w') b') :
    Approx s n ρ (letIn i x v b) ρ' (letIn j y v' b') := by
  intro k hk u hu
  cases hu with
  | @letIn _ _ _ _ _ w _ kv kb hw hu =>
    obtain ⟨w', kv', hw', hsv, hww⟩ := hv kv (by omega) w hw
    obtain ⟨u', kb', hu', hsb, huu⟩ := hb _ (Nat.sub_le n kv) w w' hww kb (by omega) u hu
    refine ⟨u', kv' + kb', .letIn hw' hu', fun hs => Nat.add_le_add (hsv hs) (hsb hs), ?_⟩
    rwa [← Nat.sub_sub]

/-- Each use of a recursive name is a call, so approximation of the values is shown for a number of
calls by that of the name for the same number. -/
theorem approx_recursive
    (hv : ∀ m, m ≤ n → Approx s m (ρ.recursive x v) (var i x) (ρ'.recursive y v') (var j y) →
      Approx s m (ρ.recursive x v) v (ρ'.recursive y v') v') :
    Approx s n (ρ.recursive x v) (var i x) (ρ'.recursive y v') (var j y) := by
  induction n with
  | zero =>
    intro k hk w hw
    obtain ⟨k, _, rfl⟩ := costs_unfolded_iff.1 hw
    exact absurd hk (Nat.not_succ_le_zero k)
  | succ n ih =>
    intro k hk w hw
    obtain ⟨k, hw₁, rfl⟩ := costs_unfolded_iff.1 hw
    have hx := ih fun m hm => hv m (Nat.le_succ_of_le hm)
    obtain ⟨w', k', hw', hs, hww⟩ := hv n (Nat.le_succ n) hx k (Nat.le_of_succ_le_succ hk) w hw₁
    refine ⟨w', k' + 1, .unfolded hw', fun h => Nat.succ_le_succ (hs h), ?_⟩
    rwa [Nat.add_sub_add_right]

theorem approx_letRec
    (hv : ∀ m, m ≤ n → Approx s m (ρ.recursive x v) (var {} x) (ρ'.recursive y v') (var {} y) →
      Approx s m (ρ.recursive x v) v (ρ'.recursive y v') v')
    (hb : ∀ m, m ≤ n → ∀ w w', Value.Approx s m w w' →
      Approx s m (ρ.bind x w) b (ρ'.bind y w') b') :
    Approx s n ρ (letRec i x v b) ρ' (letRec j y v' b') := by
  intro k hk u hu
  cases hu with
  | @letRec _ _ _ _ _ w _ kv kb hw hu =>
    have hx := approx_recursive (i := {}) (j := {}) hv
    obtain ⟨w', kv', hw', hsv, hww⟩ := hv n (Nat.le_refl n) hx kv (by omega) w hw
    obtain ⟨u', kb', hu', hsb, huu⟩ := hb _ (Nat.sub_le n kv) w w' hww kb (by omega) u hu
    refine ⟨u', kv' + kb', .letRec hw' hu', fun hs => Nat.add_le_add (hsv hs) (hsb hs), ?_⟩
    rwa [← Nat.sub_sub]

theorem approx_binary (hl : Approx s n ρ a ρ' a') (hr : Approx s n ρ b ρ' b') :
    Approx s n ρ (binary i op a b) ρ' (binary j op a' b') := by
  intro k hk v hv
  cases hv with
  | @binary _ _ _ _ _ u w p q kl kr hu hw hp hq =>
    obtain ⟨u', kl', hu', hsl, huu⟩ := hl kl (by omega) u hu
    obtain ⟨w', kr', hw', hsr, hww⟩ := hr kr (by omega) w hw
    rw [Value.number?_congr huu.constant?] at hp
    rw [Value.number?_congr hww.constant?] at hq
    exact ⟨_, kl' + kr', .binary hu' hw' hp hq, fun hs => Nat.add_le_add (hsl hs) (hsr hs),
      Value.approx_compute _ _ _⟩

theorem approx_cond (hc : Approx s n ρ c ρ' c') (ha : Approx s n ρ a ρ' a')
    (hb : Approx s n ρ b ρ' b') : Approx s n ρ (cond i c a b) ρ' (cond j c' a' b') := by
  intro k hk v hv
  cases hv with
  | @cond _ _ _ _ _ u _ kc kb hu hv =>
    obtain ⟨u', kc', hu', hsc, huu⟩ := hc kc (by omega) u hu
    have hbranch : Approx s n ρ (if u.holds then a else b) ρ' (if u'.holds then a' else b') := by
      rw [Value.holds_congr huu.constant?]
      split
      · exact ha
      · exact hb
    obtain ⟨v', kb', hv', hsb, hvv⟩ := hbranch kb (by omega) v hv
    exact ⟨v', kc' + kb', .cond hu' hv', fun hs => Nat.add_le_add (hsc hs) (hsb hs),
      hvv.mono (by omega)⟩

/-! ### Names -/

theorem approx_bound {w w' : Value} (h : Value.Approx s n w w') :
    Approx s n (ρ.bind x w) (var i x) (ρ'.bind y w') (var j y) := by
  intro k hk u hu
  obtain ⟨rfl, rfl⟩ := costs_bound_iff.1 hu
  exact ⟨w', 0, .bound, fun _ => Nat.le_refl 0, h⟩

theorem Approx.remark (h : Approx s n ρ (var i x) ρ' (var j y)) (i' j' : Mark) :
    Approx s n ρ (var i' x) ρ' (var j' y) := by
  intro k hk v hv
  obtain ⟨v', k', hv', hs, hvv⟩ := h k hk v (hv.remark i)
  exact ⟨v', k', hv'.remark j', hs, hvv⟩

theorem Approx.outer_left (h : Approx s n ρ (var i z) ρ' e') (hρ : ρ.Extends x ρ₁) (hz : z ≠ x) :
    Approx s n ρ₁ (var i z) ρ' e' :=
  fun k hk v hv => h k hk v ((costs_var_iff hρ hz).1 hv)

theorem Approx.outer_right (h : Approx s n ρ e ρ' (var i z)) (hρ : ρ'.Extends x ρ₁')
    (hz : z ≠ x) : Approx s n ρ e ρ₁' (var i z) := by
  intro k hk v hv
  obtain ⟨v', k', hv', hs, hvv⟩ := h k hk v hv
  exact ⟨v', k', .outer hρ hz hv', hs, hvv⟩

end

end Expr
end LetLower
