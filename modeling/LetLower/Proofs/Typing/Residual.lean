import LetLower.Proofs.Builtins
import LetLower.Proofs.Expr.Everywhere
import LetLower.Proofs.Inline.Occurrences

/-!
# Residual programs

What inlining leaves of a straight-line program that is not itself a function. No functions are left
in it but the predefined one, so it has one of four types: a value, or the predefined function with
two arguments, one or none still to come. The typing rules for such programs need neither schemes
nor functions.
-/

namespace LetLower

open TyEnv

/-- The types of values, and of the predefined function before it has all its arguments. -/
inductive Ty.IsResidual : Ty → Prop
  | int : IsResidual .int
  | bool : IsResidual .bool
  | partialSum : IsResidual (.fn .int .int)
  | sum : IsResidual sumTy

def Ty.arity : Ty → Nat
  | fn _ r => r.arity + 1
  | bool | int | var _ | scheme .. | unknown => 0

theorem Ty.arity_eq_zero {t : Ty} : t.arity = 0 ↔ t.isFunction = false := by
  cases t <;> simp only [arity, isFunction, Nat.succ_ne_zero, Bool.true_eq_false]

namespace TyEnv

/-- All names have residual types. -/
def IsResidual (env : TyEnv) : Prop :=
  ∀ x c, env.get? x = some c → ∃ t, t.IsResidual ∧ c = .mono t

def BindsSum (env : TyEnv) : Prop :=
  ∀ x t, env.get? x = some (.mono t) → t.isFunction → x = addName ∧ t = sumTy

end TyEnv

namespace Ty.IsResidual

variable {t a r : Ty}

theorem isPlain (h : t.IsResidual) : t.IsPlain := by
  cases h <;> decide

theorem generalize (h : t.IsResidual) (env : TyEnv) : env.generalize t = .mono t := by
  cases h <;> rfl

theorem of_fn (h : (fn a r).IsResidual) : a = .int ∧ r.IsResidual := by
  cases h with
  | partialSum => exact ⟨rfl, .int⟩
  | sum => exact ⟨rfl, .partialSum⟩

end Ty.IsResidual

namespace TyEnv

variable {env : TyEnv}

theorem IsResidual.insert (h : env.IsResidual) {t : Ty} (ht : t.IsResidual) (x : String) :
    TyEnv.IsResidual (env.insert x (.mono t)) :=
  Bindings.forall_insert (P := fun c : Scheme => ∃ t : Ty, t.IsResidual ∧ c = Scheme.mono t) h
    ⟨t, ht, rfl⟩ x

theorem BindsSum.insert (h : env.BindsSum) {t : Ty} (ht : t.isFunction = false) (x : String) :
    TyEnv.BindsSum (env.insert x (.mono t)) := by
  intro y u hy hu
  rw [Bindings.get?_insert] at hy
  split at hy
  · cases hy
    rw [ht] at hu
    cases hu
  · exact h y u hy hu

theorem IsBuiltin.bindsSum (h : env.IsBuiltin) : env.BindsSum := by
  intro x t hx _
  obtain ⟨hadd, ht⟩ := h x _ hx
  cases ht
  exact ⟨hadd, rfl⟩

theorem IsBuiltin.isResidual (h : env.IsBuiltin) : env.IsResidual := by
  intro x c hx
  exact ⟨sumTy, .sum, (h x c hx).2⟩

end TyEnv

namespace Expr

/-- The typing rules for residual programs, each node being marked with its type. -/
inductive IsResidual : TyEnv → Expr → Ty → Prop
  | int {env m n} (hm : m.ty = some .int) : IsResidual env (.int m n) .int
  | bool {env m b} (hm : m.ty = some .bool) : IsResidual env (.bool m b) .bool
  | var {env m x t} (hm : m.ty = some t) (hx : env.get? x = some (.mono t)) :
      IsResidual env (.var m x) t
  | app {env m f a r} (hm : m.ty = some r) (hf : IsResidual env f (.fn .int r))
      (ha : IsResidual env a .int) : IsResidual env (.app m f a) r
  | letIn {env m x v b a t} (hm : m.ty = some t) (hv : IsResidual env v a)
      (hb : IsResidual (env.insert x (.mono a)) b t) : IsResidual env (.letIn m x v b) t
  | sum {env m l r} (hm : m.ty = some .int) (hl : IsResidual env l .int)
      (hr : IsResidual env r .int) : IsResidual env (.binary m .add l r) .int

variable {env : TyEnv} {e : Expr} {t : Ty}

theorem IsResidual.ty (h : e.IsResidual env t) (henv : env.IsResidual) : t.IsResidual := by
  induction h with
  | int | sum => exact .int
  | bool => exact .bool
  | var _ hx =>
    obtain ⟨u, hu, hc⟩ := henv _ _ hx
    cases hc
    exact hu
  | app _ _ _ ihf _ => exact (ihf henv).of_fn.2
  | letIn _ _ _ ihv ihb => exact ihb (henv.insert (ihv henv) _)

theorem IsResidual.ty?_eq (h : e.IsResidual env t) : e.ty? = some t := by
  cases h with
  | int hm | bool hm | var hm | app hm | letIn hm | sum hm => exact hm

theorem IsResidual.isKnown (h : e.IsResidual env t) : e.isKnown := by
  induction h with
  | int | bool | var => rfl
  | app _ _ _ iha ihb | letIn _ _ _ iha ihb | sum _ _ _ iha ihb =>
    rw [Expr.isKnown, iha, ihb]
    rfl

theorem Derives.isLam_eq_false {agrees : Mark → Ty → Prop} (h : Derives agrees env e t)
    (ht : t.isFunction = false) : e.isLam = false := by
  cases e with
  | lam =>
    cases h
    cases ht
  | int | bool | var | app | letIn | letRec | binary | cond | bare => rfl

/-- A normal straight-line tree that is not itself a function is residual. -/
theorem IsDerivation.isResidual (h : e.IsDerivation env t) (henv : env.IsResidual)
    (hn : e.IsNormal) (hs : e.IsStraightLine) (hl : e.isLam = false) : e.IsResidual env t := by
  unfold IsDerivation at h
  induction h with
  | int hm => exact .int hm
  | bool hm => exact .bool hm
  | var hm hx hc =>
    obtain ⟨u, hu, rfl⟩ := henv _ _ hx
    obtain rfl := (Scheme.hasInstance_mono_iff hu.isPlain).1 hc
    exact .var hm hx
  | lam => cases hl
  | app hm _ ha ihf iha =>
    obtain ⟨hfl, hnf, hna⟩ := everywhere_app.1 hn
    obtain ⟨_, hsf, hsa⟩ := everywhere_app.1 hs
    have hf := ihf henv hnf hsf hfl
    obtain ⟨rfl, _⟩ := (hf.ty henv).of_fn
    exact .app hm hf (iha henv hna hsa (ha.isLam_eq_false rfl))
  | @letIn _ _ x _ _ _ _ hm _ _ ihv ihb =>
    obtain ⟨hself, hnv, hnb⟩ := everywhere_letIn.1 hn
    obtain ⟨_, hsv, hsb⟩ := everywhere_letIn.1 hs
    obtain ⟨hvl, hbl⟩ := Bool.or_eq_false_iff.1 hself
    have hv := ihv henv hnv hsv hvl
    have ha := hv.ty henv
    rw [ha.generalize] at ihb
    exact .letIn hm hv (ihb (henv.insert ha x) hnb hsb hbl)
  | letRec | cond => cases hs _ (mem_subtrees_self _)
  | @binary _ _ op _ _ hm hl' hr' ihl ihr =>
    obtain ⟨_, hnl, hnr⟩ := everywhere_binary.1 hn
    obtain ⟨hself, hsl, hsr⟩ := everywhere_binary.1 hs
    cases op with
    | add =>
      exact .sum hm (ihl henv hnl hsl (hl'.isLam_eq_false rfl))
        (ihr henv hnr hsr (hr'.isLam_eq_false rfl))
    | sub | less => cases hself

theorem bindsData_letIn {m : Mark} {x : String} {v b : Expr} {a : Ty} (hv : v.ty? = some a) :
    (letIn m x v b).BindsData ↔ a.isFunction = false ∧ v.BindsData ∧ b.BindsData := by
  refine everywhere_letIn.trans (and_congr_left fun _ => ?_)
  rw [bindsFunction, hv]
  rfl

theorem yieldsData_letIn {m : Mark} {x : String} {v b : Expr} (hm : m.ty = some t) :
    (letIn m x v b).YieldsData ↔ t.isFunction = false ∧ v.YieldsData ∧ b.YieldsData := by
  refine everywhere_letIn.trans (and_congr_left fun _ => ?_)
  rw [yieldsFunction, hm]
  rfl

/-- Where the predefined function has all its arguments, no function is bound or yielded by a
`let`. -/
theorem IsResidual.saturated {k : Nat} (h : e.IsResidual env t) (henv : env.BindsSum)
    (he : env.get? addName = some (.mono sumTy) → e.EachFree (fun l _ => 2 ≤ l) addName k) :
    t.arity ≤ k ∧ e.BindsData ∧ e.YieldsData := by
  induction h generalizing k with
  | int | bool =>
    exact ⟨Nat.zero_le k, List.forall_mem_singleton.2 rfl, List.forall_mem_singleton.2 rfl⟩
  | @var env m x t hm hx =>
    refine ⟨?_, List.forall_mem_singleton.2 rfl, List.forall_mem_singleton.2 rfl⟩
    cases ht : t.isFunction with
    | true =>
      obtain ⟨rfl, rfl⟩ := henv x t hx ht
      exact he hx rfl
    | false =>
      rw [Ty.arity_eq_zero.2 ht]
      exact Nat.zero_le k
  | app _ _ _ ihf iha =>
    have hf := ihf henv fun h => (he h).1
    have ha := iha (k := 0) henv fun h => (he h).2
    exact ⟨Nat.le_of_succ_le_succ hf.1, everywhere_app.2 ⟨rfl, hf.2.1, ha.2.1⟩,
      everywhere_app.2 ⟨rfl, hf.2.2, ha.2.2⟩⟩
  | @letIn env m x v b a t hm hv _ ihv ihb =>
    have hv' := ihv (k := 0) henv fun h => (he h).1
    have ha : a.isFunction = false := Ty.arity_eq_zero.1 (Nat.le_zero.1 hv'.1)
    have hsum : Bindings.get? (env.insert x (.mono a)) addName = some (.mono sumTy) →
        b.EachFree (fun l _ => 2 ≤ l) addName 0 := by
      intro hadd
      rw [Bindings.get?_insert] at hadd
      split at hadd
      · cases hadd
        cases ha
      · rename_i hx
        exact (he hadd).2.resolve_left (Ne.symm hx)
    have hb' := ihb (henv.insert ha x) hsum
    have ht : t.isFunction = false := Ty.arity_eq_zero.1 (Nat.le_zero.1 hb'.1)
    exact ⟨Nat.le_trans hb'.1 (Nat.zero_le k), (bindsData_letIn hv.ty?_eq).2 ⟨ha, hv'.2.1, hb'.2.1⟩,
      (yieldsData_letIn hm).2 ⟨ht, hv'.2.2, hb'.2.2⟩⟩
  | sum _ _ _ ihl ihr =>
    have hl := ihl (k := 0) henv fun h => (he h).1
    have hr := ihr (k := 0) henv fun h => (he h).2
    exact ⟨Nat.zero_le k, everywhere_binary.2 ⟨rfl, hl.2.1, hr.2.1⟩,
      everywhere_binary.2 ⟨rfl, hl.2.2, hr.2.2⟩⟩

end Expr
end LetLower
