import LetLower.Proofs.Eval.Approx
import LetLower.Proofs.Expr.Marks
import LetLower.Proofs.Expr.Parts

/-!
# Renaming, reflexivity and composition

Renaming a free name is followed by evaluation call by call, and so is a change of what the nodes
carry. From this every value approximates itself, and approximations can be composed when one of
them holds for all numbers of calls.
-/

namespace LetLower

namespace Expr

variable {s : Prop} {m n : Nat} {ρ ρ' ρ₁ ρ₁' : ValueEnv} {e e' : Expr} {x y z : String}
  {N : String → Prop}

/-- Each of the names is approximated by what stands for it. -/
def Answers (s : Prop) (n : Nat) (N : String → Prop) (ρ ρ' : ValueEnv) (g : String → Expr) :
    Prop :=
  ∀ z, N z → Approx s n ρ (var {} z) ρ' (g z)

theorem Answers.mono {g : String → Expr} {N' : String → Prop} (h : Answers s n N ρ ρ' g)
    (hm : m ≤ n) (hN : ∀ z, N' z → N z) : Answers s m N' ρ ρ' g :=
  fun z hz => (h z (hN z hz)).mono hm

theorem Answers.outside {b : Expr} {g : String → Expr} (h : Answers s n (· ∈ e.free) ρ ρ' g)
    (hb : Outside b e) : Answers s n (· ∈ b.free) ρ ρ' g :=
  h.mono (Nat.le_refl n) fun _ => hb.free

def renamedVar (x y z : String) : Expr := var {} (if z = x then y else z)

theorem Answers.under (h : Answers s n (fun u => N u ∧ u ≠ z) ρ ρ' (renamedVar x y))
    (hy : y = x ∨ y ≠ z) (hρ : ρ.Extends z ρ₁) (hρ' : ρ'.Extends z ρ₁')
    (hz : Approx s n ρ₁ (var {} z) ρ₁' (var {} z)) :
    Answers s n N ρ₁ ρ₁' (renamedVar x (if z = x then x else y)) := by
  intro u hu
  by_cases huz : u = z
  · have hself : (if u = x then if z = x then x else y else u) = z := by
      rw [huz]
      split
      · rename_i hzx
        exact hzx.symm
      · rfl
    rw [renamedVar, hself, huz]
    exact hz
  · have hu₁ := h u ⟨hu, huz⟩
    have hne : (if u = x then y else u) ≠ z := by
      split
      · rename_i hux
        rcases hy with rfl | hy
        · exact hux ▸ huz
        · exact hy
      · exact huz
    have hsame : (if u = x then if z = x then x else y else u) = if u = x then y else u := by
      split
      · rename_i hux
        rw [if_neg fun hzx => huz (hux.trans hzx.symm)]
      · rfl
    rw [renamedVar, hsame]
    exact (hu₁.outer_left hρ huz).outer_right hρ' hne

theorem approx_rename (f g : Mark → Mark) (hy : y = x ∨ y ∉ e.names)
    (hs : Answers s n (· ∈ e.free) ρ ρ' (renamedVar x y)) :
    Approx s n ρ (e.mapMark f) ρ' ((e.rename x y).mapMark g) := by
  induction e generalizing n ρ ρ' x y with
  | int => exact approx_int _
  | bool => exact approx_bool _
  | bare =>
    intro k hk v hv
    cases hv
  | var m z =>
    rw [rename_var]
    exact (hs z (NameSet.mem_single.2 rfl)).remark _ _
  | lam m z b ih =>
    rw [rename_lam]
    refine approx_lam fun i hi w w' hw => ih (fresh_inside hy .lam) ?_
    exact (hs.mono (Nat.le_of_lt hi) fun u => Inside.lam.free).under
      (fresh_name hy .lam) (.bind w) (.bind w') (approx_bound hw)
  | app m a b iha ihb =>
    exact approx_app (iha (fresh_outside hy .callee) (hs.outside .callee))
      (ihb (fresh_outside hy .argument) (hs.outside .argument))
  | binary m op a b iha ihb =>
    exact approx_binary (iha (fresh_outside hy .left) (hs.outside .left))
      (ihb (fresh_outside hy .right) (hs.outside .right))
  | letIn m z v b ihv ihb =>
    rw [rename_letIn]
    refine approx_letIn (ihv (fresh_outside hy .value) (hs.outside .value)) fun i hi w w' hw => ?_
    refine ihb (fresh_inside hy .letIn) ?_
    exact (hs.mono hi fun u => Inside.letIn.free).under
      (fresh_name hy .letIn) (.bind w) (.bind w') (approx_bound hw)
  | letRec m z v b ihv ihb =>
    rw [rename_letRec]
    refine approx_letRec (fun i hi hz => ?_) fun i hi w w' hw => ?_
    · refine ihv (fresh_inside hy .recursive) ?_
      exact (hs.mono hi fun u => Inside.recursive.free).under
        (fresh_name hy .recursive) (.recursive _) (.recursive _) hz
    · refine ihb (fresh_inside hy .letRec) ?_
      exact (hs.mono hi fun u => Inside.letRec.free).under
        (fresh_name hy .letRec) (.bind w) (.bind w') (approx_bound hw)
  | cond m a b c iha ihb ihc =>
    exact approx_cond (iha (fresh_outside hy .condition) (hs.outside .condition))
      (ihb (fresh_outside hy .thenBranch) (hs.outside .thenBranch))
      (ihc (fresh_outside hy .elseBranch) (hs.outside .elseBranch))

theorem renamedVar_self (x : String) : renamedVar x x = var {} := by
  funext z
  rw [renamedVar]
  split
  · rw [‹z = x›]
  · rfl

theorem approx_self (hs : Answers s n (· ∈ e.free) ρ ρ' (var {})) : Approx s n ρ e ρ' e := by
  rw [← renamedVar_self ""] at hs
  have h := approx_rename id id (.inl rfl) hs
  rwa [rename_self, mapMark_id] at h

end Expr

open LetLower.Expr

mutual

theorem Value.approx_refl (s : Prop) (n : Nat) : (v : Value) → v.Approx s n v
  | .int i => Value.approx_int i
  | .bool b => Value.approx_bool b
  | .sum => Value.approx_sum
  | .sumFrom l => Value.approx_sumFrom (Value.approx_refl s n l)
  | .closure ρ x b => approx_closure fun m _ w w' hw => approx_self fun z _ => by
      by_cases hz : z = x
      · rw [hz]
        exact approx_bound hw
      · exact ((ValueEnv.approx_refl s m ρ z).outer_left (.bind w) hz).outer_right (.bind w') hz

theorem ValueEnv.approx_refl (s : Prop) (n : Nat) :
    (ρ : ValueEnv) → ∀ z, Expr.Approx s n ρ (.var {} z) ρ (.var {} z)
  | .empty, z => by
    intro k _ v hv
    cases hv with
    | outer hρ => cases hρ
  | .bind ρ x w, z => by
    by_cases hz : z = x
    · rw [hz]
      exact approx_bound (Value.approx_refl s n w)
    · exact ((ValueEnv.approx_refl s n ρ z).outer_left (.bind w) hz).outer_right (.bind w) hz
  | .recursive ρ x e, z => by
    by_cases hz : z = x
    · rw [hz]
      refine approx_recursive fun m hm hx => approx_self fun u _ => ?_
      by_cases hu : u = x
      · rw [hu]
        exact hx.remark _ _
      · exact ((ValueEnv.approx_refl s m ρ u).outer_left (.recursive e) hu).outer_right
          (.recursive e) hu
    · exact ((ValueEnv.approx_refl s n ρ z).outer_left (.recursive e) hz).outer_right
        (.recursive e) hz

end

namespace Value

variable {s : Prop} {n : Nat} {u v w : Value} {P Q R : Value → Nat → Prop}

def Functional (P : Value → Nat → Prop) : Prop := ∀ v w i j, P v i → P w j → v = w

/-- Where nothing else comes out on the other side, one outcome there serves all numbers of
calls. -/
theorem Follows.forall (h : ∀ n, Follows s n P Q) (hQ : Functional Q) {k : Nat} (hv : P v k) :
    ∃ v' k', Q v' k' ∧ (s → k' ≤ k) ∧ ∀ n, Approx s n v v' := by
  obtain ⟨v', k', hv', hs, _⟩ := h k k (Nat.le_refl k) v hv
  refine ⟨v', k', hv', hs, fun n => ?_⟩
  obtain ⟨v'', k'', hv'', _, hvv⟩ := h (n + k) k (Nat.le_add_left k n) v hv
  rw [Nat.add_sub_cancel] at hvv
  rwa [hQ v' v'' k' k'' hv' hv'']

theorem Follows.trans_left (h : ∀ n, Follows True n P Q) (hQ : Functional Q)
    (hr : Follows s n Q R)
    (ht : ∀ m, m ≤ n → ∀ u v w, (∀ i, Approx True i u v) → Approx s m v w → Approx s m u w) :
    Follows s n P R := by
  intro k hk v hv
  obtain ⟨v', k', hv', hs, hvv⟩ := Follows.forall h hQ hv
  obtain ⟨w, k'', hw, hs', hvw⟩ := hr k' (Nat.le_trans (hs trivial) hk) v' hv'
  refine ⟨w, k'', hw, fun h => Nat.le_trans (hs' h) (hs trivial), ?_⟩
  exact ht _ (Nat.sub_le n k) v v' w hvv (hvw.mono (Nat.sub_le_sub_left (hs trivial) n))

theorem Follows.trans_right (h : Follows False n P Q) (hr : ∀ n, Follows False n Q R)
    (hR : Functional R)
    (ht : ∀ m, m ≤ n → ∀ u v w, Approx False m u v → (∀ i, Approx False i v w) →
      Approx False m u w) :
    Follows False n P R := by
  intro k hk v hv
  obtain ⟨v', k', hv', _, hvv⟩ := h k hk v hv
  obtain ⟨w, k'', hw, _, hvw⟩ := Follows.forall hr hR hv'
  exact ⟨w, k'', hw, False.elim, ht _ (Nat.sub_le n k) v v' w hvv hvw⟩

/-- Approximation without more calls comes before any other. -/
theorem Approx.trans_left (h : ∀ n, Approx True n u v) (hw : Approx s n v w) :
    Approx s n u w := by
  induction n using Nat.strongRecOn generalizing u v w with
  | ind n ih =>
    refine approx_iff.2 ⟨(h 0).constant?.trans hw.constant?, fun m hm a a' ha => ?_⟩
    refine Follows.trans_left
      (fun i => (h (i + 1)).calls (Nat.lt_succ_self i) (approx_refl True i a))
      (fun _ _ _ _ => Calls.unique) (hw.calls hm ha) fun i hi _ _ _ h hw => ?_
    exact ih i (Nat.lt_of_le_of_lt hi hm) h hw

/-- Approximation for all numbers of calls comes after any other. -/
theorem Approx.trans_right (h : Approx False n u v) (hw : ∀ n, Approx False n v w) :
    Approx False n u w := by
  induction n using Nat.strongRecOn generalizing u v w with
  | ind n ih =>
    refine approx_iff.2 ⟨h.constant?.trans (hw 0).constant?, fun m hm a a' ha => ?_⟩
    refine Follows.trans_right (h.calls hm ha)
      (fun i => (hw (i + 1)).calls (Nat.lt_succ_self i) (approx_refl False i a'))
      (fun _ _ _ _ => Calls.unique) fun i hi _ _ _ h hw => ?_
    exact ih i (Nat.lt_of_le_of_lt hi hm) h hw

end Value

namespace Expr

variable {s : Prop} {n : Nat} {ρ ρ' ρ₁ ρ₁' ρ₂ : ValueEnv} {e e' e₁ e₂ : Expr} {x y z : String}

theorem Approx.trans_left (h : ∀ n, Approx True n ρ e ρ₁ e₁) (hw : Approx s n ρ₁ e₁ ρ₂ e₂) :
    Approx s n ρ e ρ₂ e₂ :=
  Value.Follows.trans_left h (fun _ _ _ _ => Costs.unique) hw fun _ _ _ _ _ => .trans_left

theorem Approx.trans_right (h : Approx False n ρ e ρ₁ e₁)
    (hw : ∀ n, Approx False n ρ₁ e₁ ρ₂ e₂) : Approx False n ρ e ρ₂ e₂ :=
  Value.Follows.trans_right h hw (fun _ _ _ _ => Costs.unique) fun _ _ _ _ _ => .trans_right

theorem Approx.forall (h : ∀ n, Approx s n ρ e ρ' e') {v : Value} {k : Nat} (hv : Costs ρ e v k) :
    ∃ v' k', Costs ρ' e' v' k' ∧ (s → k' ≤ k) ∧ ∀ n, Value.Approx s n v v' :=
  Value.Follows.forall h (fun _ _ _ _ => Costs.unique) hv

theorem approx_refl (e : Expr) (ρ : ValueEnv) : Approx s n ρ e ρ e :=
  approx_self fun z _ => ValueEnv.approx_refl s n ρ z

theorem approx_weaken (hρ : ρ.Extends y ρ₁) (hy : y ∉ e.free) : Approx s n ρ e ρ₁ e :=
  approx_self fun z hz => (ValueEnv.approx_refl s n ρ z).outer_right hρ fun h => hy (h ▸ hz)

theorem approx_renamed (hy : y = x ∨ y ∉ e.names) (hρ : ρ.Extends x ρ₁) (hρ' : ρ.Extends y ρ₁')
    (h : Approx s n ρ₁ (var {} x) ρ₁' (var {} y)) : Approx s n ρ₁ e ρ₁' (e.rename x y) := by
  have hs : Answers s n (· ∈ e.free) ρ₁ ρ₁' (renamedVar x y) := fun z hz => by
    rw [renamedVar]
    split
    · rename_i hzx
      rwa [hzx]
    · rename_i hzx
      refine ((ValueEnv.approx_refl s n ρ z).outer_left hρ hzx).outer_right hρ' ?_
      rintro rfl
      exact hy.elim hzx fun h => h (mem_names_of_mem_free hz)
  have h := approx_rename id id hy hs
  rwa [mapMark_id, mapMark_id] at h

/-- What the nodes carry plays no part. -/
theorem approx_of_untyped_eq (h : e'.untyped = e.untyped) : Approx s n ρ e ρ e' := by
  have hs : ∀ (t : Prop) (i : Nat) (e : Expr), Answers t i (· ∈ e.free) ρ ρ (renamedVar "" "") :=
    fun t i e z _ => renamedVar_self "" ▸ ValueEnv.approx_refl t i ρ z
  have he : ∀ n, Approx True n ρ e ρ e.untyped := fun n => by
    have := approx_rename id (fun m => { m with ty := none }) (.inl rfl) (hs True n e)
    rwa [rename_self, mapMark_id] at this
  have he' : Approx s n ρ e'.untyped ρ e' := by
    have := approx_rename (fun m => { m with ty := none }) id (.inl rfl) (hs s n e')
    rwa [rename_self, mapMark_id] at this
  exact .trans_left he (h ▸ he')

theorem Approx.evaluates (h : ∀ n, Approx s n ρ e ρ' e') {v : Value} (hv : v.isFunction = false)
    (he : Evaluates ρ e v) : Evaluates ρ' e' v := by
  obtain ⟨k, hk⟩ := he.costs
  obtain ⟨v', k', hv', _, hvv⟩ := Approx.forall h hk
  rw [Value.eq_of_constant? (hvv 0).constant? hv]
  exact hv'.evaluates

theorem Approx.evaluates_function (h : ∀ n, Approx s n ρ e ρ' e') {f : Value}
    (hf : f.isFunction = true) (he : Evaluates ρ e f) :
    ∃ f' : Value, f'.isFunction = true ∧ Evaluates ρ' e' f' := by
  obtain ⟨k, hk⟩ := he.costs
  obtain ⟨f', k', hf', _, hff⟩ := Approx.forall h hk
  exact ⟨f', Value.isFunction_congr (hff 0).constant? ▸ hf, hf'.evaluates⟩

end Expr
end LetLower
