import LetLower.Proofs.Eval.Compose
import LetLower.Proofs.Inline.Run

/-!
# Inlining keeps values

An expression approximates what inlining makes of it. Inlining is by name, so an argument that is
not used is no longer evaluated, and one that is used twice is evaluated twice; the values that
come out are the same, and only the other direction can fail. The induction is over the rules, for
each number of calls. Renaming makes no more calls and stands on the left of what the induction
gives; a call that was replaced, and a `let` that was moved, stand on its right.
-/

namespace LetLower.Expr

variable {s : Prop} {n : Nat} {ρ ρ' ρ₁ ρ₁' : ValueEnv} {e e' v b r : Expr} {x y z : String}
  {i j m : Mark} {subst : InlineEnv}

/-! ### Renaming a binder -/

theorem approx_rename_lam (hy : y = x ∨ y ∉ b.names) :
    Approx s n ρ (lam i x b) ρ (lam j y (b.rename x y)) :=
  approx_lam fun _ _ w w' hw => approx_renamed hy (.bind w) (.bind w') (approx_bound hw)

theorem approx_rename_letIn (hy : y = x ∨ y ∉ b.names) :
    Approx s n ρ (letIn i x v b) ρ (letIn j y v (b.rename x y)) :=
  approx_letIn (approx_refl v ρ) fun _ _ w w' hw =>
    approx_renamed hy (.bind w) (.bind w') (approx_bound hw)

theorem approx_rename_letRec (hy : y = x ∨ y ∉ v.names ++ b.names) :
    Approx s n ρ (letRec i x v b) ρ (letRec j y (v.rename x y) (b.rename x y)) := by
  have hyv := hy.imp_right fun h hm => h (List.mem_append.2 (.inl hm))
  have hyb := hy.imp_right fun h hm => h (List.mem_append.2 (.inr hm))
  exact approx_letRec (fun _ _ hx => approx_renamed hyv (.recursive _) (.recursive _) hx)
    fun _ _ w w' hw => approx_renamed hyb (.bind w) (.bind w') (approx_bound hw)

/-! ### Moving a `let` -/

/-- The body of a `let` whose value is known. -/
theorem approx_letIn_right {w : Value} {k : Nat} (hw : Costs ρ' v w k)
    (hb : Approx False n ρ e (ρ'.bind x w) b) : Approx False n ρ e ρ' (letIn i x v b) := by
  intro l hl u hu
  obtain ⟨u', l', hu', _, huu⟩ := hb l hl u hu
  exact ⟨u', k + l', .letIn hw hu', False.elim, huu⟩

theorem approx_rotated {w : Expr} {l : Mark} (hz : z ∉ (letIn m x (.letIn j y v w) b).names) :
    Approx True n ρ (letIn m x (.letIn j y v w) b) ρ
      (letIn l z v (.letIn i x (w.rename y z) b)) := by
  have hzw : z ∉ w.names := fun hm => hz (Outside.value.names (Inside.letIn.names hm))
  have hzb : z ∉ b.names := fun hm => hz (Inside.letIn.names hm)
  intro k hk u hu
  cases hu with
  | @letIn _ _ _ _ _ w₀ _ kw kb hw hu =>
  cases hw with
  | @letIn _ _ _ _ _ v₀ _ kv kw hv hw =>
  have hrename : ∀ n, Approx True n (ρ.bind y v₀) w (ρ.bind z v₀) (w.rename y z) := fun n =>
    approx_renamed (.inr hzw) (.bind v₀) (.bind v₀) (approx_bound (Value.approx_refl True n v₀))
  obtain ⟨w₁, kw', hw₁, hkw, hww⟩ := Approx.forall hrename hw
  have hbody : Approx True (n - (kv + kw)) (ρ.bind x w₀) b ((ρ.bind z v₀).bind x w₁) b := by
    refine approx_self fun q hq => ?_
    by_cases hqx : q = x
    · rw [hqx]
      exact approx_bound (hww _)
    · have hqz : q ≠ z := fun h => hzb (h ▸ mem_names_of_mem_free hq)
      exact (((ValueEnv.approx_refl _ _ ρ q).outer_left (.bind w₀) hqx).outer_right
        (.bind v₀) hqz).outer_right (.bind w₁) hqx
  obtain ⟨u₁, kb', hu₁, hkb, huu⟩ := hbody kb (by omega) u hu
  refine ⟨u₁, kv + (kw' + kb'), .letIn hv (.letIn hw₁ hu₁), fun h => ?_, ?_⟩
  · have := hkw h
    have := hkb h
    omega
  · rwa [← Nat.sub_sub]

/-- A `let` goes below a parameter that its value does not mention. -/
theorem approx_letIn_below {q : String} {w a a' : Value} {k : Nat} (hq : q ≠ x) (hqv : q ∉ v.free)
    (hw : Costs ρ v w k) (ha : Value.Approx False n a a') :
    Approx False n ((ρ.bind x w).bind q a) b (ρ.bind q a') (letIn i x v b) := by
  have hv : ∀ n, Approx False n ρ v (ρ.bind q a') v := fun n => approx_weaken (.bind a') hqv
  obtain ⟨w', k', hw', _, hww⟩ := Approx.forall hv hw
  refine approx_letIn_right hw' (approx_self fun z _ => ?_)
  by_cases hzq : z = q
  · rw [hzq]
    exact (approx_bound ha).outer_right (.bind w') hq
  by_cases hzx : z = x
  · rw [hzx]
    exact (approx_bound (hww n)).outer_left (.bind a) hq.symm
  · exact ((((ValueEnv.approx_refl False n ρ z).outer_left (.bind w) hzx).outer_left (.bind a)
      hzq).outer_right (.bind a') hzq).outer_right (.bind w') hzx

theorem LetOver.approx (h : LetOver m x v b r) : Approx False n ρ (letIn i x v b) ρ r := by
  induction h generalizing n ρ with
  | @here b t _ _ =>
    have h : Approx False n ρ (letIn i x v b) ρ
        (letIn { m with ty := some t } x v (b.rename x x)) := approx_rename_letIn (.inl rfl)
    rwa [rename_self] at h
  | @lam fm p q b r _ hx hv hb _ ih =>
    intro k hk u hu
    cases hu with
    | @letIn _ _ _ _ _ w _ kv _ hw hu =>
    cases hu
    refine ⟨_, 0, .lam, False.elim, approx_closure fun l _ a a' ha => ?_⟩
    have hrename : ∀ n, Approx True n ((ρ.bind x w).bind p a) b ((ρ.bind x w).bind q a)
        (b.rename p q) := fun n =>
      approx_renamed (.inr hb) (.bind a) (.bind a) (approx_bound (Value.approx_refl True n a))
    exact .trans_right (.trans_left hrename (approx_letIn_below hx hv hw ha)) fun n => ih

/-! ### Names and what stands for them -/

theorem approx_bound_left {w w' : Value} {k : Nat} (hw : Costs ρ' e w' k)
    (h : Value.Approx False n w w') : Approx False n (ρ.bind y w) (var i y) ρ' e := by
  intro l hl u hu
  obtain ⟨rfl, rfl⟩ := costs_bound_iff.1 hu
  exact ⟨w', k, hw, False.elim, h⟩

theorem Answers.keep (h : Answers False n (fun z => z ∈ b.free ∧ z ≠ x) ρ ρ' (standsFor subst))
    {names : List String} (hy : Enters subst x y names) (hρ : ρ.Extends y ρ₁)
    (hρ' : ρ'.Extends y ρ₁') (hself : Approx False n ρ₁ (var {} y) ρ₁' (var {} y)) :
    Answers False n (· ∈ (b.rename x y).free) ρ₁ ρ₁' (standsFor (subst.erase x)) := by
  intro z hz
  by_cases hzy : z = y
  · rw [hzy, hy.standsFor_self]
    exact hself
  · have hz' := (mem_free_rename hz).resolve_right hzy
    rw [standsFor_erase hz'.2]
    exact .trans_right ((h z hz').outer_left hρ hzy) fun n =>
      approx_weaken hρ' (hy.not_mem_free_standsFor hz'.2 hzy)

theorem Answers.put (h : Answers False n (fun z => z ∈ b.free ∧ z ≠ x) ρ ρ' (standsFor subst))
    (hρ : ρ.Extends y ρ₁) (hv : Approx False n ρ₁ (var {} y) ρ' v) :
    Answers False n (· ∈ (b.rename x y).free) ρ₁ ρ' (standsFor ((subst.erase x).insert y v)) := by
  intro z hz
  by_cases hzy : z = y
  · rw [hzy, standsFor_insert_self]
    exact hv
  · have hz' := (mem_free_rename hz).resolve_right hzy
    rw [standsFor_insert hzy, standsFor_erase hz'.2]
    exact (h z hz').outer_left hρ hzy

theorem Answers.of_not_mem {N : String → Prop} (h : ∀ z, N z → z ∉ subst) :
    Answers False n N ρ ρ (standsFor subst) := by
  intro z hz
  rw [standsFor_of_not_mem (h z hz)]
  exact ValueEnv.approx_refl False n ρ z

/-- A `let` whose value is put where its name was. -/
theorem approx_eliminate {v' : Expr} (hv : Approx False n ρ v ρ' v')
    (hb : ∀ m w, m ≤ n → Approx False m (ρ.bind y w) (var {} y) ρ' v' →
      Approx False m (ρ.bind y w) b ρ' r) :
    Approx False n ρ (letIn i y v b) ρ' r := by
  intro k hk u hu
  cases hu with
  | @letIn _ _ _ _ _ w _ kv kb hw hu =>
    obtain ⟨w', k', hw', _, hww⟩ := hv kv (by omega) w hw
    have hname := approx_bound_left (ρ := ρ) (y := y) (i := {}) hw' hww
    obtain ⟨u', kb', hu', _, huu⟩ := hb _ w (Nat.sub_le n kv) hname kb (by omega) u hu
    rw [Nat.sub_sub] at huu
    exact ⟨u', kb', hu', False.elim, huu⟩

/-- A call of a known function whose argument is put where its parameter was. -/
theorem approx_beta {a : Expr} (hy : y = x ∨ y ∉ b.names)
    (hb : ∀ m w, Approx False m (ρ.bind y w) (var {} y) ρ a →
      Approx False m (ρ.bind y w) (b.rename x y) ρ r) :
    Approx False n ρ (app i (lam j x b) a) ρ r := by
  intro k hk u hu
  obtain ⟨g, w, kf, ka, kb, hg, hw, hc, rfl⟩ := costs_app_iff.1 hu
  cases hg
  have hrename : ∀ n, Approx True n (ρ.bind x w) b (ρ.bind y w) (b.rename x y) := fun n =>
    approx_renamed hy (.bind w) (.bind w) (approx_bound (Value.approx_refl True n w))
  have hbody : Approx False n (ρ.bind x w) b ρ r :=
    .trans_left hrename (hb n w (approx_bound_left hw (Value.approx_refl False n w)))
  obtain ⟨u', kb', hu', _, huu⟩ := hbody kb (by omega) u hc
  exact ⟨u', kb', hu', False.elim, huu.mono (by omega)⟩

/-! ### Inlining -/

theorem Inlines.approx (h : Inlines subst e r)
    (hs : Answers False n (· ∈ e.free) ρ ρ' (standsFor subst)) : Approx False n ρ e ρ' r := by
  induction h generalizing n ρ ρ' with
  | int => exact approx_int _
  | bool => exact approx_bool _
  | @var subst m x =>
    have hx := hs x (NameSet.mem_single.2 rfl)
    rw [standsFor] at hx
    intro k hk v hv
    obtain ⟨v', k', hv', hk', hvv⟩ := hx k hk v (hv.remark {})
    cases hw : subst.get? x with
    | none =>
      rw [hw] at hv'
      exact ⟨v', k', hv'.remark m, hk', hvv⟩
    | some w =>
      rw [hw] at hv'
      exact ⟨v', k', hv', hk', hvv⟩
  | lam hy _ ih =>
    refine .trans_left (fun n => approx_rename_lam (j := {}) hy.scope)
      (approx_lam fun l hl w w' hw => ih ?_)
    exact (hs.mono (Nat.le_of_lt hl) fun z => Inside.lam.free).keep hy (.bind w)
      (.bind w') (approx_bound hw)
  | app _ _ _ ihf iha =>
    exact approx_app (ihf (hs.outside .callee)) (iha (hs.outside .argument))
  | @beta subst m f fm x b a a' y r _ _ _ hfree hy _ ihf iha ihb =>
    have hf := ihf (hs.outside .callee)
    have ha := iha (hs.outside .argument)
    have hrest : ∀ l, Answers False l (fun z => z ∈ b.free ∧ z ≠ x) ρ' ρ' (standsFor subst) :=
      fun l => .of_not_mem fun z hz => hfree z (NameSet.mem_erase.2 hz)
    exact .trans_right (approx_app (j := {}) hf ha) fun n =>
      approx_beta hy fun l w hw => ihb ((hrest l).put (.bind w) hw)
  | @letRec subst m x y v v' b b' hy _ _ ihv ihb =>
    refine .trans_left (fun n => approx_rename_letRec (j := {}) hy.scope)
      (approx_letRec (fun l hl hx => ihv ?_) fun l hl w w' hw => ihb ?_)
    · exact (hs.mono hl fun z => Inside.recursive.free).keep hy (.recursive _) (.recursive _) hx
    · exact (hs.mono hl fun z => Inside.letRec.free).keep hy (.bind w) (.bind w')
        (approx_bound hw)
  | rotate hz _ ih =>
    exact .trans_left (fun n => approx_rotated hz)
      (ih (hs.mono (Nat.le_refl n) fun z hz => mem_free_of_rotated hz))
  | @eliminate subst m x v v' _ b y r _ _ _ hy _ ihv ihb =>
    have hv := ihv (hs.outside .value)
    refine .trans_left (fun n => approx_rename_letIn (j := {}) hy)
      (approx_eliminate hv fun l w hl hw => ihb ?_)
    exact (hs.mono hl fun z => Inside.letIn.free).put (.bind w) hw
  | @keep subst m x v v' _ b y b' r _ _ _ hy _ hl ihv ihb =>
    have hv := ihv (hs.outside .value)
    have hlet : Approx False n ρ (letIn m x v b) ρ' (letIn {} y v' b') := by
      refine .trans_left (fun n => approx_rename_letIn (j := {}) hy.scope)
        (approx_letIn hv fun l hl w w' hw => ihb ?_)
      exact (hs.mono hl fun z => Inside.letIn.free).keep hy (.bind w) (.bind w')
        (approx_bound hw)
    exact .trans_right hlet fun n => hl.approx
  | binary _ _ ihl ihr =>
    exact approx_binary (ihl (hs.outside .left)) (ihr (hs.outside .right))
  | cond _ _ _ ihc ihy ihn =>
    exact approx_cond (ihc (hs.outside .condition)) (ihy (hs.outside .thenBranch))
      (ihn (hs.outside .elseBranch))

theorem approx_of_run {depth : Nat} {names : NameSupply} (he : e.HasPlainNames)
    (h : ((inlineIn depth e ∅).run names).1 = .ok r) : Approx False n ρ e ρ r :=
  (inlines_of_run he h).approx (.of_not_mem fun z _ => Bindings.not_mem_empty z)

/-- An integer or a truth value. -/
def constant : Int ⊕ Bool → Expr
  | .inl k => int {} k
  | .inr b => bool {} b

/-- Apply to constants, one after the other. -/
def applied (e : Expr) (args : List (Int ⊕ Bool)) : Expr :=
  args.foldl (fun f a => app {} f (constant a)) e

theorem approx_applied (h : Approx s n ρ e ρ' e') (args : List (Int ⊕ Bool)) :
    Approx s n ρ (e.applied args) ρ' (e'.applied args) := by
  induction args generalizing e e' with
  | nil => exact h
  | cons a args ih =>
    have ha : Approx s n ρ (constant a) ρ' (constant a) := by
      cases a with
      | inl k => exact approx_int k
      | inr b => exact approx_bool b
    exact ih (approx_app h ha)

/-- Inlining keeps the constant that an expression comes to, and the constants that it comes to
when it is applied; what comes to a function still does. -/
theorem evaluates_inlined {depth : Nat} {names : NameSupply} (he : e.HasPlainNames)
    (h : ((inlineIn depth e ∅).run names).1 = .ok r) (ρ : ValueEnv) :
    (∀ (args : List (Int ⊕ Bool)) (v : Value), v.isFunction = false →
      Evaluates ρ (e.applied args) v → Evaluates ρ (r.applied args) v) ∧
    ∀ f : Value, f.isFunction = true → Evaluates ρ e f →
      ∃ f' : Value, f'.isFunction = true ∧ Evaluates ρ r f' :=
  ⟨fun args _ hv => Approx.evaluates (fun _ => approx_applied (approx_of_run he h) args) hv,
    fun _ hf => Approx.evaluates_function (fun _ => approx_of_run he h) hf⟩

theorem evaluates_inlined_double :
    let t : Option Ty := some (.fn .int .int)
    let f : Expr := .lam ⟨none, t⟩ "x" (.binary ⟨none, some .int⟩ .add
      (.var ⟨none, some .int⟩ "x") (.var ⟨none, some .int⟩ "x"))
    let e : Expr := .letIn ⟨none, t⟩ "f" f (.lam ⟨none, t⟩ "y"
      (.app ⟨none, some .int⟩ (.var ⟨none, t⟩ "f") (.var ⟨none, some .int⟩ "y")))
    let r : Expr := .lam ⟨none, t⟩ "y" (.binary ⟨none, some .int⟩ .add
      (.var ⟨none, some .int⟩ "y") (.var ⟨none, some .int⟩ "y"))
    e.HasPlainNames ∧ ((inlineIn 9 e ∅).run {}).1 = .ok r ∧
      Evaluates .empty (e.applied [.inl 3]) (.int 6) ∧
      Evaluates .empty (r.applied [.inl 3]) (.int 6) := by
  intro t f e r
  have he : e.HasPlainNames := by decide
  have hr : ((inlineIn 9 e ∅).run {}).1 = .ok r := by cbv
  have hv : Evaluates .empty (e.applied [.inl 3]) (.int 6) := ⟨8, rfl⟩
  exact ⟨he, hr, hv, (evaluates_inlined he hr .empty).1 [.inl 3] (.int 6) rfl hv⟩

end LetLower.Expr
