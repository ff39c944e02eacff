import LetLower.Proofs.Expr.Term
import LetLower.Proofs.Inline.Rules

/-!
# Inlining reduces

The term of an expression reduces to that of what inlining makes of it, where each name stands for a
term that reduces to that of the expression put in for the name. The induction is over the rules.
-/

namespace LetLower.Expr

open Term

variable {subst : InlineEnv} {N N' : String → Prop} {σ τ : String → Term} {x y z : String}
  {m : Mark} {e v b r : Expr} {a a' : Term}

/-- What a name stands for reduces to the term of the expression that is put in for it. -/
def Follows (subst : InlineEnv) (N : String → Prop) (σ τ : String → Term) : Prop :=
  ∀ z, N z → Reduces (σ z) ((standsFor subst z).term τ)

namespace Follows

theorem mono (h : Follows subst N σ τ) (hN : ∀ z, N' z → N z) : Follows subst N' σ τ :=
  fun z hz => h z (hN z hz)

theorem outside (h : Follows subst (· ∈ e.free) σ τ) (hb : Outside b e) :
    Follows subst (· ∈ b.free) σ τ :=
  h.mono fun _ hz => hb.free hz

theorem inside (h : Follows subst (· ∈ e.free) σ τ) (hb : Inside x b e) :
    Follows subst (fun z => z ∈ b.free ∧ z ≠ x) σ τ :=
  h.mono fun _ hz => hb.free hz

theorem shift (h : Follows subst N σ τ) :
    Follows subst N (fun z => (σ z).shift) fun z => (τ z).shift := by
  intro z hz
  rw [← term_shift]
  exact (h z hz).shift

theorem keep (h : Follows subst (fun z => z ∈ b.free ∧ z ≠ x) σ τ) {names : List String}
    (hy : Enters subst x y names) (ha : Reduces a a') :
    Follows (subst.erase x) (· ∈ (b.rename x y).free) (Function.update σ y a)
      (Function.update τ y a') := by
  intro z hz
  by_cases hzy : z = y
  · rw [hzy, hy.standsFor_self, Function.update_self, term, Function.update_self]
    exact ha
  · have hz' := (mem_free_rename hz).resolve_right hzy
    rw [standsFor_erase hz'.2, Function.update_of_ne hzy,
      term_update_of_not_mem (hy.not_mem_free_standsFor hz'.2 hzy)]
    exact h z hz'

theorem under (h : Follows subst (fun z => z ∈ b.free ∧ z ≠ x) σ τ) {names : List String}
    (hy : Enters subst x y names) :
    Follows (subst.erase x) (· ∈ (b.rename x y).free) (under σ y) (under τ y) :=
  h.shift.keep hy .refl

theorem put (h : Follows subst (fun z => z ∈ b.free ∧ z ≠ x) σ τ) (ha : Reduces a (v.term τ)) :
    Follows ((subst.erase x).insert y v) (· ∈ (b.rename x y).free) (Function.update σ y a) τ := by
  intro z hz
  by_cases hzy : z = y
  · rw [hzy, standsFor_insert_self, Function.update_self]
    exact ha
  · have hz' := (mem_free_rename hz).resolve_right hzy
    rw [standsFor_insert hzy, standsFor_erase hz'.2, Function.update_of_ne hzy]
    exact h z hz'

/-- Names for which nothing stands. -/
theorem of_not_mem (h : ∀ z, N z → z ∉ subst) : Follows subst N τ τ := by
  intro z hz
  rw [standsFor_of_not_mem (h z hz)]
  exact .refl

end Follows

theorem LetOver.reduces (h : LetOver m x v b r) :
    Reduces (.keep (v.term σ) (b.term (Function.update σ x (v.term σ)))) (r.term σ) := by
  induction h generalizing σ with
  | here => exact .refl
  | @lam fm p q b r _ hx hv hb _ ih =>
    have hr := ih (σ := under σ q)
    rw [term_under_of_not_mem hv, under, Function.update_comm hx, term_update_rename (.inr hb),
      ← map_update Term.shift] at hr
    exact .head .hoist (Reduces.lam hr)

theorem reduces_rotated {n n' : Mark} {w : Expr} (hz : z ∉ (letIn m x (.letIn n y v w) b).names) :
    Relation.TransGen Step ((letIn m x (.letIn n y v w) b).term σ)
      ((letIn n' z v (.letIn m x (w.rename y z) b)).term σ) := by
  simp only [names, List.mem_cons, List.mem_append, not_or] at hz
  obtain ⟨hzx, ⟨_, _, hzw⟩, hzb⟩ := hz
  rw [term, term, term, term, term_update_rename (.inr hzw), Function.update_comm hzx,
    term_update_of_not_mem fun h => hzb (mem_names_of_mem_free h)]
  have hb : Reduces (b.term (Function.update σ x (.keep (v.term σ)
      (w.term (Function.update σ y (v.term σ))))))
      (b.term (Function.update σ x (w.term (Function.update σ y (v.term σ))))) :=
    term_reduces fun u _ => rel_update (.single .drop) fun _ => .refl
  exact .head' .assoc (Reduces.keep .refl (Reduces.keep .refl hb))

theorem Inlines.reduces (h : Inlines subst e r) (hs : Follows subst (· ∈ e.free) σ τ) :
    Reduces (e.term σ) (r.term τ) := by
  induction h generalizing σ τ with
  | int | bool => exact .refl
  | @var subst m x =>
    have hx := hs x (NameSet.mem_single.2 rfl)
    rw [standsFor] at hx
    cases hw : subst.get? x with
    | none =>
      rw [hw] at hx
      exact hx
    | some w =>
      rw [hw] at hx
      exact hx
  | lam hy _ ih =>
    have hb := ih ((hs.inside .lam).under hy)
    rw [term_under_rename hy.scope] at hb
    exact .lam hb
  | app _ _ _ ihf iha => exact .app (ihf (hs.outside .callee)) (iha (hs.outside .argument))
  | @beta subst m f fm x b a a' y r _ _ _ hfree hy _ ihf iha ihb =>
    have hf := ihf (hs.outside .callee)
    have ha := iha (hs.outside .argument)
    have hrest : Follows subst (fun z => z ∈ b.free ∧ z ≠ x) τ τ :=
      .of_not_mem fun z hz => hfree z (NameSet.mem_erase.2 hz)
    have hb := ihb (hrest.put (y := y) .refl)
    rw [term_update_rename hy, ← term_inst] at hb
    exact ((Reduces.app hf ha).tail .beta).trans hb
  | letRec hy _ _ ihv ihb =>
    have hv := ihv ((hs.inside .recursive).keep hy (a := .atom) .refl)
    have hb := ihb ((hs.inside .letRec).keep hy (a := .atom) .refl)
    rw [term_update_rename (hy.scope.imp_right fun h hm => h (List.mem_append.2 (.inl hm)))] at hv
    rw [term_update_rename (hy.scope.imp_right fun h hm => h (List.mem_append.2 (.inr hm)))] at hb
    exact .app (.app .refl hv) hb
  | rotate hz _ ih =>
    have h := ih (hs.mono fun z hz => mem_free_of_rotated hz)
    exact (reduces_rotated hz).to_reflTransGen.trans h
  | @eliminate subst m x v v' _ b y r _ _ _ hy _ ihv ihb =>
    have hb := ihb ((hs.inside .letIn).put (y := y) (ihv (hs.outside .value)))
    rw [term_update_rename hy] at hb
    exact .head .drop hb
  | keep _ _ _ hy _ hl ihv ihb =>
    have hv := ihv (hs.outside .value)
    have hb := ihb ((hs.inside .letIn).keep hy hv)
    rw [term_update_rename hy.scope] at hb
    exact (Reduces.keep hv hb).trans hl.reduces
  | binary _ _ ihl ihr =>
    exact .app (.app .refl (ihl (hs.outside .left))) (ihr (hs.outside .right))
  | cond _ _ _ ihc ihy ihn =>
    exact .app (.app (.app .refl (ihc (hs.outside .condition))) (ihy (hs.outside .thenBranch)))
      (ihn (hs.outside .elseBranch))

end LetLower.Expr
