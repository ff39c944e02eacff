import LetLower.Expr.Normal
import LetLower.Proofs.Expr.Marks
import LetLower.Proofs.Inline.Rules

/-!
# Free occurrences in an inlined tree

What is true of each free occurrence of a name in a tree, and in all that stands for other names,
is true of each in the inlined tree too. It may go by the mark of the occurrence, which inlining
copies, and by the number of arguments there: putting a body in for an application takes no argument
away, because what stands for a name does not count on arguments that come from outside.
-/

namespace LetLower

namespace Expr

/-- Each free occurrence of the name satisfies `Q`, which goes by the number of arguments that the
occurrence is applied to and by its mark; the whole tree is applied to `k` arguments. -/
def EachFree (Q : Nat → Mark → Prop) (x : String) : Nat → Expr → Prop
  | k, var m y => y = x → Q k m
  | k, app _ f a => f.EachFree Q x (k + 1) ∧ a.EachFree Q x 0
  | _, lam _ y b => y = x ∨ b.EachFree Q x 0
  | _, letIn _ y v b => v.EachFree Q x 0 ∧ (y = x ∨ b.EachFree Q x 0)
  | _, letRec _ y v b => y = x ∨ v.EachFree Q x 0 ∧ b.EachFree Q x 0
  | _, binary _ _ l r => l.EachFree Q x 0 ∧ r.EachFree Q x 0
  | _, cond _ c t e => c.EachFree Q x 0 ∧ t.EachFree Q x 0 ∧ e.EachFree Q x 0
  | _, int .. | _, bool .. | _, bare _ => True

variable {Q : Nat → Mark → Prop} {x y z : String} {n k l : Nat} {m : Mark} {e e' : Expr}

theorem isAppliedTo_iff : e.isAppliedTo x n k ↔ e.EachFree (fun l _ => n ≤ l) x k := by
  induction e generalizing k with
  | var =>
    simp only [isAppliedTo, EachFree, Bool.or_eq_true, decide_eq_true_eq]
    exact Decidable.imp_iff_not_or.symm
  | int | bool | bare => exact iff_of_true rfl trivial
  | lam | app | letIn | letRec | binary | cond =>
    simp_all only [isAppliedTo, EachFree, Bool.or_eq_true, Bool.and_eq_true, decide_eq_true_eq,
      and_assoc]

theorem isAppliedTo_mapMark (f : Mark → Mark) (e : Expr) :
    (e.mapMark f).isAppliedTo x n k = e.isAppliedTo x n k := by
  induction e generalizing k <;> simp_all only [mapMark, isAppliedTo]

theorem isAppliedTo_congr (h : e'.untyped = e.untyped) :
    e'.isAppliedTo x n k = e.isAppliedTo x n k :=
  calc e'.isAppliedTo x n k = e'.untyped.isAppliedTo x n k := (isAppliedTo_mapMark _ e').symm
    _ = e.untyped.isAppliedTo x n k := by rw [h]
    _ = e.isAppliedTo x n k := isAppliedTo_mapMark _ e

namespace EachFree

theorem mono (hQ : ∀ {m k l}, k ≤ l → Q k m → Q l m) (h : e.EachFree Q x k) (hk : k ≤ l) :
    e.EachFree Q x l := by
  induction e generalizing k l with
  | var => exact fun hy => hQ hk (h hy)
  | app _ _ _ ihf _ => exact ⟨ihf h.1 (Nat.succ_le_succ hk), h.2⟩
  | int | bool | lam | letIn | letRec | binary | cond | bare => exact h

theorem rename (hy : y ≠ x) (h : z = x ∨ e.EachFree Q x k) : (e.rename z y).EachFree Q x k := by
  have hinner : ∀ {y w : String}, y ≠ x → w ≠ x → (if w = z then z else y) ≠ x := by
    intro y w hy hw
    split
    · rename_i hwz
      rwa [← hwz]
    · exact hy
  induction e generalizing y k with
  | int | bool | bare => trivial
  | var m w =>
    rw [rename_var]
    intro hw
    split at hw
    · exact absurd hw hy
    · rename_i hwz
      exact h.resolve_left (fun hz => hwz (hw.trans hz.symm)) hw
  | lam m w b ih =>
    rw [rename_lam]
    by_cases hw : w = x
    · exact .inl hw
    · exact .inr (ih (hinner hy hw) (h.imp_right fun h => h.resolve_left hw))
  | app m f a ihf iha => exact ⟨ihf hy (h.imp_right And.left), iha hy (h.imp_right And.right)⟩
  | letIn m w v b ihv ihb =>
    rw [rename_letIn]
    refine ⟨ihv hy (h.imp_right And.left), ?_⟩
    by_cases hw : w = x
    · exact .inl hw
    · exact .inr (ihb (hinner hy hw) (h.imp_right fun h => h.2.resolve_left hw))
  | letRec m w v b ihv ihb =>
    rw [rename_letRec]
    by_cases hw : w = x
    · exact .inl hw
    · have hparts := h.imp_right fun h => h.resolve_left hw
      exact .inr ⟨ihv (hinner hy hw) (hparts.imp_right And.left),
        ihb (hinner hy hw) (hparts.imp_right And.right)⟩
  | binary m op l r ihl ihr => exact ⟨ihl hy (h.imp_right And.left), ihr hy (h.imp_right And.right)⟩
  | cond m c t e ihc iht ihe =>
    exact ⟨ihc hy (h.imp_right And.left), iht hy (h.imp_right fun h => h.2.1),
      ihe hy (h.imp_right fun h => h.2.2)⟩

variable {env : InlineEnv} {b v r w : Expr}

theorem under (hy : y ≠ x) (h : x ∈ env ∨ z = x ∨ b.EachFree Q x 0) :
    x ∈ env.erase z ∨ (b.rename z y).EachFree Q x 0 := by
  by_cases hz : z = x
  · exact .inr (rename hy (.inl hz))
  · exact h.imp (fun hx => Bindings.mem_erase.2 ⟨Ne.symm hz, hx⟩)
      fun h => rename hy (.inr (h.resolve_left hz))

theorem insert (h : x ∈ env ∨ z = x ∨ b.EachFree Q x 0) :
    x ∈ (env.erase z).insert y v ∨ (b.rename z y).EachFree Q x 0 := by
  by_cases hy : y = x
  · exact .inl (Bindings.mem_insert.2 (.inl hy.symm))
  · exact (under hy h).imp_left fun hx => Bindings.mem_insert.2 (.inr hx)

end EachFree

theorem LetOver.eachFree {v b r : Expr} (h : LetOver m y v b r) (hv : v.EachFree Q x 0)
    (hb : y = x ∨ b.EachFree Q x 0) : r.EachFree Q x k := by
  induction h generalizing k with
  | @lam _ p q _ _ _ _ _ _ _ ih =>
    by_cases hq : q = x
    · exact .inl hq
    · exact .inr (ih (hb.imp_right fun hb => .rename hq hb))
  | here => exact ⟨hv, hb⟩

/-- If nothing stands for the name and its occurrences have the property, in the tree and in what
stands for other names, then so they have in the inlined tree. -/
theorem Inlines.eachFree {env : InlineEnv} {r : Expr} (h : Inlines env e r)
    (hQ : ∀ {m k l}, k ≤ l → Q k m → Q l m)
    (henv : ∀ z w, env.get? z = some w → w.EachFree Q x 0) (he : x ∈ env ∨ e.EachFree Q x k) :
    r.EachFree Q x k := by
  have herase : ∀ {env : InlineEnv} {z}, (∀ z w, env.get? z = some w → w.EachFree Q x 0) →
      ∀ u w, (env.erase z).get? u = some w → w.EachFree Q x 0 :=
    fun h => Bindings.forall_erase h _
  have hinsert : ∀ {env : InlineEnv} {y w}, (∀ z w, env.get? z = some w → w.EachFree Q x 0) →
      w.EachFree Q x 0 → ∀ u v, (env.insert y w).get? u = some v → v.EachFree Q x 0 :=
    fun h hw => Bindings.forall_insert h hw _
  induction h generalizing k with
  | int | bool => trivial
  | @var env m z =>
    cases hw : env.get? z with
    | some w => exact (henv z w hw).mono hQ (Nat.zero_le k)
    | none =>
      rw [Option.getD_none]
      rintro rfl
      exact he.resolve_left (Bindings.get?_eq_none_iff.1 hw) rfl
  | @lam env m z y b b' _ _ ih =>
    by_cases hy : y = x
    · exact .inl hy
    · exact .inr (ih (herase henv) (EachFree.under hy he))
  | app _ _ _ ihf iha =>
    exact ⟨ihf henv (he.imp_right And.left), iha henv (he.imp_right And.right)⟩
  | beta _ _ _ _ _ _ ihf iha ihb =>
    have hf := ihf henv (he.imp_right And.left)
    have ha := iha (k := 0) henv (he.imp_right And.right)
    exact (ihb (hinsert (herase henv) ha) (EachFree.insert (.inr hf))).mono hQ (Nat.zero_le k)
  | @letRec env m z y v v' b b' _ _ _ ihv ihb =>
    by_cases hy : y = x
    · exact .inl hy
    · exact .inr ⟨ihv (herase henv) (EachFree.under hy (he.imp_right (.imp_right And.left))),
        ihb (herase henv) (EachFree.under hy (he.imp_right (.imp_right And.right)))⟩
  | @rotate env m w loc t z v _ b u _ _ _ ih =>
    refine ih henv (he.imp_right fun ⟨⟨hv, hw⟩, hb⟩ => ⟨hv, ?_⟩)
    by_cases hu : u = x
    · exact .inl hu
    · exact .inr ⟨.rename hu hw, hb⟩
  | eliminate _ _ _ _ _ ihv ihb =>
    have hv := ihv (k := 0) henv (he.imp_right And.left)
    exact (ihb (hinsert (herase henv) hv) (EachFree.insert (he.imp_right And.right))).mono hQ
      (Nat.zero_le k)
  | @keep env m z v v' t b y b' _ _ _ _ _ _ hl ihv ihb =>
    refine hl.eachFree (ihv henv (he.imp_right And.left)) ?_
    by_cases hy : y = x
    · exact .inl hy
    · exact .inr (ihb (herase henv) (EachFree.under hy (he.imp_right And.right)))
  | binary _ _ ihl ihr =>
    exact ⟨ihl henv (he.imp_right And.left), ihr henv (he.imp_right And.right)⟩
  | cond _ _ _ ihc iht ihe =>
    exact ⟨ihc henv (he.imp_right And.left), iht henv (he.imp_right fun h => h.2.1),
      ihe henv (he.imp_right fun h => h.2.2)⟩

theorem Inlines.eachFree_of_empty {r : Expr} (h : Inlines ∅ e r)
    (hQ : ∀ {m k l}, k ≤ l → Q k m → Q l m) (he : e.EachFree Q x k) : r.EachFree Q x k := by
  refine h.eachFree hQ (fun z w hz => ?_) (.inr he)
  rw [Bindings.get?_empty] at hz
  cases hz

end Expr
end LetLower
