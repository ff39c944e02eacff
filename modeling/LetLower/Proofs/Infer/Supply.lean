import LetLower.Proofs.Infer.Alike
import LetLower.Proofs.Infer.Derivation
import LetLower.Proofs.Unification.Symmetry

/-!
# Inference from any supply

The variables that two runs draw are paired one-to-one, and a pairing of finitely many variables is
part of a permutation of all of them. So the trees that inference returns from two supplies are one
tree, up to a permutation of the variables, and where it fails it fails with the same kind of
mistake at the same place.
-/

namespace LetLower

/-- A one-to-one pairing goes, on finitely many variables, by a permutation. -/
theorem exists_perm {ρ : String → String → Prop} (hρ : Relator.BiUnique ρ) (xs : List String) :
    ∃ σ : Equiv.Perm String, ∀ x ∈ xs, ∀ y, ρ x y → σ x = y := by
  induction xs with
  | nil => exact ⟨.refl _, fun x hx => absurd hx List.not_mem_nil⟩
  | cons x xs ih =>
    obtain ⟨σ, hσ⟩ := ih
    by_cases hx : ∃ y, ρ x y
    · obtain ⟨y, hy⟩ := hx
      refine ⟨σ.trans (Equiv.swap (σ x) y), fun z hz w hzw => ?_⟩
      rw [Equiv.trans_apply]
      by_cases hzx : z = x
      · subst hzx
        rw [Equiv.swap_apply_left]
        exact hρ.2 hy hzw
      · have hw : σ z = w := hσ z ((List.mem_cons.1 hz).resolve_left hzx) w hzw
        have hne : w ≠ σ x := fun h => hzx (σ.injective (hw.trans h))
        have hne' : w ≠ y := fun h => hzx (hρ.1 hzw (h ▸ hy))
        rw [hw, Equiv.swap_apply_of_ne_of_ne hne hne']
    · refine ⟨σ, fun z hz w hzw => ?_⟩
      rcases List.mem_cons.1 hz with rfl | hz
      · exact absurd ⟨w, hzw⟩ hx
      · exact hσ z hz w hzw

namespace Expr

variable {env : TyEnv} {e e' : Expr} {s s' : NameSupply} {r : Inferred}

theorem Infers.isKnown (h : Infers env e s r s') : e.isKnown := by
  induction h with
  | int | bool | var => rfl
  | lam _ _ ih => exact ih
  | app _ _ _ _ iha ihb | letIn _ _ _ iha ihb | letRec _ _ _ _ _ iha ihb
  | binary _ _ _ _ _ iha ihb =>
    simp only [Expr.isKnown, iha, ihb, Bool.and_self]
  | cond _ _ _ _ _ _ iha ihb ihc => simp only [Expr.isKnown, iha, ihb, ihc, Bool.and_self]

theorem Alike.eq_mapMark {μ : Mark → Mark → Prop} {N : String → String → Prop} {f : Mark → Mark}
    (h : e.Alike μ N e') (he : e'.untyped = e.untyped)
    (hf : ∀ m ∈ e.marks, ∀ m', μ m m' → m'.loc = m.loc → m' = f m) : e' = e.mapMark f := by
  unfold untyped at he
  induction h with
  | @int N m m' n hm | @bool N m m' n hm =>
    simp only [Expr.mapMark, Expr.int.injEq, Expr.bool.injEq, Mark.mk.injEq, and_true] at he
    rw [Expr.mapMark, hf m List.mem_cons_self m' hm he]
  | @var N m m' x y hm _ =>
    simp only [Expr.mapMark, Expr.var.injEq, Mark.mk.injEq, and_true] at he
    obtain ⟨hloc, rfl⟩ := he
    rw [Expr.mapMark, hf m List.mem_cons_self m' hm hloc]
  | @lam N m m' x y b c hm _ ih =>
    simp only [Expr.mapMark, Expr.lam.injEq, Mark.mk.injEq, and_true] at he
    obtain ⟨hloc, rfl, hb⟩ := he
    rw [marks_lam, List.forall_mem_cons] at hf
    rw [Expr.mapMark, hf.1 m' hm hloc, ← ih hb hf.2]
  | @app N m m' a a' b b' hm _ _ iha ihb =>
    simp only [Expr.mapMark, Expr.app.injEq, Mark.mk.injEq, and_true] at he
    obtain ⟨hloc, ha, hb⟩ := he
    rw [marks_app, List.forall_mem_cons, List.forall_mem_append] at hf
    rw [Expr.mapMark, hf.1 m' hm hloc, ← iha ha hf.2.1, ← ihb hb hf.2.2]
  | @letIn N m m' x y a a' b b' hm _ _ iha ihb =>
    simp only [Expr.mapMark, Expr.letIn.injEq, Mark.mk.injEq, and_true] at he
    obtain ⟨hloc, rfl, ha, hb⟩ := he
    rw [marks_letIn, List.forall_mem_cons, List.forall_mem_append] at hf
    rw [Expr.mapMark, hf.1 m' hm hloc, ← iha ha hf.2.1, ← ihb hb hf.2.2]
  | @letRec N m m' x y a a' b b' hm _ _ iha ihb =>
    simp only [Expr.mapMark, Expr.letRec.injEq, Mark.mk.injEq, and_true] at he
    obtain ⟨hloc, rfl, ha, hb⟩ := he
    rw [marks_letRec, List.forall_mem_cons, List.forall_mem_append] at hf
    rw [Expr.mapMark, hf.1 m' hm hloc, ← iha ha hf.2.1, ← ihb hb hf.2.2]
  | @binary N m m' op a b a' b' hm _ _ iha ihb =>
    simp only [Expr.mapMark, Expr.binary.injEq, Mark.mk.injEq, and_true, true_and] at he
    obtain ⟨hloc, ha, hb⟩ := he
    rw [marks_binary, List.forall_mem_cons, List.forall_mem_append] at hf
    rw [Expr.mapMark, hf.1 m' hm hloc, ← iha ha hf.2.1, ← ihb hb hf.2.2]
  | @cond N m m' a b c a' b' c' hm _ _ _ iha ihb ihc =>
    simp only [Expr.mapMark, Expr.cond.injEq, Mark.mk.injEq, and_true] at he
    obtain ⟨hloc, ha, hb, hc⟩ := he
    rw [marks_cond, List.forall_mem_cons, List.forall_mem_append, List.forall_mem_append] at hf
    rw [Expr.mapMark, hf.1 m' hm hloc, ← iha ha hf.2.1.1, ← ihb hb hf.2.1.2, ← ihc hc hf.2.2]

/-- Trees with alike types that are otherwise equal differ by a permutation of the variables. -/
theorem Alike.exists_perm {ρ N : String → String → Prop} (hρ : Relator.BiUnique ρ)
    (h : e.Alike (Mark.Alike ρ) N e') (he : e'.untyped = e.untyped) :
    ∃ σ : Equiv.Perm String,
      e' = e.mapMark fun m => { m with ty := m.ty.map (Ty.bind fun x => .var (σ x)) } := by
  obtain ⟨σ, hσ⟩ := LetLower.exists_perm hρ
    (e.marks.flatMap fun m => (m.ty.map fun t => t.free.names).getD [])
  refine ⟨σ, h.eq_mapMark he fun m hm m' hmm hloc => ?_⟩
  obtain ⟨loc, ty⟩ := m
  obtain ⟨loc', ty'⟩ := m'
  obtain rfl : loc' = loc := hloc
  obtain ⟨t, u, ht, hu, htu⟩ := hmm
  obtain rfl : ty = some t := ht
  obtain rfl : ty' = some u := hu
  have hpairs : t.Alike (Pairs σ) u := htu.congr fun x hx y _ hxy =>
    hσ x (List.mem_flatMap.2 ⟨_, hm, hx⟩) y hxy
  rw [hpairs.eq_bind]
  rfl

/-- From any two supplies inference returns one tree, up to a permutation of the variables, or it
fails with one kind of mistake at one place. -/
theorem inferTypes_independent_of_supply (henv : env.IsClosed) (e : Expr)
    (names names' : NameSupply) :
    Matches (fun f g => e.isKnown → f.SameKindAt Eq g)
      (fun t t' => ∃ σ : Equiv.Perm String,
        t' = t.mapMark fun m => { m with ty := m.ty.map (Ty.bind fun x => .var (σ x)) })
      ((e.inferTypes env).run names).1 ((e.inferTypes env).run names').1 := by
  by_cases hk : e.isKnown
  · have hagree := (alike_self hk).inferTypes_agree_at (κ := Eq)
      (fun _ _ h => congrArg Mark.loc h) (fun _ _ _ _ h h' => h ▸ h' ▸ rfl) henv names names'
    have hrun := hagree.run
    generalize hx : ((e.inferTypes env).run names).1 = o at hrun ⊢
    generalize hy : ((e.inferTypes env).run names').1 = o' at hrun ⊢
    cases hrun with
    | error h => exact .error fun _ => h
    | ok h =>
      obtain ⟨ρ, hρ, htt⟩ := h
      obtain ⟨r, _, hr, rfl⟩ := infers_of_run hx
      obtain ⟨r', _, hr', rfl⟩ := infers_of_run hy
      exact .ok (htt.exists_perm hρ (hr'.untyped_completed.trans hr.untyped_completed.symm))
  · generalize hx : ((e.inferTypes env).run names).1 = o
    generalize hy : ((e.inferTypes env).run names').1 = o'
    cases o with
    | ok t =>
      obtain ⟨r, _, hr, _⟩ := infers_of_run hx
      exact absurd hr.isKnown hk
    | error f =>
      cases o' with
      | ok t =>
        obtain ⟨r, _, hr, _⟩ := infers_of_run hy
        exact absurd hr.isKnown hk
      | error g => exact .error fun h => absurd h hk

/-- The variables of a scheme are instantiated in the order of their texts, and that is another one
when the counter passes from nine to ten between them. -/
theorem inferTypes_independent_of_supply_crossing_ten :
    let e : Expr := .letIn {} "k" (.lam {} "x" (.lam {} "y" (.var {} "x"))) (.var {} "k")
    let names : NameSupply := { stem := "a", next := 9 }
    let tree (a b c d : String) : Expr :=
      .letIn ⟨none, some (.fn (.var c) (.fn (.var d) (.var c)))⟩ "k"
        (.lam ⟨none, some (.fn (.var a) (.fn (.var b) (.var a)))⟩ "x"
          (.lam ⟨none, some (.fn (.var b) (.var a))⟩ "y" (.var ⟨none, some (.var a)⟩ "x")))
        (.var ⟨none, some (.fn (.var c) (.fn (.var d) (.var c)))⟩ "k")
    TyEnv.IsClosed ∅ ∧ ((e.inferTypes ∅).run {}).1 = .ok (tree "t0" "t1" "t2" "t3") ∧
      ((e.inferTypes ∅).run names).1 = .ok (tree "a9" "a10" "a12" "a11") ∧
      ∃ σ : Equiv.Perm String, tree "a9" "a10" "a12" "a11" =
        (tree "t0" "t1" "t2" "t3").mapMark fun m =>
          { m with ty := m.ty.map (Ty.bind fun x => .var (σ x)) } := by
  intro e names tree
  have henv : TyEnv.IsClosed ∅ := fun x _ h => by
    rw [Bindings.get?_empty] at h
    cases h
  have ht : ((e.inferTypes ∅).run {}).1 = .ok (tree "t0" "t1" "t2" "t3") := by cbv
  have ht' : ((e.inferTypes ∅).run names).1 = .ok (tree "a9" "a10" "a12" "a11") := by cbv
  have h := inferTypes_independent_of_supply henv e {} names
  rw [ht, ht'] at h
  cases h with | ok h => exact ⟨henv, ht, ht', h⟩

end Expr
end LetLower
