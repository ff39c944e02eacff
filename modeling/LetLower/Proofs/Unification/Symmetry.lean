import LetLower.Proofs.Unification
import Mathlib.Logic.Equiv.Basic

/-!
# Unification of swapped sides

The two sides of a problem may change places. Where a variable meets a variable the two runs go
opposite ways: one puts the second in for the first, the other the first for the second. So the runs
are compared under a permutation of the variables, which each such step changes by exchanging the
two variables, and under it they solve alike problems all along. They fail for the same reason, or
their results differ in names only.
-/

namespace LetLower

open Relator

/-- The permutation takes one name to the other. -/
def Pairs (σ : Equiv.Perm String) (x y : String) : Prop := σ x = y

theorem biUnique_pairs (σ : Equiv.Perm String) : BiUnique (Pairs σ) :=
  ⟨fun _ _ _ hx hy => σ.injective (hx.trans hy.symm), fun _ _ _ hx hy => hx.symm.trans hy⟩

theorem Ty.Alike.eq_bind {σ : Equiv.Perm String} {t u : Ty} (h : t.Alike (Pairs σ) u) :
    u = t.bind fun x => .var (σ x) := by
  induction h with
  | bool | int => rfl
  | var h => exact congrArg Ty.var h.symm
  | fn _ _ iha ihr => rw [iha, ihr, bind_fn]

/-- What two substitutions put in is alike under `τ` where the variables are paired by `σ`. -/
def Subst.Mirrors (σ τ : Equiv.Perm String) (S S' : Subst) : Prop :=
  ∀ x, Ty.Alike (Pairs τ) (S.image x) (S'.image (σ x))

variable {σ τ υ : Equiv.Perm String}

theorem Ty.Alike.mirror {t u : Ty} {S S' : Subst} (h : t.Alike (Pairs σ) u)
    (hS : S.Mirrors σ τ S') : (t.apply S).Alike (Pairs τ) (u.apply S') := by
  rw [apply_eq_bind S h.isPlain, apply_eq_bind S' h.symm.isPlain]
  refine h.bind fun x _ y _ hxy => ?_
  rw [← show σ x = y from hxy]
  exact hS x

namespace Subst

theorem Alike.mirrors {S S' : Subst} (h : Alike (Pairs σ) S S') : Mirrors σ σ S S' :=
  fun x => h x (σ x) rfl

theorem Mirrors.compose {S S' N N' : Subst} (hS : Mirrors σ τ S S') (hN : Mirrors τ υ N N') :
    Mirrors σ υ (Subst.compose N S) (Subst.compose N' S') := by
  intro x
  rw [image_compose, image_compose]
  exact (hS x).mirror hN

/-- Two variables that are put in for each other have changed places. -/
theorem mirrors_swap (σ : Equiv.Perm String) (x y : String) :
    Mirrors σ ((Equiv.swap x y).trans σ) (.single x (.var y)) (.single (σ y) (.var (σ x))) := by
  intro z
  rw [image_single, image_single]
  by_cases hx : z = x
  · subst hx
    rw [if_pos rfl, ite_self]
    exact .var (congrArg σ (Equiv.swap_apply_right z y))
  rw [if_neg hx]
  by_cases hy : z = y
  · subst hy
    rw [if_pos rfl]
    exact .var (congrArg σ (Equiv.swap_apply_right x z))
  · rw [if_neg fun h => hy (σ.injective h)]
    exact .var (congrArg σ (Equiv.swap_apply_of_ne_of_ne hx hy))

end Subst

namespace Ty

theorem bindVar_var_mirrors (σ : Equiv.Perm String) (x y : String) :
    Matches UnifyError.Alike (fun s s' => ∃ τ, s.1.Mirrors σ τ s'.1)
      (bindVar x (.var y)) (bindVar (σ y) (.var (σ x))) := by
  unfold bindVar
  by_cases hy : y = x
  · subst hy
    rw [if_pos rfl, if_pos rfl]
    exact .ok ⟨σ, (Subst.alike_empty _).mirrors⟩
  · have hv : Ty.var y ≠ .var x := fun h => hy (Ty.var.inj h)
    have hσ : Ty.var (σ x) ≠ .var (σ y) := fun h => hy (σ.injective (Ty.var.inj h)).symm
    have hx : x ∉ (Ty.var y).free := fun h => hy (mem_free_var.1 h).symm
    have hx' : σ y ∉ (Ty.var (σ x)).free := fun h => hy (σ.injective (mem_free_var.1 h))
    rw [if_neg hv, if_neg hσ, dif_neg hx, dif_neg hx']
    exact .ok ⟨_, Subst.mirrors_swap σ x y⟩

theorem bindVar_mirrors {x y : String} {t u : Ty} (hxy : Pairs σ x y) (h : t.Alike (Pairs σ) u) :
    Matches UnifyError.Alike (fun s s' => ∃ τ, s.1.Mirrors σ τ s'.1) (bindVar x t) (bindVar y u) :=
  (bindVar_alike (biUnique_pairs σ) hxy h).imp fun _ _ hs => ⟨σ, hs.mirrors⟩

theorem solve_var_mirrors {t u : Ty} {x y : String} (h : t.Alike (Pairs σ) u)
    (hxy : Pairs σ x y) : Matches UnifyError.Alike (fun s s' => ∃ τ, s.1.Mirrors σ τ s'.1)
      (solve t (.var x)) (solve (.var y) u) := by
  have h₀ := h
  cases h with
  | @var z w hzw =>
    obtain rfl : σ z = w := hzw
    obtain rfl : σ x = y := hxy
    rw [solve_var_left z (isPlain_var x), solve_var_left _ (isPlain_var _)]
    exact bindVar_var_mirrors σ z x
  | bool | int | fn =>
    rw [solve_var_right h₀.isPlain (fun _ => Ty.noConfusion) x, solve_var_left y h₀.symm.isPlain]
    exact (bindVar_mirrors hxy h₀).map_left

/-- Problems with swapped sides, alike under a permutation, are solved by substitutions that mirror
each other, or refused for the same reason. -/
theorem solve_mirrors {a a' b b' : Ty} (ha : a.Alike (Pairs σ) a') (hb : b.Alike (Pairs σ) b') :
    Matches UnifyError.Alike (fun s s' => ∃ τ, s.1.Mirrors σ τ s'.1) (solve a b) (solve b' a') := by
  induction a, b using solve_induction generalizing σ a' b' with
  | fn a r b p ih ih' =>
    cases ha with | fn ha hr =>
    cases hb with | fn hb hp =>
    refine solve_fn_matches (R := fun S S' => ∃ τ, S.Mirrors σ τ S')
      (Q := fun S S' => ∃ τ, S.Mirrors σ τ S') (ih ha hb) ?_
    rintro s s' hs ⟨τ, hS⟩
    refine (ih' s hs (hr.mirror hS) (hp.mirror hS)).imp ?_
    rintro _ _ ⟨υ, hT⟩
    exact ⟨υ, hS.compose hT⟩
  | other a b hn =>
    have ha₀ := ha
    have hb₀ := hb
    cases ha with
    | @var x y hxy =>
      cases hb with
      | var hzw => exact solve_var_mirrors ha₀ hzw
      | bool | int | fn =>
        rw [solve_var_left x hb₀.isPlain,
          solve_var_right hb₀.symm.isPlain (fun _ => Ty.noConfusion) y]
        exact (bindVar_mirrors hxy hb₀).map_right
    | bool =>
      cases hb with
      | var hxy => exact solve_var_mirrors ha₀ hxy
      | bool =>
        rw [solve]
        exact .ok ⟨σ, (Subst.alike_empty _).mirrors⟩
      | int | fn =>
        simp only [solve]
        exact .error trivial
    | int =>
      cases hb with
      | var hxy => exact solve_var_mirrors ha₀ hxy
      | int =>
        rw [solve]
        exact .ok ⟨σ, (Subst.alike_empty _).mirrors⟩
      | bool | fn =>
        simp only [solve]
        exact .error trivial
    | fn =>
      cases hb with
      | var hxy => exact solve_var_mirrors ha₀ hxy
      | bool | int =>
        simp only [solve]
        exact .error trivial
      | fn => exact (hn _ _ _ _ rfl rfl).elim

theorem unify_mirrors {a b : Ty} (ha : a.IsPlain) (hb : b.IsPlain) :
    Matches UnifyError.Alike
      (fun u u' => ∃ σ : Equiv.Perm String, u'.type = u.type.bind fun x => .var (σ x))
      (unify a b) (unify b a) := by
  have hself : ∀ {t : Ty}, t.IsPlain → t.Alike (Pairs (.refl _)) t := fun ht =>
    alike_refl ht fun _ _ => rfl
  have hs := solve_mirrors (hself ha) (hself hb)
  have hd := solve_decides a b ha hb
  unfold unify
  generalize solve a b = r at hs hd ⊢
  generalize solve b a = r' at hs ⊢
  cases hs with
  | error he => exact .error he
  | @ok s s' hs =>
    obtain ⟨τ, hs⟩ := hs
    have hsides : a.apply s.1 = b.apply s.1 := hd.apply_eq ha hb
    refine .ok ⟨τ, ?_⟩
    change b.apply s'.1 = (a.apply s.1).bind _
    rw [hsides]
    exact ((hself hb).mirror hs).eq_bind

/-- Where two types are made equal in either order, what they become differs by a permutation of the
variables; where they cannot be, both orders report a mistake of the same kind. -/
theorem unifier_symm {a b : Ty} (ha : a.IsPlain) (hb : b.IsPlain) (loc loc' : Option Location)
    (names names' : NameSupply) :
    (∃ (u u' : Unifier) (σ : Equiv.Perm String), ((Pass.unify a b loc).run names).1 = .ok u ∧
      ((Pass.unify b a loc').run names').1 = .ok u' ∧
      u'.type = u.type.bind fun x => .var (σ x)) ∨
    ∃ d d', ((Pass.unify a b loc).run names).1 = .error (.diagnostic d) ∧
      ((Pass.unify b a loc').run names').1 = .error (.diagnostic d') ∧ d.kind = d'.kind ∧
      (d.kind = .typeMismatch ∨ d.kind = .infiniteType) := by
  have h := unify_mirrors ha hb
  rw [Pass.run_unify, Pass.run_unify]
  cases hu : unify a b with
  | ok u =>
    cases hu' : unify b a with
    | ok u' =>
      rw [hu, hu'] at h
      cases h with | ok h =>
      obtain ⟨σ, hσ⟩ := h
      exact .inl ⟨u, u', σ, rfl, rfl, hσ⟩
    | error e' =>
      rw [hu, hu'] at h
      cases h
  | error e =>
    cases hu' : unify b a with
    | ok u' =>
      rw [hu, hu'] at h
      cases h
    | error e' =>
      rw [hu, hu'] at h
      cases h with | error h =>
      have he := isMistake_of_unify ha hb hu
      have he' := isMistake_of_unify hb ha hu'
      obtain ⟨d, d', hd, hd', hkind⟩ := Pass.sameKind_ofUnifyError h he he' loc loc'
      obtain ⟨d₁, hd₁, _, hd₁kind⟩ := Pass.ofUnifyError_of_isMistake he loc
      obtain rfl : d = d₁ := Failure.diagnostic.inj (hd.symm.trans hd₁)
      exact .inr ⟨d, d', congrArg Except.error hd, congrArg Except.error hd', hkind, hd₁kind⟩

/-- The variable that stays is another one when the sides are swapped. -/
theorem unifier_symm_chain :
    let a : Ty := .fn (.var "a") (.fn (.var "b") (.var "a"))
    let b : Ty := .fn (.var "b") (.fn (.var "c") (.var "c"))
    let u : Unifier := ⟨.fn (.var "c") (.fn (.var "c") (.var "c")),
      ⟨[("a", .var "c"), ("b", .var "c")], by decide⟩⟩
    let u' : Unifier := ⟨.fn (.var "a") (.fn (.var "a") (.var "a")),
      ⟨[("b", .var "a"), ("c", .var "a")], by decide⟩⟩
    a.IsPlain ∧ b.IsPlain ∧ ((Pass.unify a b none).run {}).1 = .ok u ∧
      ((Pass.unify b a none).run {}).1 = .ok u' ∧
      ∃ σ : Equiv.Perm String, u'.type = u.type.bind fun x => .var (σ x) := by
  intro a b u u'
  have ha : a.IsPlain := by decide
  have hb : b.IsPlain := by decide
  have hu : ((Pass.unify a b none).run {}).1 = .ok u := by cbv
  have hu' : ((Pass.unify b a none).run {}).1 = .ok u' := by cbv
  refine ⟨ha, hb, hu, hu', ?_⟩
  rcases unifier_symm ha hb none none {} {} with ⟨v, v', σ, hv, hv', hσ⟩ | ⟨d, _, hd, _⟩
  · obtain rfl : u = v := Except.ok.inj (hu.symm.trans hv)
    obtain rfl : u' = v' := Except.ok.inj (hu'.symm.trans hv')
    exact ⟨σ, hσ⟩
  · cases hu.symm.trans hd

end Ty

end LetLower
