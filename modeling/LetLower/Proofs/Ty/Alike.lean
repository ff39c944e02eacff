import LetLower.Proofs.Agree
import LetLower.Proofs.Ty.Unify
import Mathlib.Logic.Relator

/-!
# Types up to the names of their variables

Two runs name their variables differently. Types of the one are compared with types of the other
under a pairing of the variables, which is one-to-one. Unification sees nothing but which variables
are equal, so alike problems are solved by alike substitutions, or refused for the same reason.
-/

namespace LetLower

open Relator

theorem biUnique_flip {ρ : String → String → Prop} (h : BiUnique ρ) : BiUnique (flip ρ) :=
  ⟨fun _ _ _ hx hy => h.2 hx hy, fun _ _ _ hx hy => h.1 hx hy⟩

namespace Ty

/-- The types differ only in their variables, which are paired. -/
inductive Alike (ρ : String → String → Prop) : Ty → Ty → Prop
  | bool : Alike ρ .bool .bool
  | int : Alike ρ .int .int
  | var {x y} (h : ρ x y) : Alike ρ (.var x) (.var y)
  | fn {a b r q} (ha : Alike ρ a b) (hr : Alike ρ r q) : Alike ρ (.fn a r) (.fn b q)

namespace Alike

variable {ρ ρ' : String → String → Prop} {t u : Ty}

theorem symm (h : Alike ρ t u) : Alike (flip ρ) u t := by
  induction h with
  | bool => exact .bool
  | int => exact .int
  | var h => exact .var h
  | fn _ _ iha ihr => exact .fn iha ihr

theorem isPlain (h : Alike ρ t u) : t.IsPlain := by
  induction h with
  | bool | int | var => trivial
  | fn _ _ iha ihr => exact ⟨iha, ihr⟩

theorem isFunction_eq (h : Alike ρ t u) : t.isFunction = u.isFunction := by
  cases h <;> rfl

theorem exists_mem_free (h : Alike ρ t u) {x : String} (hx : x ∈ t.free) :
    ∃ y ∈ u.free, ρ x y := by
  induction h with
  | bool | int => exact absurd hx (NameSet.not_mem_empty x)
  | var h =>
    rw [mem_free_var.1 hx]
    exact ⟨_, mem_free_var.2 rfl, h⟩
  | fn _ _ iha ihr =>
    rcases mem_free_fn.1 hx with hx | hx
    · obtain ⟨y, hy, h⟩ := iha hx
      exact ⟨y, mem_free_fn.2 (.inl hy), h⟩
    · obtain ⟨y, hy, h⟩ := ihr hx
      exact ⟨y, mem_free_fn.2 (.inr hy), h⟩

theorem mem_free (hρ : BiUnique ρ) (h : Alike ρ t u) {x y : String} (hxy : ρ x y)
    (hx : x ∈ t.free) : y ∈ u.free := by
  obtain ⟨z, hz, hxz⟩ := h.exists_mem_free hx
  rwa [hρ.2 hxy hxz]

theorem mem_free_iff (hρ : BiUnique ρ) (h : Alike ρ t u) {x y : String} (hxy : ρ x y) :
    x ∈ t.free ↔ y ∈ u.free :=
  ⟨h.mem_free hρ hxy, h.symm.mem_free (biUnique_flip hρ) hxy⟩

theorem bind (h : Alike ρ t u) {f g : String → Ty}
    (hfg : ∀ x ∈ t.free, ∀ y ∈ u.free, ρ x y → Alike ρ' (f x) (g y)) :
    Alike ρ' (t.bind f) (u.bind g) := by
  induction h with
  | bool => exact .bool
  | int => exact .int
  | var h => exact hfg _ (mem_free_var.2 rfl) _ (mem_free_var.2 rfl) h
  | fn _ _ iha ihr =>
    exact .fn
      (iha fun x hx y hy => hfg x (mem_free_fn.2 (.inl hx)) y (mem_free_fn.2 (.inl hy)))
      (ihr fun x hx y hy => hfg x (mem_free_fn.2 (.inr hx)) y (mem_free_fn.2 (.inr hy)))

theorem congr (h : Alike ρ t u) (hρ : ∀ x ∈ t.free, ∀ y ∈ u.free, ρ x y → ρ' x y) :
    Alike ρ' t u := by
  have hb := h.bind (f := .var) (g := .var) fun x hx y hy hxy => .var (hρ x hx y hy hxy)
  rwa [bind_var_self, bind_var_self] at hb

theorem mono (h : Alike ρ t u) (hρ : ∀ x y, ρ x y → ρ' x y) : Alike ρ' t u :=
  h.congr fun x _ y _ => hρ x y

theorem eq_var (hρ : BiUnique ρ) (h : Alike ρ t u) {x y : String} (hxy : ρ x y)
    (ht : t = .var x) : u = .var y := by
  subst ht
  cases h with
  | var h => rw [hρ.2 h hxy]

theorem eq_var_iff (hρ : BiUnique ρ) (h : Alike ρ t u) {x y : String} (hxy : ρ x y) :
    t = .var x ↔ u = .var y :=
  ⟨h.eq_var hρ hxy, h.symm.eq_var (biUnique_flip hρ) hxy⟩

end Alike

theorem alike_refl {ρ : String → String → Prop} {t : Ty} (ht : t.IsPlain)
    (h : ∀ x ∈ t.free, ρ x x) : t.Alike ρ t := by
  induction t with
  | bool => exact .bool
  | int => exact .int
  | var x => exact .var (h x (mem_free_var.2 rfl))
  | fn a r iha ihr =>
    exact .fn (iha ht.1 fun x hx => h x (mem_free_fn.2 (.inl hx)))
      (ihr ht.2 fun x hx => h x (mem_free_fn.2 (.inr hx)))
  | scheme _ _ | unknown => exact ht.elim

end Ty

namespace Subst

def Alike (ρ : String → String → Prop) (S S' : Subst) : Prop :=
  ∀ x y, ρ x y → Ty.Alike ρ (S.image x) (S'.image y)

variable {ρ : String → String → Prop} {S S' : Subst}

theorem alike_empty (ρ : String → String → Prop) : Alike ρ ∅ ∅ := fun _ _ h => .var h

theorem alike_single (hρ : BiUnique ρ) {x y : String} {t u : Ty} (hxy : ρ x y)
    (h : t.Alike ρ u) : Alike ρ (.single x t) (.single y u) := by
  intro z w hzw
  rw [image_single, image_single]
  by_cases hz : z = x
  · subst hz
    rw [if_pos rfl, if_pos (hρ.2 hzw hxy)]
    exact h
  · rw [if_neg hz, if_neg]
    · exact .var hzw
    · rintro rfl
      exact hz (hρ.1 hzw hxy)

end Subst

theorem Ty.Alike.apply {ρ : String → String → Prop} {t u : Ty} {S S' : Subst} (h : t.Alike ρ u)
    (hS : S.Alike ρ S') : (t.apply S).Alike ρ (u.apply S') := by
  rw [apply_eq_bind S h.isPlain, apply_eq_bind S' h.symm.isPlain]
  exact h.bind fun x _ y _ hxy => hS x y hxy

theorem Subst.Alike.compose {ρ : String → String → Prop} {S S' N N' : Subst} (hN : N.Alike ρ N')
    (hS : S.Alike ρ S') : (Subst.compose N S).Alike ρ (Subst.compose N' S') := by
  intro x y hxy
  rw [image_compose, image_compose]
  exact (hS x y hxy).apply hN

/-- The problems have no solution for the same reason. -/
def UnifyError.Alike : UnifyError → UnifyError → Prop
  | .mismatch .., .mismatch .. => True
  | .occurs .., .occurs .. => True
  | _, _ => False

namespace Ty

variable {ρ : String → String → Prop}

theorem bindVar_alike (hρ : BiUnique ρ) {x y : String} {t u : Ty} (hxy : ρ x y)
    (h : t.Alike ρ u) : Matches UnifyError.Alike (fun s s' => s.1.Alike ρ s'.1)
      (bindVar x t) (bindVar y u) := by
  unfold bindVar
  by_cases ht : t = .var x
  · rw [if_pos ht, if_pos ((h.eq_var_iff hρ hxy).1 ht)]
    exact .ok (Subst.alike_empty ρ)
  rw [if_neg ht, if_neg fun hu => ht ((h.eq_var_iff hρ hxy).2 hu)]
  by_cases hx : x ∈ t.free
  · rw [dif_pos hx, dif_pos (h.mem_free hρ hxy hx)]
    exact .error trivial
  · rw [dif_neg hx, dif_neg fun hy => hx ((h.mem_free_iff hρ hxy).2 hy)]
    exact .ok (Subst.alike_single hρ hxy h)

theorem solve_var_left (x : String) {t : Ty} (ht : t.IsPlain) : solve (.var x) t = bindVar x t := by
  cases t with
  | bool | int | var | fn => rw [solve]; simp
  | scheme | unknown => exact ht.elim

theorem solve_var_right {t : Ty} (ht : t.IsPlain) (hn : ∀ y, t ≠ .var y) (x : String) :
    solve t (.var x) = (bindVar x t).map fun s => ⟨s.1, s.2.symm⟩ := by
  cases t with
  | var y => exact absurd rfl (hn y)
  | bool | int | fn => rw [solve] <;> simp
  | scheme | unknown => exact ht.elim

/-- Induction along solving: a problem between functions leads to that of the arguments, and to that
of the results with the solution put in. -/
theorem solve_induction {motive : Ty → Ty → Prop}
    (fn : ∀ a r b p, motive a b →
      (∀ s, solve a b = .ok s → motive (r.apply s.1) (p.apply s.1)) → motive (.fn a r) (.fn b p))
    (other : ∀ a b, (∀ a₁ r b₁ p, a = .fn a₁ r → b = .fn b₁ p → False) → motive a b) (a b : Ty) :
    motive a b := by
  cases a with
  | fn a r =>
    cases b with
    | fn b p =>
      exact fn a r b p (solve_induction fn other a b)
        fun s _ => solve_induction fn other (r.apply s.1) (p.apply s.1)
    | bool | int | var | scheme | unknown => exact other _ _ nofun
  | bool | int | var | scheme | unknown => exact other _ _ nofun
termination_by measure a b
decreasing_by
  · exact measure_arguments_lt a r b p
  · exact measure_results_lt r p s.2

theorem solve_fn_matches {a b r p a' b' r' p' : Ty} {R Q : Subst → Subst → Prop}
    (harg : Matches UnifyError.Alike (fun s s' => R s.1 s'.1) (solve a b) (solve a' b'))
    (hres : ∀ s s', solve a b = .ok s → R s.1 s' → Matches UnifyError.Alike
      (fun t t' => Q (Subst.compose t.1 s.1) (Subst.compose t'.1 s'))
      (solve (r.apply s.1) (p.apply s.1)) (solve (r'.apply s') (p'.apply s'))) :
    Matches UnifyError.Alike (fun s s' => Q s.1 s'.1) (solve (.fn a r) (.fn b p))
      (solve (.fn a' r') (.fn b' p')) := by
  rw [solve, solve]
  generalize hs : solve a b = o at harg ⊢
  generalize solve a' b' = o' at harg ⊢
  cases harg with
  | error h => exact .error h
  | @ok s s' h =>
    have h := hres s s'.1 hs h
    dsimp only
    generalize solve (r.apply s.1) _ = o at h ⊢
    generalize solve _ _ = o' at h ⊢
    cases h with
    | error h => exact .error h
    | ok h => exact .ok h

theorem solve_var_alike (hρ : BiUnique ρ) {t u : Ty} {x y : String} (h : t.Alike ρ u)
    (hxy : ρ x y) : Matches UnifyError.Alike (fun s s' => s.1.Alike ρ s'.1) (solve t (.var x))
      (solve u (.var y)) := by
  have h₀ := h
  cases h with
  | @var z w hzw =>
    rw [solve_var_left z (isPlain_var x), solve_var_left w (isPlain_var y)]
    exact bindVar_alike hρ hzw (.var hxy)
  | bool | int | fn =>
    rw [solve_var_right h₀.isPlain (fun _ => Ty.noConfusion) x,
      solve_var_right h₀.symm.isPlain (fun _ => Ty.noConfusion) y]
    exact (bindVar_alike hρ hxy h₀).map_left.map_right

theorem solve_alike (hρ : BiUnique ρ) {a a' b b' : Ty} (ha : a.Alike ρ a') (hb : b.Alike ρ b') :
    Matches UnifyError.Alike (fun s s' => s.1.Alike ρ s'.1) (solve a b) (solve a' b') := by
  induction a, b using solve_induction generalizing a' b' with
  | fn a r b p ih ih' =>
    cases ha with | fn ha hr =>
    cases hb with | fn hb hp =>
    refine solve_fn_matches (ih ha hb) fun s s' hs hS => ?_
    exact (ih' s hs (hr.apply hS) (hp.apply hS)).imp fun _ _ hT => hT.compose hS
  | other a b hn =>
    have ha₀ := ha
    cases ha with
    | @var x y hxy =>
      rw [solve_var_left x hb.isPlain, solve_var_left y hb.symm.isPlain]
      exact bindVar_alike hρ hxy hb
    | bool =>
      cases hb with
      | var hxy => exact solve_var_alike hρ ha₀ hxy
      | bool =>
        rw [solve]
        exact .ok (Subst.alike_empty ρ)
      | int | fn =>
        simp only [solve]
        exact .error trivial
    | int =>
      cases hb with
      | var hxy => exact solve_var_alike hρ ha₀ hxy
      | int =>
        rw [solve]
        exact .ok (Subst.alike_empty ρ)
      | bool | fn =>
        simp only [solve]
        exact .error trivial
    | fn =>
      cases hb with
      | var hxy => exact solve_var_alike hρ ha₀ hxy
      | bool | int =>
        simp only [solve]
        exact .error trivial
      | fn => exact (hn _ _ _ _ rfl rfl).elim

structure Unifier.Alike (ρ : String → String → Prop) (u u' : Unifier) : Prop where
  type : u.type.Alike ρ u'.type
  subst : u.subst.Alike ρ u'.subst

theorem unify_alike (hρ : BiUnique ρ) {a a' b b' : Ty} (ha : a.Alike ρ a') (hb : b.Alike ρ b') :
    Matches UnifyError.Alike (Unifier.Alike ρ) (unify a b) (unify a' b') := by
  have hs := solve_alike hρ ha hb
  unfold unify
  generalize solve a b = r at hs ⊢
  generalize solve a' b' = r' at hs ⊢
  cases hs with
  | ok hS => exact .ok ⟨ha.apply hS, hS⟩
  | error he => exact .error he

end Ty
end LetLower
