import LetLower.Proofs.Infer.Paired
import Mathlib.Tactic.Choose

/-!
# Generalising and instantiating

A type that is generalised and instantiated again has changed the names of the variables that the
environment does not mention, one-to-one and to variables drawn for them. The order in which the
bound names are listed decides which variable stands for which, and nothing else.
-/

namespace LetLower

theorem Ty.apply_eq_bind_of_isUnquantified (s : Subst) {t : Ty} (ht : t.IsUnquantified) :
    t.apply s = t.bind s.image := by
  induction t with
  | var x => rfl
  | fn a r iha ihr => rw [apply, bind_fn, iha ht.1, ihr ht.2]
  | bool | int | unknown => rfl
  | scheme _ _ => exact ht.elim

namespace Scheme

variable {c : Scheme} {s s' : NameSupply}

/-- The variables drawn for the bound names, as a renaming that leaves the other names alone. -/
theorem exists_renaming (c : Scheme) (s : NameSupply) :
    ∃ ρ : String → String, (∀ x, (c.freshSubst s).image x = .var (ρ x)) ∧
      (∀ x ∉ c.bound, ρ x = x) ∧
      (∀ x ∈ c.bound, s.Issues (ρ x) ∧ ¬ (c.instantiate s).2.Issues (ρ x)) ∧
      ∀ x ∈ c.bound, ∀ y ∈ c.bound, ρ x = ρ y → x = y := by
  have hex : ∀ x, ∃ y, (c.freshSubst s).image x = .var y ∧ (x ∉ c.bound → y = x) ∧
      (x ∈ c.bound → s.Issues y ∧ ¬ (c.instantiate s).2.Issues y) := fun x => by
    by_cases hx : x ∈ c.bound
    · obtain ⟨y, hy, hi⟩ := image_freshSubst (s := s) hx
      exact ⟨y, hy, fun hn => absurd hx hn, fun _ => hi⟩
    · exact ⟨x, image_freshSubst_of_not_mem hx, fun _ => rfl, fun h => absurd h hx⟩
  choose ρ himage hother hdrawn using hex
  refine ⟨ρ, himage, hother, hdrawn, fun x hx y hy h => ?_⟩
  exact image_freshSubst_injective hx hy (by rw [himage, himage, h])

theorem mem_free_instantiate {z : String} (hz : z ∈ (c.instantiate s).1.free) :
    z ∈ c.free ∨ s.Issues z ∧ ¬ (c.instantiate s).2.Issues z := by
  rcases Ty.mem_free_apply hz with ⟨hz, hn⟩ | hr
  · refine .inl (mem_free.2 ⟨hz, fun hb => ?_⟩)
    exact Bindings.get?_eq_none_iff.1 hn (mem_freshSubst.2 hb)
  · obtain ⟨x, t, hx, hzt⟩ := Subst.mem_range.1 hr
    obtain ⟨y, hy, hi⟩ := mem_freshVars (Bindings.get?_eq_some_iff.1 hx)
    obtain rfl : t = .var y := hy
    rw [Ty.mem_free_var.1 hzt]
    exact .inr hi

/-- Of two instances the later one has new variables for the bound names. -/
theorem mem_free_of_instances (h : (c.instantiate s).2.Reaches s') {z : String}
    (hz : z ∈ (c.instantiate s).1.free) (hz' : z ∈ (c.instantiate s').1.free) : z ∈ c.free := by
  rcases mem_free_instantiate hz with hz | ⟨_, hn⟩
  · exact hz
  rcases mem_free_instantiate hz' with hz' | ⟨hi, _⟩
  · exact hz'
  · exact absurd (hi.of_reaches h) hn

end Scheme

namespace TyEnv

/-- A type that is generalised and instantiated again is the type under a renaming, and two such
instances share nothing but what the environment mentions. -/
theorem instantiate_generalize {env : TyEnv} {t : Ty} {s : NameSupply} (ht : t.IsUnquantified)
    (hd : ∀ z ∈ t.free, ¬ s.Issues z) (henv : ∀ z ∈ env.free, ¬ s.Issues z) :
    let c := env.generalize t
    (∃ ρ : String → String, (c.instantiate s).1 = t.bind (fun x => .var (ρ x)) ∧
      (∀ x, x ∉ t.free ∨ x ∈ env.free → ρ x = x) ∧
      (∀ x ∈ t.free, x ∉ env.free → s.Issues (ρ x) ∧ ¬ (c.instantiate s).2.Issues (ρ x) ∧
        ρ x ∉ t.free ∧ ρ x ∉ env.free) ∧
      ∀ x ∈ t.free, ∀ y ∈ t.free, ρ x = ρ y → x = y) ∧
    (∀ z ∈ c.free, z ∈ env.free) ∧
    ∀ s', (c.instantiate s).2.Reaches s' →
      ∀ z ∈ (c.instantiate s).1.free, z ∈ (c.instantiate s').1.free → z ∈ env.free := by
  intro c
  obtain ⟨ρ, himage, hother, hdrawn, hinj⟩ := c.exists_renaming s
  have hbound : ∀ {x}, x ∈ c.bound ↔ x ∈ t.free ∧ x ∉ env.free := mem_bound_generalize
  refine ⟨⟨ρ, ?_, fun x hx => ?_, fun x hx hn => ?_, fun x hx y hy h => ?_⟩,
    fun z hz => (mem_free_generalize.1 hz).2, fun s' hs z hz hz' => ?_⟩
  · calc (c.instantiate s).1 = t.apply (c.freshSubst s) := rfl
      _ = t.bind (c.freshSubst s).image := Ty.apply_eq_bind_of_isUnquantified _ ht
      _ = t.bind (fun x => .var (ρ x)) := Ty.bind_congr fun x _ => himage x
  · exact hother x fun hb => hx.elim (· (hbound.1 hb).1) (hbound.1 hb).2
  · have hi := hdrawn x (hbound.2 ⟨hx, hn⟩)
    exact ⟨hi.1, hi.2, fun h => hd _ h hi.1, fun h => henv _ h hi.1⟩
  · have hnew : ∀ {z w}, z ∈ c.bound → w ∈ t.free → ρ z ≠ w := fun hz hw he =>
      hd _ (he ▸ hw) (hdrawn _ hz).1
    by_cases hxb : x ∈ c.bound <;> by_cases hyb : y ∈ c.bound
    · exact hinj x hxb y hyb h
    · exact absurd (h.trans (hother y hyb)) (hnew hxb hy)
    · exact absurd (h.symm.trans (hother x hxb)) (hnew hyb hx)
    · exact (hother x hxb).symm.trans (h.trans (hother y hyb))
  · exact (mem_free_generalize.1 (Scheme.mem_free_of_instances hs hz hz')).2

/-- The scheme of `f` binds a variable that is generalised, and leaves one free that is not. The
bound names are listed in another order than the one in which they stand in the type. -/
theorem instantiate_generalize_order :
    let env : TyEnv := .single "f" ⟨.single "t2", .fn (.var "a") (.var "t2")⟩
    let t : Ty := .arrows [.var "t2", .var "t10", .var "a"] (.var "t2")
    let s : NameSupply := { stem := "u" }
    let c := env.generalize t
    t.IsUnquantified ∧ (∀ z ∈ t.free, ¬ s.Issues z) ∧ (∀ z ∈ env.free, ¬ s.Issues z) ∧
      (c.instantiate s).1 = .arrows [.var "u1", .var "u0", .var "a"] (.var "u1") ∧
      (∃ ρ : String → String, (c.instantiate s).1 = t.bind (fun x => .var (ρ x)) ∧
        ρ "a" = "a" ∧ s.Issues (ρ "t2") ∧ ρ "t2" ≠ ρ "t10") ∧
      ∀ z ∈ (c.instantiate s).1.free, z ∈ (c.instantiate (c.instantiate s).2).1.free →
        z ∈ env.free := by
  intro env t s c
  have ht : t.IsUnquantified := by decide
  have apart : ∀ {xs : NameSet}, (∀ z ∈ xs.names, ¬ "u".toList <+: z.toList) →
      ∀ z ∈ xs, ¬ s.Issues z := fun h z hz => NameSupply.not_issues_of_not_prefix (h z hz)
  have hd : ∀ z ∈ t.free, ¬ s.Issues z := apart (by decide)
  have henv : ∀ z ∈ env.free, ¬ s.Issues z := apart (by decide)
  obtain ⟨⟨ρ, hρ, hfix, hdrawn, hinj⟩, _, hshare⟩ := instantiate_generalize ht hd henv
  refine ⟨ht, hd, henv, by decide, ⟨ρ, hρ, hfix "a" (.inr (by decide)), ?_, fun h => ?_⟩,
    hshare _ (.refl _)⟩
  · exact (hdrawn "t2" (by decide) (by decide)).1
  · exact absurd (hinj "t2" (by decide) "t10" (by decide) h) (by decide)

end TyEnv
end LetLower
