import LetLower.Typing
import LetLower.Proofs.Bindings

/-!
# Composition of substitutions

The empty substitution is neutral on both sides. Composition is associative once the oldest
member puts in no quantified type: both ways give the same keys and types, in the same order. A
composed list acts as its members do one after the other. Nothing is asked of the names: the
members may replace the same variables, or put in each other's.
-/

namespace LetLower

theorem Ty.IsUnquantified.apply {s : Subst} (hs : ∀ x u, s.get? x = some u → u.IsUnquantified)
    {t : Ty} (ht : t.IsUnquantified) : (t.apply s).IsUnquantified := by
  induction t with
  | var x =>
    cases hx : s.get? x with
    | none => simp [Ty.apply, hx, IsUnquantified]
    | some u => simpa [Ty.apply, hx] using hs x u hx
  | fn a r iha ihr => exact ⟨iha ht.1, ihr ht.2⟩
  | scheme _ _ _ => exact ht.elim
  | bool | int | unknown => trivial

namespace Subst

def IsUnquantified (s : Subst) : Prop := ∀ t ∈ s.values, t.IsUnquantified

instance (s : Subst) : Decidable s.IsUnquantified :=
  inferInstanceAs (Decidable (∀ t ∈ s.values, t.IsUnquantified))

theorem isUnquantified_iff {s : Subst} :
    s.IsUnquantified ↔ ∀ x t, s.get? x = some t → t.IsUnquantified := by
  constructor
  · exact fun h x t hx => h t (Bindings.mem_values.2 ⟨x, hx⟩)
  · intro h t ht
    obtain ⟨x, hx⟩ := Bindings.mem_values.1 ht
    exact h x t hx

theorem IsPlain.isUnquantified {s : Subst} (h : s.IsPlain) : s.IsUnquantified :=
  isUnquantified_iff.2 fun x t hx => (h x t hx).isUnquantified

theorem IsUnquantified.compose {newer older : Subst} (hn : newer.IsUnquantified)
    (ho : older.IsUnquantified) : (compose newer older).IsUnquantified := by
  rw [isUnquantified_iff] at hn ho ⊢
  intro x t h
  rw [get?_compose] at h
  cases hx : older.get? x with
  | none => exact hn x t (by simpa [hx] using h)
  | some u =>
    obtain rfl : u.apply newer = t := by simpa [hx] using h
    exact (ho x u hx).apply hn

theorem compose_empty (s : Subst) : compose s ∅ = s := by
  obtain ⟨es, hn⟩ := s
  have hf : es.filter (fun e => decide (e.1 ∉ (∅ : Subst))) = es :=
    List.filter_eq_self.2 fun e _ => decide_eq_true (Bindings.not_mem_empty e.1)
  simp only [compose, Bindings.append, Bindings.filterKeys, Bindings.mk.injEq]
  exact hf

theorem empty_compose (s : Subst) : compose ∅ s = s := by
  have hm : s.map (Ty.apply ∅) = s :=
    (Bindings.map_congr (g := fun t => t) fun _ t _ => Ty.apply_empty t).trans Bindings.map_id
  refine Bindings.eq_of_entries_eq ?_
  change (s.map (Ty.apply ∅)).entries ++ [] = _
  rw [hm, List.append_nil]

theorem compose_assoc {a b c : Subst} (hc : c.IsUnquantified) :
    compose a (compose b c) = compose (compose a b) c := by
  have hmap : (c.map (Ty.apply b)).map (Ty.apply a) = c.map (Ty.apply (compose a b)) :=
    Bindings.map_map.trans <| Bindings.map_congr fun x t ht =>
      (Ty.apply_compose (isUnquantified_iff.1 hc x t ht)).symm
  calc compose a (compose b c)
      = (((c.map (Ty.apply b)).append b).map (Ty.apply a)).append a := rfl
    _ = (((c.map (Ty.apply b)).map (Ty.apply a)).append (b.map (Ty.apply a))).append a := by
        rw [Bindings.map_append]
    _ = (c.map (Ty.apply (compose a b))).append ((b.map (Ty.apply a)).append a) := by
        rw [hmap, Bindings.append_assoc]
    _ = compose (compose a b) c := rfl

theorem IsPlain.compose_assoc {a b c : Subst} (hc : c.IsPlain) :
    Subst.compose a (Subst.compose b c) = Subst.compose (Subst.compose a b) c :=
  Subst.compose_assoc hc.isUnquantified

section Action

variable {α : Type} (act : α → Subst → α) {x : α}
  (h : ∀ newer older, act x (compose newer older) = act (act x older) newer)
include h

theorem act_composeFrom (ss : List Subst) (acc : Subst) :
    act x (ss.foldl (fun acc s => compose s acc) acc) = ss.foldl act (act x acc) := by
  induction ss generalizing acc with
  | nil => rfl
  | cons s ss ih => rw [List.foldl_cons, ih, h, List.foldl_cons]

/-- Where a composition of two acts as both, a composed list acts as its members, oldest first. -/
theorem act_composeAll (h₀ : act x ∅ = x) (ss : List Subst) :
    act x (composeAll ss) = ss.foldl act x := by
  rw [composeAll, act_composeFrom act h, h₀]

end Action

theorem composeAll_three (a b c : Subst) : composeAll [a, b, c] = compose c (compose b a) := by
  rw [composeAll, List.foldl_cons, List.foldl_cons, List.foldl_cons, List.foldl_nil, compose_empty]

end Subst
end LetLower
