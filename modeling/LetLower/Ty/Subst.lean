import LetLower.Bindings
import LetLower.Ty.Basic

/-!
# Substitutions of types for type variables

A substitution is applied in one pass: what it puts in is not looked at again. Composition is
what makes one pass enough, see `apply_compose`.
-/

namespace LetLower

abbrev Subst := Bindings Ty

def Ty.apply (s : Subst) : Ty → Ty
  | var x => (s.get? x).getD (var x)
  | fn a r => fn (a.apply s) (r.apply s)
  | scheme bound body => scheme bound (body.apply (s.without bound))
  | bool => bool
  | int => int
  | unknown => unknown

def Scheme.apply (s : Subst) (c : Scheme) : Scheme := ⟨c.bound, c.body.apply (s.without c.bound)⟩

namespace Subst

/-- Do `older`, then `newer`: what `older` puts in goes through `newer`, and `newer` adds the
variables that `older` leaves alone. -/
def compose (newer older : Subst) : Subst := (older.map (Ty.apply newer)).append newer

/-- Compose substitutions listed oldest first. -/
def composeAll (ss : List Subst) : Subst := ss.foldl (fun acc s => compose s acc) ∅

/-- The variables of the types that are put in. -/
def range (s : Subst) : NameSet := s.values.foldl (fun vs t => vs.union t.free) ∅

def isKnown (s : Subst) : Bool := s.values.all Ty.isKnown

def render (s : Subst) : String :=
  "\x7b" ++ ", ".intercalate (s.entries.map fun e => e.1 ++ ": " ++ e.2.render) ++ "\x7d"

def render? (s : Subst) : Except Fault String :=
  if s.isKnown then .ok s.render else .error .unknownType

theorem get?_compose {newer older : Subst} {x : String} :
    (compose newer older).get? x
      = ((older.get? x).map (Ty.apply newer)).or (newer.get? x) := by
  simp [compose]

theorem mem_range {s : Subst} {z : String} :
    z ∈ s.range ↔ ∃ x t, s.get? x = some t ∧ z ∈ t.free := by
  have key : ∀ (ts : List Ty) (vs : NameSet),
      z ∈ ts.foldl (fun vs t => vs.union t.free) vs ↔ z ∈ vs ∨ ∃ t ∈ ts, z ∈ t.free := by
    intro ts
    induction ts with
    | nil => simp
    | cons t ts ih => intro vs; rw [List.foldl_cons, ih]; simp [or_assoc]
  rw [range, key]
  simp only [NameSet.not_mem_empty, false_or, Bindings.values, List.mem_map]
  constructor
  · rintro ⟨t, ⟨⟨x, u⟩, he, rfl⟩, hz⟩
    exact ⟨x, u, Bindings.get?_eq_some_iff.2 he, hz⟩
  · rintro ⟨x, t, hx, hz⟩
    exact ⟨t, ⟨_, Bindings.get?_eq_some_iff.1 hx, rfl⟩, hz⟩

end Subst

namespace Ty

@[simp] theorem apply_empty (t : Ty) : t.apply ∅ = t := by
  have key : ∀ s : Subst, (∀ x, s.get? x = none) → t.apply s = t := by
    induction t with
    | var x => intro s h; simp [apply, h]
    | fn a r iha ihr => intro s h; simp [apply, iha s h, ihr s h]
    | scheme bound body ih => intro s h; simp [apply, ih (s.without bound) (by simp [h])]
    | bool | int | unknown => intros; rfl
  exact key ∅ fun _ => rfl

theorem mem_free_apply {s : Subst} {t : Ty} {z : String} (h : z ∈ (t.apply s).free) :
    (z ∈ t.free ∧ s.get? z = none) ∨ z ∈ s.range := by
  induction t generalizing s with
  | var x =>
    cases hx : s.get? x with
    | none =>
      obtain rfl : z = x := by simpa [apply, hx, free] using h
      exact .inl ⟨by simp [free], hx⟩
    | some t => exact .inr (Subst.mem_range.2 ⟨x, t, hx, by simpa [apply, hx] using h⟩)
  | fn a r iha ihr =>
    rcases NameSet.mem_union.1 h with h | h
    · exact (iha h).imp_left fun h' => ⟨NameSet.mem_union.2 (.inl h'.1), h'.2⟩
    · exact (ihr h).imp_left fun h' => ⟨NameSet.mem_union.2 (.inr h'.1), h'.2⟩
  | scheme bound body ih =>
    obtain ⟨hb, hn⟩ := NameSet.mem_diff.1 h
    rcases ih hb with ⟨h₁, h₂⟩ | h'
    · exact .inl ⟨NameSet.mem_diff.2 ⟨h₁, hn⟩, by simpa [hn] using h₂⟩
    · obtain ⟨x, t, hx, ht⟩ := Subst.mem_range.1 h'
      refine .inr (Subst.mem_range.2 ⟨x, t, ?_, ht⟩)
      by_cases hm : x ∈ bound <;> simp_all
  | bool | int | unknown => simp [apply, free] at h

/-- For types without quantified parts, applying a composition is applying both. -/
theorem apply_compose {newer older : Subst} {t : Ty} (h : t.IsUnquantified) :
    t.apply (Subst.compose newer older) = (t.apply older).apply newer := by
  induction t with
  | var x =>
    cases hx : older.get? x with
    | none => simp [apply, Subst.get?_compose, hx]
    | some u => simp [apply, Subst.get?_compose, hx]
  | fn a r iha ihr => simp [apply, iha h.1, ihr h.2]
  | scheme _ _ _ => exact h.elim
  | bool | int | unknown => rfl

end Ty
end LetLower
