import LetLower.Ty.Env

/-!
# Unification

Two function types are unified argument first; what that solves is put into the results before
they are unified in turn. The second problem can be much larger than the results were, but every
variable that was solved is gone from it, so the recursion goes down in the number of variables
and then in size. `Solves` is what makes the measure go down: a unifier only speaks of the
variables of the two types, and none that it solves is left in what it puts in.
-/

namespace LetLower

inductive UnifyError where
  | mismatch (expected actual : Ty)
  | occurs (name : String) (type : Ty)
  | quantified (actual expected : Ty)
  | unknown
deriving DecidableEq, Repr

namespace Ty

def vars (a b : Ty) : NameSet := a.free.union b.free

structure Solves (a b : Ty) (s : Subst) : Prop where
  domain : ∀ x t, s.get? x = some t → x ∈ vars a b
  range : ∀ x ∈ s.range, x ∈ vars a b
  solved : ∀ x t, s.get? x = some t → x ∉ s.range

theorem Solves.empty (a b : Ty) : Solves a b ∅ where
  domain x t h := by simp at h
  range x h := by
    obtain ⟨y, t, hy, _⟩ := Subst.mem_range.1 h
    simp at hy
  solved x t h := by simp at h

theorem Solves.single {x : String} {t : Ty} (h : x ∉ t.free) :
    Solves (var x) t (.single x t) where
  domain y u hy := by
    have : y = x := by grind [Bindings.get?_single]
    simp [vars, free, this]
  range z hz := by
    obtain ⟨y, u, hy, hu⟩ := Subst.mem_range.1 hz
    have : u = t := by grind [Bindings.get?_single]
    simp [vars, this ▸ hu]
  solved y u hy hr := by
    obtain ⟨y', u', hy', hu'⟩ := Subst.mem_range.1 hr
    grind [Bindings.get?_single]

theorem Solves.symm {a b : Ty} {s : Subst} (h : Solves a b s) : Solves b a s where
  domain x t hx := by simpa [vars, or_comm] using h.domain x t hx
  range x hx := by simpa [vars, or_comm] using h.range x hx
  solved := h.solved

/-- After the first solution only variables of the whole problem are left, and no solved one. -/
theorem Solves.mem_vars_apply {a b a' b' : Ty} {s : Subst} (h : Solves a b s) {z : String}
    (hz : z ∈ vars (a'.apply s) (b'.apply s)) :
    z ∈ vars (fn a a') (fn b b') ∧ s.get? z = none := by
  have key : ∀ t : Ty, z ∈ (t.apply s).free →
      (z ∈ t.free ∨ z ∈ vars a b) ∧ s.get? z = none := fun t ht => by
    rcases mem_free_apply ht with ⟨h₁, h₂⟩ | hr
    · exact ⟨.inl h₁, h₂⟩
    · refine ⟨.inr (h.range z hr), ?_⟩
      cases hg : s.get? z with
      | none => rfl
      | some t => exact absurd hr (h.solved z t hg)
  simp only [vars, free, NameSet.mem_union] at hz key ⊢
  rcases hz with hz | hz
  · exact ⟨by grind, (key _ hz).2⟩
  · exact ⟨by grind, (key _ hz).2⟩

theorem Solves.compose {a b a' b' : Ty} {s s' : Subst} (h : Solves a b s)
    (h' : Solves (a'.apply s) (b'.apply s) s') :
    Solves (fn a a') (fn b b') (Subst.compose s' s) := by
  have sub : ∀ z, z ∈ vars a b → z ∈ vars (fn a a') (fn b b') := fun z hz => by
    simp only [vars, free, NameSet.mem_union] at hz ⊢
    grind
  have dom : ∀ {x t}, (Subst.compose s' s).get? x = some t →
      (∃ u, s.get? x = some u ∧ t = u.apply s') ∨ s.get? x = none ∧ s'.get? x = some t := by
    intro x t hx
    rw [Subst.get?_compose] at hx
    cases hs : s.get? x with
    | none => exact .inr ⟨rfl, by simpa [hs] using hx⟩
    | some u => exact .inl ⟨u, rfl, by simpa [hs, eq_comm] using hx⟩
  have ran : ∀ {z}, z ∈ (Subst.compose s' s).range →
      (z ∈ s.range ∧ s'.get? z = none) ∨ z ∈ s'.range := by
    intro z hz
    obtain ⟨x, t, hx, ht⟩ := Subst.mem_range.1 hz
    rcases dom hx with ⟨u, hu, rfl⟩ | ⟨_, hs'⟩
    · exact (mem_free_apply ht).imp_left fun h => ⟨Subst.mem_range.2 ⟨x, u, hu, h.1⟩, h.2⟩
    · exact .inr (Subst.mem_range.2 ⟨x, t, hs', ht⟩)
  refine ⟨fun x t hx => ?_, fun z hz => ?_, fun x t hx hz => ?_⟩
  · rcases dom hx with ⟨u, hu, _⟩ | ⟨_, hs'⟩
    · exact sub x (h.domain x u hu)
    · exact (h.mem_vars_apply (h'.domain x t hs')).1
  · rcases ran hz with ⟨hr, _⟩ | hr
    · exact sub z (h.range z hr)
    · exact (h.mem_vars_apply (h'.range z hr)).1
  · rcases dom hx with ⟨u, hu, _⟩ | ⟨hn, hs'⟩
    · rcases ran hz with ⟨hr, _⟩ | hr
      · exact h.solved x u hu hr
      · have := (h.mem_vars_apply (h'.range x hr)).2
        simp [hu] at this
    · rcases ran hz with ⟨_, hn'⟩ | hr
      · simp [hs'] at hn'
      · exact h'.solved x t hs' hr

theorem apply_of_forall_none {s : Subst} {t : Ty} (h : ∀ x, s.get? x = none) : t.apply s = t := by
  have : s = ∅ := by
    obtain ⟨es, hn⟩ := s
    cases es with
    | nil => rfl
    | cons e es => have := h e.1; simp [Bindings.get?, Bindings.find] at this
  rw [this, apply_empty]

/-- The number of variables of a problem, then its size. -/
def measure (a b : Ty) : Nat × Nat := ((vars a b).size, a.size + b.size)

theorem measure_lt {a b c d : Ty} (hv : ∀ x ∈ vars a b, x ∈ vars c d)
    (hs : a.size + b.size < c.size + d.size) :
    Prod.Lex (· < ·) (· < ·) (measure a b) (measure c d) := by
  rcases Nat.lt_or_eq_of_le (NameSet.size_le_of_subset hv) with h | h
  · exact .left _ _ h
  · simp only [measure, h]
    exact .right _ hs

theorem measure_arguments_lt (a a' b b' : Ty) :
    Prod.Lex (· < ·) (· < ·) (measure a b) (measure (fn a a') (fn b b')) := by
  refine measure_lt (fun x hx => ?_) (by simp only [size]; omega)
  simp only [vars, free, NameSet.mem_union] at hx ⊢
  grind

theorem measure_results_lt {a b : Ty} (a' b' : Ty) {s : Subst} (h : Solves a b s) :
    Prod.Lex (· < ·) (· < ·) (measure (a'.apply s) (b'.apply s))
      (measure (fn a a') (fn b b')) := by
  by_cases hn : ∀ x, s.get? x = none
  · rw [apply_of_forall_none hn, apply_of_forall_none hn]
    refine measure_lt (fun x hx => ?_) (by simp only [size]; omega)
    simp only [vars, free, NameSet.mem_union] at hx ⊢
    grind
  · obtain ⟨x, hx⟩ := Classical.not_forall.1 hn
    obtain ⟨t, ht⟩ := Option.ne_none_iff_exists'.1 hx
    refine .left _ _ (NameSet.size_lt_of_subset (fun z hz => (h.mem_vars_apply hz).1)
      (z := x) ?_ fun hz => by simp [(h.mem_vars_apply hz).2] at ht)
    have := h.domain x t ht
    simp only [vars, free, NameSet.mem_union] at this ⊢
    grind

/-- Solve `x = t`. -/
def bindVar (x : String) (t : Ty) : Except UnifyError { s : Subst // Solves (var x) t s } :=
  if t = var x then .ok ⟨∅, .empty ..⟩
  else if h : x ∈ t.free then .error (.occurs x t)
  else .ok ⟨.single x t, .single h⟩

def solve (a b : Ty) : Except UnifyError { s : Subst // Solves a b s } :=
  match a, b with
  | scheme .., _ | _, scheme .. => .error (.quantified a b)
  | var x, b => bindVar x b
  | a, var x => (bindVar x a).map fun s => ⟨s.1, s.2.symm⟩
  | bool, bool => .ok ⟨∅, .empty ..⟩
  | int, int => .ok ⟨∅, .empty ..⟩
  | fn a a', fn b b' =>
    match solve a b with
    | .error e => .error e
    | .ok s =>
      match solve (a'.apply s.1) (b'.apply s.1) with
      | .error e => .error e
      | .ok s' => .ok ⟨Subst.compose s'.1 s.1, s.2.compose s'.2⟩
  | bool, _ | int, _ | fn .., _ => .error (.mismatch b a)
  | unknown, _ => .error .unknown
termination_by measure a b
decreasing_by
  · exact measure_arguments_lt a a' b b'
  · exact measure_results_lt a' b' s.2

/-- What two types have in common: the type that both become, and the substitution that makes
them so. -/
structure Unifier where
  type : Ty
  subst : Subst
deriving DecidableEq, Repr

/-- Make an actual and an expected type equal, or say why they cannot be. -/
def unify (a b : Ty) : Except UnifyError Unifier :=
  (solve a b).map fun s => ⟨a.apply s.1, s.1⟩

end Ty
end LetLower
