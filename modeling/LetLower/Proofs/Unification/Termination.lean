import LetLower.Ty.Calls
import LetLower.Proofs.Ty.Unify

/-!
# Unification ends

Right answers to the problems that a problem leads to make the step unification itself, so the list
of them is complete. All of them are smaller, by the number of variables and then by size. For
the arguments of functions this is plain. The results have become larger by what the arguments have
solved, and as much larger as one likes; but where anything was solved a variable is gone.
-/

namespace LetLower.Ty

variable {answer : Ty → Ty → Except UnifyError Unifier}

theorem unify_of_solve {a b : Ty} {s : { s : Subst // Solves a b s }} (h : solve a b = .ok s) :
    unify a b = .ok ⟨a.apply s.1, s.1⟩ := by
  rw [unify, h]
  rfl

theorem unify_of_solve_error {a b : Ty} {e : UnifyError} (h : solve a b = .error e) :
    unify a b = .error e := by
  rw [unify, h]
  rfl

theorem solveStep_eq {a b : Ty} (h : ∀ c d, Calls (a, b) (c, d) → answer c d = unify c d) :
    solveStep answer a b = (solve a b).map Subtype.val := by
  fun_induction solve a b with
  | case1 | case2 | case5 | case6 | case10 | case11 | case12 | case13 =>
    rw [solveStep]
    · rfl
    all_goals assumption
  | case3 x b hns =>
    rw [solveStep]
    exact hns
  | case4 a x hna hnv =>
    rw [solveStep]
    · cases bindVar x a <;> rfl
    all_goals assumption
  | case7 a a' b b' e he =>
    rw [solveStep, h a b .arguments, unify_of_solve_error he]
    rfl
  | case8 a a' b b' s hs e he =>
    have hu := unify_of_solve hs
    rw [solveStep, h a b .arguments, hu]
    dsimp only
    rw [h _ _ (.results hu), unify_of_solve_error he]
    rfl
  | case9 a a' b b' s hs s' hs' =>
    have hu := unify_of_solve hs
    rw [solveStep, h a b .arguments, hu]
    dsimp only
    rw [h _ _ (.results hu), unify_of_solve hs']
    rfl

theorem unifyStep_eq {a b : Ty} (h : ∀ c d, Calls (a, b) (c, d) → answer c d = unify c d) :
    unifyStep answer a b = unify a b := by
  rw [unifyStep, solveStep_eq h, unify]
  cases solve a b <;> rfl

theorem Calls.measure_lt {p q : Ty × Ty} (h : Calls p q) :
    Prod.Lex (· < ·) (· < ·) (measure q.1 q.2) (measure p.1 p.2) := by
  cases h with
  | @arguments a a' b b' => exact measure_arguments_lt a a' b b'
  | @results a a' b b' u hu =>
    cases hs : solve a b with
    | error e =>
      rw [unify_of_solve_error hs] at hu
      cases hu
    | ok s =>
      rw [unify_of_solve hs] at hu
      cases hu
      exact measure_results_lt a' b' s.2

theorem wellFounded_calls : WellFounded fun q p => Calls p q := by
  have hlex : WellFounded (Prod.Lex ((· < ·) : Nat → Nat → Prop) ((· < ·) : Nat → Nat → Prop)) :=
    (Prod.lex Nat.lt_wfRel Nat.lt_wfRel).wf
  refine Subrelation.wf (fun {q p} h => ?_) (InvImage.wf (fun p : Ty × Ty => measure p.1 p.2) hlex)
  exact h.measure_lt

theorem lt_size_arrows (n : Nat) : n < (arrows (List.replicate n int) int).size := by
  induction n with
  | zero => exact Nat.one_pos
  | succ n ih =>
    change n + 1 < 1 + (arrows (List.replicate n int) int).size + 1
    omega

theorem not_mem_free_arrows (n : Nat) (x : String) :
    x ∉ (arrows (List.replicate n int) int).free := by
  induction n with
  | zero => exact not_mem_free_int x
  | succ n ih => exact fun h => (mem_free_fn.1 h).elim (not_mem_free_int x) ih

/-- What is put into the results makes them larger than any multiple of their size. -/
theorem exists_results_larger (n : Nat) :
    ∃ (a b a' b' : Ty) (u : Unifier), unify a b = .ok u ∧
      n * (a'.size + b'.size) < (a'.apply u.subst).size + (b'.apply u.subst).size := by
  have hx := not_mem_free_arrows n "a"
  have hsize := lt_size_arrows n
  generalize ht : arrows (List.replicate n int) int = t at hx hsize
  have hscheme : ∀ bound body, t ≠ scheme bound body := by
    rintro bound body rfl
    cases n <;> cases ht
  have hvar : t ≠ var "a" := fun h => hx (h ▸ mem_free_var.2 rfl)
  have hsolve : solve (var "a") t = .ok ⟨.single "a" t, .single hx⟩ := by
    rw [solve, bindVar, if_neg hvar, dif_neg hx]
    exact hscheme
  refine ⟨var "a", t, var "a", var "a", _, unify_of_solve hsolve, ?_⟩
  change n * (1 + 1) < t.size + t.size
  omega

/-- Unification turns to smaller problems only, so it ends, though the second of these problems can
be much larger than the results that it comes from. -/
theorem unify_terminates (a b : Ty) :
    (∀ answer, (∀ c d, Calls (a, b) (c, d) → answer c d = unify c d) →
      unifyStep answer a b = unify a b) ∧
    (∀ c d, Calls (a, b) (c, d) →
      Prod.Lex (· < ·) (· < ·) (measure c d) (measure a b)) ∧
    Acc (fun q p => Calls p q) (a, b) ∧
    ∀ n, ∃ (c d c' d' : Ty) (u : Unifier), unify c d = .ok u ∧
      Calls (fn c c', fn d d') (c'.apply u.subst, d'.apply u.subst) ∧
      n * (c'.size + d'.size) < (c'.apply u.subst).size + (d'.apply u.subst).size := by
  refine ⟨fun answer h => unifyStep_eq h, fun c d h => h.measure_lt, wellFounded_calls.apply _,
    fun n => ?_⟩
  obtain ⟨c, d, c', d', u, hu, hsize⟩ := exists_results_larger n
  exact ⟨c, d, c', d', u, hu, .results hu, hsize⟩

end LetLower.Ty
