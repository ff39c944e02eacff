import LetLower.Expr.Basic

/-!
# Evaluation

Call by value, on unbounded integers. A truth value counts as 0 or 1 in arithmetic, and a condition
fails for false and zero only. In its own value the name of a `let rec` stands for that value, which
is worked out again at each use.

`eval` is given a bound on the nesting of steps; it has no answer when the bound is too low and when
evaluation is stuck. `Evaluates` leaves the bound open, and `eval_mono` says that a higher one keeps
an answer.
-/

namespace LetLower

mutual

inductive Value where
  | int (n : Int)
  | bool (b : Bool)
  | closure (env : ValueEnv) (parameter : String) (body : Expr)
  /-- The predefined sum, before it has its operands. -/
  | sum
  | sumFrom (left : Value)

/-- What the names around an expression stand for, the nearest binder first. -/
inductive ValueEnv where
  | empty
  | bind (outer : ValueEnv) (name : String) (value : Value)
  | recursive (outer : ValueEnv) (name : String) (value : Expr)

end

abbrev Evaluator := ValueEnv → Expr → Option Value

namespace Value

/-- The integer that a value is in arithmetic. -/
def number? : Value → Option Int
  | int n => some n
  | bool b => some (if b then 1 else 0)
  | closure .. | sum | sumFrom _ => none

def holds : Value → Bool
  | int n => n ≠ 0
  | bool b => b
  | closure .. | sum | sumFrom _ => true

def isFunction : Value → Bool
  | int _ | bool _ => false
  | closure .. | sum | sumFrom _ => true

/-- Apply a function to an argument. -/
def call (run : Evaluator) (f argument : Value) : Option Value :=
  match f with
  | closure ρ x b => run (ρ.bind x argument) b
  | sum => some (sumFrom argument)
  | sumFrom left => do
    let m ← left.number?
    let n ← argument.number?
    return int (m + n)
  | int _ | bool _ => none

theorem call_mono {run run' : Evaluator} {f argument v : Value}
    (h : ∀ ρ e v, run ρ e = some v → run' ρ e = some v)
    (hv : f.call run argument = some v) : f.call run' argument = some v := by
  cases f with
  | closure ρ x b => exact h _ _ _ hv
  | sum | sumFrom | int | bool => exact hv

end Value

def ValueEnv.read (run : Evaluator) (x : String) : ValueEnv → Option Value
  | empty => none
  | bind ρ y v => if x = y then some v else ρ.read run x
  | recursive ρ y v => if x = y then run (.recursive ρ y v) v else ρ.read run x

theorem ValueEnv.read_mono {run run' : Evaluator} {x : String} {v : Value}
    (h : ∀ ρ e v, run ρ e = some v → run' ρ e = some v) :
    {ρ : ValueEnv} → ρ.read run x = some v → ρ.read run' x = some v
  | empty, hv => hv
  | bind ρ y w, hv => by
    by_cases hx : x = y
    · simpa [read, hx] using hv
    · simp only [read, hx, if_false] at hv ⊢
      exact read_mono h hv
  | recursive ρ y e, hv => by
    by_cases hx : x = y
    · simp only [read, hx, if_true] at hv ⊢
      exact h _ _ _ hv
    · simp only [read, hx, if_false] at hv ⊢
      exact read_mono h hv

def ValueEnv.builtins : ValueEnv := .bind .empty "add" .sum

def Operator.compute : Operator → Int → Int → Value
  | add, m, n => .int (m + n)
  | sub, m, n => .int (m - n)
  | less, m, n => .bool (m < n)

namespace Expr

/-- Evaluate an expression whose parts `run` evaluates. -/
def step (run : Evaluator) (ρ : ValueEnv) : Expr → Option Value
  | int _ n => some (.int n)
  | bool _ b => some (.bool b)
  | var _ x => ρ.read run x
  | lam _ x b => some (.closure ρ x b)
  | app _ f a => do
    let g ← run ρ f
    let v ← run ρ a
    g.call run v
  | letIn _ x v b => do
    let w ← run ρ v
    run (ρ.bind x w) b
  | letRec _ x v b => do
    let w ← run (ρ.recursive x v) v
    run (ρ.bind x w) b
  | binary _ op l r => do
    let m ← (← run ρ l).number?
    let n ← (← run ρ r).number?
    return op.compute m n
  | cond _ c t e => do
    if (← run ρ c).holds then run ρ t else run ρ e
  | bare _ => none

theorem step_mono {run run' : Evaluator} {ρ : ValueEnv} {e : Expr} {v : Value}
    (h : ∀ ρ e v, run ρ e = some v → run' ρ e = some v) (hv : e.step run ρ = some v) :
    e.step run' ρ = some v := by
  cases e with
  | int | bool | lam | bare => exact hv
  | var m x => exact ValueEnv.read_mono h hv
  | app m f a =>
    obtain ⟨g, hg, hv⟩ := Option.bind_eq_some_iff.1 hv
    obtain ⟨w, hw, hv⟩ := Option.bind_eq_some_iff.1 hv
    simp [step, h _ _ _ hg, h _ _ _ hw, Value.call_mono h hv]
  | letIn m x e b =>
    obtain ⟨w, hw, hv⟩ := Option.bind_eq_some_iff.1 hv
    simp [step, h _ _ _ hw, h _ _ _ hv]
  | letRec m x e b =>
    obtain ⟨w, hw, hv⟩ := Option.bind_eq_some_iff.1 hv
    simp [step, h _ _ _ hw, h _ _ _ hv]
  | binary m op l r =>
    obtain ⟨u, hu, hv⟩ := Option.bind_eq_some_iff.1 hv
    obtain ⟨i, hi, hv⟩ := Option.bind_eq_some_iff.1 hv
    obtain ⟨w, hw, hv⟩ := Option.bind_eq_some_iff.1 hv
    simpa [step, h _ _ _ hu, hi, h _ _ _ hw] using hv
  | cond m c t e =>
    obtain ⟨w, hw, hv⟩ := Option.bind_eq_some_iff.1 hv
    by_cases hc : w.holds
    · simp only [hc, if_true] at hv
      simp [step, h _ _ _ hw, hc, h _ _ _ hv]
    · simp only [hc] at hv
      simp [step, h _ _ _ hw, hc, h _ _ _ hv]

def eval : Nat → Evaluator
  | 0, _, _ => none
  | bound + 1, ρ, e => e.step (eval bound) ρ

/-- An expression comes to a value. -/
def Evaluates (ρ : ValueEnv) (e : Expr) (v : Value) : Prop := ∃ bound, eval bound ρ e = some v

theorem eval_succ {bound : Nat} {ρ : ValueEnv} {e : Expr} {v : Value}
    (h : eval bound ρ e = some v) : eval (bound + 1) ρ e = some v := by
  induction bound generalizing ρ e v with
  | zero => simp [eval] at h
  | succ bound ih => exact step_mono (fun _ _ _ => ih) h

theorem eval_mono {m n : Nat} {ρ : ValueEnv} {e : Expr} {v : Value} (hmn : m ≤ n)
    (h : eval m ρ e = some v) : eval n ρ e = some v := by
  induction hmn with
  | refl => exact h
  | step _ ih => exact eval_succ ih

theorem Evaluates.unique {ρ : ValueEnv} {e : Expr} {v w : Value} (hv : Evaluates ρ e v)
    (hw : Evaluates ρ e w) : v = w := by
  obtain ⟨m, hm⟩ := hv
  obtain ⟨n, hn⟩ := hw
  have h₁ := eval_mono (Nat.le_max_left m n) hm
  have h₂ := eval_mono (Nat.le_max_right m n) hn
  exact Option.some.inj (h₁.symm.trans h₂)

end Expr
end LetLower
