import LetLower.Proofs.Code.Eval
import LetLower.Proofs.Code.Lowered
import LetLower.Proofs.Llvm.Run
import Mathlib.Algebra.Group.Nat.Defs

/-!
# Lowered programs

Whatever tree is lowered, with types or after inlining or not: what comes of it is a module of one
well-formed function, and running it returns what evaluation gives, within the width of a slot.
-/

namespace LetLower

open LetLower.Expr

variable {slot : SlotType} {name : String} {exported : Bool} {e : Expr} {names : NameSupply}
  {m : Code.Module}

/-- The module of a lowered program has one function, with a local for each `let`. Indices count
from the first slot; each local is written once, no parameter is, and what is read has been written.
Each operand, each stored value and the body yield. So the module is emitted, and no run reads a
slot that is not written. -/
theorem lower_wellFormed (hname : name ≠ "")
    (h : ((e.lower slot name exported).run names).1 = .ok m) :
    ∃ f, m.functions = [f] ∧ f.locals.length = e.lets ∧
      (∀ a ∈ f.body.accesses, ∃ i, i < f.slots.length ∧ a.index = (i : Int)) ∧
      (∀ i, f.params.length ≤ i → i < f.slots.length → f.body.targets.count (i : Int) = 1) ∧
      (∀ i, i < f.params.length → (i : Int) ∉ f.body.targets) ∧
      f.WellFormed ∧ f.body.yields ∧
      ∃ r, Llvm.emit m = .ok ⟨name, [r]⟩ ∧ ∀ args : List Int, args.length = f.params.length →
        ∃ n, f.eval args = some n ∧ r.run args = some n := by
  obtain ⟨_, h⟩ := Pass.run_ok.1 h
  obtain ⟨layout, scope, body, n, layout', he, hn, rfl⟩ := lower_ok h
  have hlocals := he.length_locals hn
  have htargets := he.targets_eq hn name exported
  have hf := he.wellFormed hn name exported
  obtain ⟨r, hr, hrun⟩ :=
    Llvm.exists_run_of_wellFormed (isUniform_entryFunction he hn name exported) hf
  refine ⟨_, rfl, hlocals, he.index_lt hn name exported, fun i hi hi' => ?_, fun i hi hmem => ?_,
    hf, hn.yields, r, Llvm.emit_single rfl hname hr, fun args hargs => ?_⟩
  · have hnodup : ((List.range' layout'.params.length e.lets).map fun i : Nat => (i : Int)).Nodup :=
      List.Nodup.map (fun _ _ => Int.ofNat_inj.1) List.nodup_range'
    rw [htargets]
    refine List.count_eq_one_of_mem hnodup (List.mem_map.2 ⟨i, List.mem_range'_1.2 ⟨hi, ?_⟩, rfl⟩)
    rwa [← hlocals, ← List.length_append]
  · rw [htargets] at hmem
    obtain ⟨j, hj, hji⟩ := List.mem_map.1 hmem
    have hij : j = i := Int.ofNat_inj.1 hji
    exact Nat.not_lt.2 (List.mem_range'_1.1 hj).1 (hij ▸ hi)
  · obtain ⟨k, hk, _, hrk⟩ := hrun args hargs
    exact ⟨k, hk, hrk⟩

/-- A `let` in each operand, and one more below it. -/
theorem lower_wellFormed_operands :
    let m : Mark := ⟨none, some .int⟩
    let e : Expr := .binary m .add (.letIn m "x" (.int m 1) (.var m "x"))
      (.letIn m "x" (.int m 2) (.letIn m "y" (.var m "x") (.var m "y")))
    let f : Code.Function :=
      { name := "f", locals := [.i32, .i32, .i32], exported := false,
        body := .block [.add (.block [.set 0 (.const 1), .get 0] "")
          (.block [.set 1 (.const 2), .block [.set 2 (.get 1), .get 2] ""] "")] "" }
    "f" ≠ "" ∧ ((e.lower .i32 "f" false).run {}).1 = .ok ⟨"f", [f]⟩ ∧
      f.locals.length = e.lets ∧
      (∀ a ∈ f.body.accesses, ∃ i, i < f.slots.length ∧ a.index = (i : Int)) ∧
      (∀ i, f.params.length ≤ i → i < f.slots.length → f.body.targets.count (i : Int) = 1) ∧
      (∀ i, i < f.params.length → (i : Int) ∉ f.body.targets) ∧
      f.WellFormed ∧ f.body.yields ∧
      ∃ r, Llvm.emit ⟨"f", [f]⟩ = .ok ⟨"f", [r]⟩ ∧
        ∀ args : List Int, args.length = f.params.length →
          ∃ n, f.eval args = some n ∧ r.run args = some n := by
  intro m e f
  have hname : "f" ≠ "" := by decide
  have h : ((e.lower .i32 "f" false).run {}).1 = .ok ⟨"f", [f]⟩ := by cbv
  obtain ⟨g, hg, hgood⟩ := lower_wellFormed hname h
  cases hg
  exact ⟨hname, h, hgood⟩

/-- A lowered program comes to a value, on every argument if it is a function, and running the
module returns that value within the width of a slot. -/
theorem run_lowered (hname : name ≠ "") (hrefused : Llvm.isRefused name = false)
    (h : ((e.lower slot name true).run names).1 = .ok m) :
    (e.isLam = false → ∃ v p, Evaluates .builtins e v ∧ v.number? = some p ∧
      Llvm.run m [] = .ok (p.bmod (2 ^ slot.width))) ∧
    (e.isLam = true → ∀ n, ∃ v p, Evaluates .builtins (app {} e (int {} n)) v ∧
      v.number? = some p ∧ Llvm.run m [n] = .ok (p.bmod (2 ^ slot.width))) := by
  obtain ⟨_, h⟩ := Pass.run_ok.1 h
  obtain ⟨layout, scope, body, node, layout', he, hn, rfl⟩ := lower_ok h
  have hrun : ∀ (args : List Int) (p : Int), args.length = layout'.params.length →
      layout'.params.length ≤ 1 →
      (entryFunction slot name true layout' node).eval args = some (slot.wrap p) →
      Llvm.run ⟨name, [entryFunction slot name true layout' node]⟩ args =
        .ok (p.bmod (2 ^ slot.width)) := by
    intro args p hargs hparams heval
    exact (Llvm.run_single rfl rfl hname rfl (isUniform_entryFunction he hn name true) hargs
      (Nat.le_trans hparams (by decide)) heval).1 hrefused
  rcases he.exists_eval hn name true with ⟨hlam, hp, v, p, hv, hnum, heval⟩ | ⟨hlam, hp, hcode⟩
  · refine ⟨fun _ => ⟨v, p, hv, hnum, hrun [] p ?_ ?_ heval⟩, fun h => ?_⟩
    · rw [hp]
      rfl
    · rw [hp]
      exact Nat.zero_le 1
    · rw [hlam] at h
      cases h
  · refine ⟨fun h => ?_, fun _ n => ?_⟩
    · rw [hlam] at h
      cases h
    · obtain ⟨v, p, hv, hnum, heval⟩ := hcode n
      refine ⟨v, p, hv, hnum, hrun [n] p ?_ ?_ heval⟩
      · rw [hp]
        rfl
      · rw [hp]
        exact Nat.le_refl 1

/-- The parameter is shadowed in one operand and read in the other, and a literal leaves the
width. -/
theorem run_lowered_shadowing :
    let m : Mark := ⟨none, some .int⟩
    let e : Expr := .lam ⟨none, some (.fn .int .int)⟩ "x" (.binary m .add
      (.letIn m "x" (.binary m .add (.var m "x") (.int m 4294967297)) (.var m "x")) (.var m "x"))
    let body : Code.Node :=
      .block [.add (.block [.set 1 (.add (.get 0) (.const 4294967297)), .get 1] "") (.get 0)] ""
    let compiled : Code.Module :=
      ⟨"main", [{ name := "main", params := [.i32], locals := [.i32], body, exported := true }]⟩
    "main" ≠ "" ∧ Llvm.isRefused "main" = false ∧
      ((e.lower .i32 "main" true).run {}).1 = .ok compiled ∧ e.isLam = true ∧
      ∀ n, ∃ v p, Evaluates .builtins (app {} e (int {} n)) v ∧ v.number? = some p ∧
        Llvm.run compiled [n] = .ok (p.bmod (2 ^ 32)) := by
  intro m e body compiled
  have hname : "main" ≠ "" := by decide
  have hrefused : Llvm.isRefused "main" = false := by decide
  have h : ((e.lower .i32 "main" true).run {}).1 = .ok compiled := by cbv
  exact ⟨hname, hrefused, h, rfl, (run_lowered hname hrefused h).2 rfl⟩

end LetLower
