import LetLower.Proofs.Code.WellFormed
import LetLower.Proofs.Llvm.Emit
import LetLower.Proofs.Llvm.Order

/-!
# Running emitted functions

A function starts with its arguments in the first slots, as its code does. So it returns what the
code is worth, and a module of one function returns that when it is run, unless it is refused for
its name.
-/

namespace LetLower.Llvm

open Code (Row)

section

variable {k : Nat} {m : Memory}

theorem executes_allocations (slots : List SlotType) (m : Memory) :
    Executes (allocations slots) m m := by
  have h : ∀ code : List Instr, (∀ i ∈ code, ∃ r t, i = .alloca r t) → Executes code m m := by
    intro code hcode rest
    induction code with
    | nil => rfl
    | cons i code ih =>
      obtain ⟨⟨r, t, rfl⟩, hrest⟩ := List.forall_mem_cons.1 hcode
      rw [List.cons_append, exec, ih hrest]
  refine h _ fun i hi => ?_
  obtain ⟨j, hj, rfl⟩ := List.mem_mapIdx.1 hi
  exact ⟨_, _, rfl⟩

theorem executes_argumentStores (params : List SlotType) {values : List Int}
    (hlen : values.length = params.length)
    (hm : ∀ i n, values[i]? = some n → m.registers.lookup ⟨.argument (i + k), 0⟩ = some n) :
    ∃ m' : Memory,
      Executes (params.mapIdx fun i t =>
        .store ⟨t, .register ⟨.argument (i + k), 0⟩⟩ ⟨.slot (i + k), 0⟩) m m' ∧
      (∀ i n, values[i]? = some n → m'.slots.lookup ⟨.slot (i + k), 0⟩ = some n) ∧
      ∀ j, j < k → m'.slots.lookup ⟨.slot j, 0⟩ = m.slots.lookup ⟨.slot j, 0⟩ := by
  induction params generalizing k m values with
  | nil =>
    obtain rfl := List.eq_nil_of_length_eq_zero hlen
    refine ⟨m, executes_nil m, fun i n h => ?_, fun _ _ => rfl⟩
    rw [List.getElem?_nil] at h
    cases h
  | cons t params ih =>
    cases values with
    | nil => cases hlen
    | cons n values =>
      have hn : m.registers.lookup ⟨.argument k, 0⟩ = some n := by
        have h := hm 0 n rfl
        rwa [Nat.zero_add] at h
      obtain ⟨m', hx, hslots, hkeep⟩ := ih (k := k + 1) (m := m.setSlot ⟨.slot k, 0⟩ n)
        (Nat.succ.inj hlen) fun i p hp => by
          have h := hm (i + 1) p hp
          rwa [Nat.add_right_comm] at h
      have hk : m'.slots.lookup ⟨.slot k, 0⟩ = some n := by
        rw [hkeep k (Nat.lt_succ_self k)]
        simp only [Memory.setSlot, List.lookup_cons, beq_self_eq_true]
      refine ⟨m', fun rest => ?_, fun i p hp => ?_, fun j hj => ?_⟩
      · have hnext : ∀ i, i + 1 + k = i + (k + 1) := fun i => Nat.add_right_comm i 1 k
        rw [List.mapIdx_cons, List.cons_append, Nat.zero_add, exec]
        simp only [Memory.operand?, hn, Option.bind_eq_bind, Option.bind_some, hnext]
        exact hx rest
      · cases i with
        | zero =>
          obtain rfl := Option.some.inj hp
          rwa [Nat.zero_add]
        | succ i =>
          rw [Nat.add_right_comm]
          exact hslots i p hp
      · rw [hkeep j (Nat.lt_succ_of_lt hj)]
        have hne : (⟨.slot j, 0⟩ : Register) ≠ ⟨.slot k, 0⟩ := fun he => by
          cases he
          exact Nat.lt_irrefl k hj
        simp only [Memory.setSlot, List.lookup_cons, beq_eq_false_iff_ne.2 hne]

theorem lookup_arguments {α : Type} (g : α → Int) (l : List α) (i k : Nat) :
    (l.mapIdx fun j a => ((⟨.argument (j + k), 0⟩ : Register), g a)).lookup
      ⟨.argument (i + k), 0⟩ = l[i]?.map g := by
  induction l generalizing i k with
  | nil => rfl
  | cons a l ih =>
    have hnext : ∀ j, j + 1 + k = j + (k + 1) := fun j => Nat.add_right_comm j 1 k
    rw [List.mapIdx_cons, List.lookup_cons]
    cases i with
    | zero => simp only [beq_self_eq_true, List.getElem?_cons_zero, Option.map_some]
    | succ i =>
      have hne : (⟨.argument (i + 1 + k), 0⟩ : Register) ≠ ⟨.argument (0 + k), 0⟩ := fun he => by
        simp only [Register.mk.injEq, Base.argument.injEq, and_true] at he
        omega
      rw [beq_eq_false_iff_ne.2 hne, List.getElem?_cons_succ]
      simp only [hnext]
      exact ih i (k + 1)

end

/-- The integers that a function is given, each within the width of its parameter. -/
def argumentValues (params : List SlotType) (args : List Int) : List Int :=
  (params.zip args).map fun p => p.1.wrap p.2

/-- What stands before the body brings memory to the row that the code starts with. -/
theorem executes_start (f : Code.Function) {args : List Int}
    (hargs : args.length = f.params.length) :
    ∃ m : Memory, Executes (allocations f.slots ++ argumentStores f.params)
      (.ofArguments f.params args) m ∧ m.Holds (f.initialRow args) := by
  have hlen : (argumentValues f.params args).length = f.params.length := by
    rw [argumentValues, List.length_map, List.length_zip, hargs, Nat.min_self]
  have hregisters : ∀ i n, (argumentValues f.params args)[i]? = some n →
      (Memory.ofArguments f.params args).registers.lookup ⟨.argument (i + 0), 0⟩ = some n := by
    intro i n hi
    rw [argumentValues, List.getElem?_map] at hi
    exact (lookup_arguments (fun p => p.1.wrap p.2) (f.params.zip args) i 0).trans hi
  obtain ⟨m, hx, hslots, _⟩ := executes_argumentStores f.params hlen hregisters
  refine ⟨m, (executes_allocations _ _).append hx, fun i n hi => ?_⟩
  have hrow : f.initialRow args = (argumentValues f.params args).map some ++
      List.replicate f.locals.length none := by
    rw [Code.Function.initialRow, argumentValues, List.map_map]
    rfl
  rw [hrow, List.getElem?_append] at hi
  split at hi
  · rw [List.getElem?_map] at hi
    obtain ⟨k, hk, hkn⟩ := Option.map_eq_some_iff.1 hi
    obtain rfl := Option.some.inj hkn
    exact hslots i k hk
  · obtain ⟨_, hn⟩ := List.getElem?_eq_some_iff.1 hi
    rw [List.getElem_replicate] at hn
    cases hn

theorem not_mem_ret_start (f : Code.Function) (v : Value) :
    .ret v ∉ allocations f.slots ++ argumentStores f.params := by
  intro h
  rcases List.mem_append.1 h with h | h
  · obtain ⟨_, _, h⟩ := List.mem_mapIdx.1 h
    cases h
  · obtain ⟨_, _, h⟩ := List.mem_mapIdx.1 h
    cases h

theorem run_of_eval {f : Code.Function} (hu : f.IsUniform) {args : List Int}
    (hargs : args.length = f.params.length) {n : Int} (h : f.eval args = some n) :
    ∃ r, emitFunction f = .ok r ∧ r.name = f.name ∧ r.returnsDeclared = true ∧
      r.run args = some n := by
  obtain ⟨⟨o, row⟩, hbody, h⟩ := Option.bind_eq_some_iff.1 h
  obtain rfl := Option.some.inj h
  obtain ⟨_, value, s, hs, hf⟩ :=
    follows_of_eval hu f.body (s := {}) (Code.Function.length_initialRow hargs) hbody
  obtain ⟨code, hcode, hret, hruns⟩ := hf.runs
  rw [List.append_nil] at hcode
  obtain ⟨m, hx, hm⟩ := executes_start f hargs
  obtain ⟨m', hx', _, _, hv⟩ := hruns m hm
  have hcode' : s.instrs.reverse = code := by rw [hcode, List.reverse_reverse]
  have hresult : (value.getD ⟨f.returnType, .const 0⟩).type = f.returnType ∧
      m'.operand? f.returnType (value.getD ⟨f.returnType, .const 0⟩).operand =
        some (o.getD (f.returnType.wrap 0)) := by
    rcases hf.yields with ⟨rfl, rfl⟩ | ⟨k, operand, rfl, rfl, _⟩
    · exact ⟨rfl, rfl⟩
    · exact ⟨rfl, hv k operand rfl rfl⟩
  refine ⟨_, by rw [emitFunction, hs]; rfl, rfl, ?_, ?_⟩
  · simp only [Routine.returnsDeclared, List.all_eq_true]
    intro i hi
    split
    · rename_i v
      rw [hcode'] at hi
      rcases List.mem_append.1 hi with hi | hi
      · exact absurd hi fun hi =>
          (List.mem_append.1 hi).elim (not_mem_ret_start f v) (hret v)
      · cases List.mem_singleton.1 hi
        exact decide_eq_true hresult.1
    · rfl
  · have hexec := (hx.append hx') [.ret (value.getD ⟨f.returnType, .const 0⟩)]
    rw [← hcode'] at hexec
    rw [Routine.run, hexec, exec, hresult.1]
    exact hresult.2

/-- A well-formed function is emitted, and returns what the code is worth on all arguments. -/
theorem exists_run_of_wellFormed {f : Code.Function} (hu : f.IsUniform) (hf : f.WellFormed) :
    ∃ r, emitFunction f = .ok r ∧ ∀ args : List Int, args.length = f.params.length →
      ∃ n, f.eval args = some n ∧ (f.body.yields = false → n = 0) ∧ r.run args = some n := by
  have hlength : (List.replicate f.params.length (0 : Int)).length = f.params.length :=
    List.length_replicate
  obtain ⟨n, hn, _⟩ := hf.exists_eval hlength
  obtain ⟨r, hr, _⟩ := run_of_eval hu hlength hn
  refine ⟨r, hr, fun args hargs => ?_⟩
  obtain ⟨k, hk, hy⟩ := hf.exists_eval hargs
  obtain ⟨r', hr', _, _, hrun⟩ := run_of_eval hu hargs hk
  obtain rfl := Except.ok.inj (hr'.symm.trans hr)
  exact ⟨k, hk, hy, hrun⟩

/-- The emitted instructions refine the code. No name is given twice or read before it is given, and
on all arguments they return what the code is worth; that is zero if the body yields nothing. -/
theorem emitFunction_refines {f : Code.Function} (hu : f.IsUniform) (hf : f.WellFormed) :
    ∃ r, emitFunction f = .ok r ∧ r.params = f.params ∧ r.WellNamed ∧
      ∀ args : List Int, args.length = f.params.length →
        ∃ n, f.eval args = some n ∧ (f.body.yields = false → n = 0) ∧ r.run args = some n := by
  obtain ⟨r, hr, hrun⟩ := exists_run_of_wellFormed hu hf
  obtain ⟨_, _, _, hparams, _⟩ := emitFunction_ok hr
  exact ⟨r, hr, hparams, wellNamed_emitFunction hr, hrun⟩

/-- The right operand stores to the slot that the left one was read from, in blocks with labels. -/
theorem emitFunction_refines_store_in_operand :
    let f : Code.Function :=
      { name := "f", params := [.i32], locals := [.i32],
        body := .block [.set 1 (.add (.get 0) (.const 5)),
          .block [.add (.get 1) (.block [.set 1 (.get 0), .get 1] "inner")] "outer"] "" }
    f.IsUniform ∧ f.WellFormed ∧ ∃ r, emitFunction f = .ok r ∧
      (r.defined r.body).map Register.text =
        ["arg.0", "slot.0", "slot.1", "get.0", "add", "get.1", "get.0.1", "get.1.1", "add.1"] ∧
      r.WellNamed ∧ f.eval [3] = some 11 ∧ r.run [3] = some 11 := by
  intro f
  have hu : f.IsUniform := by decide
  have hf : f.WellFormed := by decide
  obtain ⟨r, hr, _, hnamed, hrun⟩ := emitFunction_refines hu hf
  have heval : f.eval [3] = some 11 := by decide
  obtain ⟨n, hn, _, hn'⟩ := hrun [3] rfl
  obtain rfl := Option.some.inj (hn.symm.trans heval)
  refine ⟨hu, hf, r, hr, ?_, hnamed, heval, hn'⟩
  cases hr
  decide

theorem emit_single {m : Code.Module} {f : Code.Function} {r : Routine} (hm : m.functions = [f])
    (hne : f.name ≠ "") (hr : emitFunction f = .ok r) : emit m = .ok ⟨m.name, [r]⟩ := by
  simp only [emit, hm, emitFunctions, hne, List.not_mem_nil, or_self, if_false, hr]
  rfl

/-- No module runs under the name: as the name of a module it does not stay in its comment or ends
the text, or as the name of a function it is reserved or cannot be looked up. -/
def isRefused (name : String) : Bool :=
  !endsInComment true name.toList || name.toList.contains '\x00' || Symbol.isReserved name
    || !Symbol.isPlain name || Symbol.isLocal name

theorem run_single {m : Code.Module} {f : Code.Function} (hm : m.functions = [f])
    (hname : m.name = f.name) (hne : f.name ≠ "") (hexported : f.exported = true)
    (hu : f.IsUniform) {args : List Int}
    (hargs : args.length = f.params.length) (hparams : f.params.length ≤ maxParameters) {n : Int}
    (h : f.eval args = some n) :
    (isRefused f.name = false → run m args = .ok n) ∧
      (isRefused f.name = true → ∃ e, run m args = .error e) := by
  obtain ⟨r, hr, hrname, hdeclared, hrun⟩ := run_of_eval hu hargs h
  have hchoose : choose m none = .ok f := by
    simp only [choose, Option.filter_none, Code.Module.exports, hm, List.filter_cons, hexported,
      if_true, List.head?_cons]
  have hemit : emit m = .ok ⟨m.name, [r]⟩ := emit_single hm hne hr
  have hfind : [r].find? (·.name = f.name) = some r := by
    simp only [List.find?_cons, hrname, decide_true]
  have hreadable : Program.isReadable ⟨m.name, [r]⟩ =
      (endsInComment true f.name.toList && !f.name.toList.contains '\x00') := by
    simp only [Program.isReadable, hname, List.all_cons, List.all_nil, Bool.and_true,
      Routine.isReadable, hdeclared, Bool.true_and, hrname]
  have hreserved : (Program.reservedNames ⟨m.name, [r]⟩).isEmpty = !Symbol.isReserved f.name := by
    simp only [Program.reservedNames, List.map_cons, List.map_nil, List.filter_cons, hrname]
    split
    · rename_i hf
      rw [hf]
      rfl
    · rename_i hf
      rw [Bool.eq_false_iff.2 hf]
      rfl
  have hrun' : run m args =
      if !(endsInComment true f.name.toList && !f.name.toList.contains '\x00') then
        .error .unreadable
      else if !!Symbol.isReserved f.name then
        .error (.reservedNames (Program.reservedNames ⟨m.name, [r]⟩))
      else if !Symbol.isPlain f.name then .error (.foreignName f.name)
      else if Symbol.isLocal f.name then .error (.noSuchFunction f.name)
      else .ok n := by
    rw [run, hchoose]
    change (if args.length ≠ f.params.length then _ else _) = _
    rw [if_neg (not_not_intro hargs), hemit]
    simp only [hreadable, hreserved, hfind, hrun, if_neg (Nat.not_lt.2 hparams)]
  rw [hrun', isRefused]
  cases endsInComment true f.name.toList <;> cases f.name.toList.contains '\x00' <;>
    cases Symbol.isReserved f.name <;> cases Symbol.isPlain f.name <;>
    cases Symbol.isLocal f.name <;> simp

end LetLower.Llvm
