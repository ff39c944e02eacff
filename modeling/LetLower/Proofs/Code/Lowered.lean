import LetLower.Proofs.Code.Lower
import LetLower.Proofs.Code.WellFormed

/-!
# Lowered code is well formed

Each `let` is given the next slot, after its value has been lowered. So the slots are written in
their order, each once, and a name is read only below its `let`, when its slot has been written.
-/

namespace LetLower

namespace Code

theorem targets_block_let (i : Int) (n n' : Node) :
    (Node.block [.set i n, n'] "").targets = n.targets ++ i :: n'.targets := by
  simp only [Node.targets, Node.accesses, Node.accessesAll, List.filterMap_append,
    List.append_nil, List.append_assoc]
  rfl

theorem targets_add (n n' : Node) : (Node.add n n').targets = n.targets ++ n'.targets :=
  List.filterMap_append

end Code

def Scope.Below (scope : Scope) (count : Nat) : Prop := ∀ x i, scope.get? x = some i → i < count

namespace Scope.Below

variable {scope : Scope} {count count' : Nat}

theorem mono (h : scope.Below count) (hc : count ≤ count') : scope.Below count' :=
  fun x i hx => Nat.lt_of_lt_of_le (h x i hx) hc

theorem insert (h : scope.Below count) (x : String) :
    Scope.Below (scope.insert x count) (count + 1) :=
  Bindings.forall_insert (h.mono (Nat.le_succ count)) (Nat.lt_succ_self count) x

end Scope.Below

namespace Expr

variable {m m' m'' : Mark} {x : String} {op : Operator} {a b l r v : Expr}

theorem lets_letIn : (letIn m x v b).lets = v.lets + 1 + b.lets := by
  simp only [lets, subtrees, List.countP_cons, List.countP_append, isLet, if_true]
  omega

theorem lets_app : (app m a b).lets = a.lets + b.lets := by
  simp only [lets, subtrees, List.countP_cons, List.countP_append, isLet, Bool.false_eq_true,
    if_false, Nat.add_zero]

theorem lets_binary : (binary m op a b).lets = a.lets + b.lets := by
  simp only [lets, subtrees, List.countP_cons, List.countP_append, isLet, Bool.false_eq_true,
    if_false, Nat.add_zero]

theorem lets_lam : (lam m x b).lets = b.lets := by
  simp only [lets, subtrees, List.countP_cons, isLet, Bool.false_eq_true, if_false, Nat.add_zero]

theorem lets_sum : (app m (app m' (var m'' x) l) r).lets = l.lets + r.lets := by
  rw [lets_app, lets_app]
  exact congrArg (· + r.lets) (Nat.zero_add l.lets)

namespace Lowers

variable {slot : SlotType} {e : Expr} {layout layout' : Layout} {scope : Scope} {n : Code.Node}

theorem count_eq (h : Lowers slot e layout scope n layout') :
    layout'.count = layout.count + e.lets := by
  induction h with
  | int | bool | var => rfl
  | letIn _ _ ihv ihb =>
    rw [ihb, Layout.count_allocate, ihv, lets_letIn]
    omega
  | add _ _ ihl ihr => rw [ihr, ihl, lets_binary, Nat.add_assoc]
  | sum _ _ _ ihl ihr => rw [ihr, ihl, lets_sum, Nat.add_assoc]

theorem targets_eq (h : Lowers slot e layout scope n layout') :
    n.targets = (List.range' layout.count e.lets).map fun i : Nat => (i : Int) := by
  induction h with
  | int | bool | var => rfl
  | @letIn m x v b n n' layout layout₁ layout₂ scope hv hb ihv ihb =>
    have hslots : List.range' layout.count (v.lets + 1 + b.lets) =
        List.range' layout.count v.lets ++
          layout₁.count :: List.range' (layout₁.count + 1) b.lets := by
      rw [Nat.add_assoc, Nat.add_comm 1, ← List.range'_append_1, ← hv.count_eq, List.range'_succ]
    rw [Code.targets_block_let, ihv, ihb, Layout.count_allocate, lets_letIn, hslots,
      List.map_append, List.map_cons]
  | @add m l r n n' layout layout₁ layout₂ scope hl hr ihl ihr =>
    rw [Code.targets_add, ihl, ihr, lets_binary, ← List.range'_append_1, List.map_append,
      hl.count_eq]
  | @sum m m' m'' l r n n' layout layout₁ layout₂ scope hx hl hr ihl ihr =>
    rw [Code.targets_add, ihl, ihr, lets_sum, ← List.range'_append_1, List.map_append,
      hl.count_eq]

theorem yields (h : Lowers slot e layout scope n layout') : n.yields := by
  induction h with
  | letIn _ _ _ ihb => exact ihb
  | int | bool | var | add | sum => rfl

theorem operandsYield (h : Lowers slot e layout scope n layout') : n.operandsYield := by
  induction h with
  | int | bool | var => rfl
  | letIn hv _ ihv ihb =>
    simp only [Code.Node.operandsYield, Code.Node.allOperandsYield, hv.yields, ihv, ihb,
      Bool.and_self]
  | add hl hr ihl ihr | sum _ hl hr ihl ihr =>
    simp only [Code.Node.operandsYield, hl.yields, hr.yields, ihl, ihr, Bool.and_self]

theorem index_lt (h : Lowers slot e layout scope n layout') (hscope : scope.Below layout.count) :
    ∀ a ∈ n.accesses, ∃ i, i < layout'.count ∧ a.index = (i : Int) := by
  have hmono : ∀ {accesses : List Code.Access} {j k : Nat}, j ≤ k →
      (∀ a ∈ accesses, ∃ i, i < j ∧ a.index = (i : Int)) →
      ∀ a ∈ accesses, ∃ i, i < k ∧ a.index = (i : Int) := fun hjk h a ha =>
    (h a ha).imp fun i hi => ⟨Nat.lt_of_lt_of_le hi.1 hjk, hi.2⟩
  induction h with
  | int | bool => exact fun a ha => absurd ha List.not_mem_nil
  | var hx => exact List.forall_mem_singleton.2 ⟨_, hscope _ _ hx, rfl⟩
  | @letIn m x v b n n' layout layout₁ layout₂ scope hv hb ihv ihb =>
    rw [Layout.count_allocate] at ihb
    have hcount := hb.count_le
    rw [Layout.count_allocate] at hcount
    simp only [Code.Node.accesses, Code.Node.accessesAll, List.append_nil, List.forall_mem_append,
      List.forall_mem_singleton]
    exact ⟨⟨hmono (Nat.le_of_succ_le hcount) (ihv hscope), _, hcount, rfl⟩,
      ihb ((hscope.mono hv.count_le).insert x)⟩
  | @add m l r n n' layout layout₁ layout₂ scope hl hr ihl ihr
  | @sum m m' m'' l r n n' layout layout₁ layout₂ scope _ hl hr ihl ihr =>
    exact List.forall_mem_append.2
      ⟨hmono hr.count_le (ihl hscope), ihr (hscope.mono hl.count_le)⟩

/-- A slot is read where its name is in scope, and by then it has been written. -/
theorem writesFirst (h : Lowers slot e layout scope n layout') {count : Nat} {written : List Nat}
    {rest : List Code.Access} (hcount : layout'.count ≤ count) (hscope : scope.Below layout.count)
    (hwritten : ∀ x i, scope.get? x = some i → i ∈ written)
    (hrest : ∀ written', written ⊆ written' → Code.writesFirst count written' rest) :
    Code.writesFirst count written (n.accesses ++ rest) := by
  induction h generalizing written rest with
  | int | bool => exact hrest written fun _ h => h
  | @var m x i layout scope hx =>
    have hindex := Code.slotIndex?_natCast (Nat.lt_of_lt_of_le (hscope x i hx) hcount)
    change Code.writesFirst count written (.read i :: rest) = true
    simp only [Code.writesFirst, hindex, hwritten x i hx, decide_true, Bool.true_and]
    exact hrest written fun _ h => h
  | @letIn m x v b n n' layout layout₁ layout₂ scope hv hb ihv ihb =>
    rw [Layout.count_allocate] at ihb
    have hle := hb.count_le
    rw [Layout.count_allocate] at hle
    have hlt : layout₁.count < count := by omega
    have hindex := Code.slotIndex?_natCast hlt
    simp only [Code.Node.accesses, Code.Node.accessesAll, List.append_nil, List.append_assoc]
    refine ihv (by omega) hscope hwritten fun written₁ h₁ => ?_
    change Code.writesFirst count written₁ (.write layout₁.count :: (n'.accesses ++ rest)) = true
    simp only [Code.writesFirst, hindex]
    refine ihb hcount ((hscope.mono hv.count_le).insert x) ?_ fun written₂ h₂ =>
      hrest written₂ fun i hi => h₂ (List.mem_cons_of_mem _ (h₁ hi))
    exact Bindings.forall_insert (fun y i hy => List.mem_cons_of_mem _ (h₁ (hwritten y i hy)))
      List.mem_cons_self x
  | @add m l r n n' layout layout₁ layout₂ scope hl hr ihl ihr
  | @sum m m' m'' l r n n' layout layout₁ layout₂ scope _ hl hr ihl ihr =>
    rw [Code.Node.accesses, List.append_assoc]
    refine ihl (Nat.le_trans hr.count_le hcount) hscope hwritten fun written₁ h₁ => ?_
    exact ihr hcount (hscope.mono hl.count_le) (fun y i hy => h₁ (hwritten y i hy))
      fun written₂ h₂ => hrest written₂ fun i hi => h₂ (h₁ hi)

end Lowers

theorem isUniform_entryFunction {slot : SlotType} {e body : Expr} {layout layout' : Layout}
    {scope : Scope} {n : Code.Node} (he : Entry slot e layout scope body)
    (hn : Lowers slot body layout scope n layout') (name : String) (exported : Bool) :
    (entryFunction slot name exported layout' n).IsUniform := by
  obtain ⟨hp, k, hk⟩ := hn.layout
  intro t ht
  have ht : t ∈ layout.params ++ (layout.locals ++ List.replicate k slot) := by
    rw [← hp, ← hk]
    exact ht
  cases he with
  | function =>
    rcases List.mem_append.1 ht with ht | ht
    · exact List.mem_singleton.1 ht
    · exact List.eq_of_mem_replicate ht
  | value => exact List.eq_of_mem_replicate ht

namespace Entry

variable {slot : SlotType} {e body : Expr} {layout layout' : Layout} {scope : Scope}
  {n : Code.Node}

theorem lets_eq (h : Entry slot e layout scope body) : e.lets = body.lets := by
  cases h with
  | function => exact lets_lam
  | value => rfl

theorem locals_eq (h : Entry slot e layout scope body) : layout.locals = [] := by
  cases h <;> rfl

theorem below (h : Entry slot e layout scope body) : scope.Below layout.params.length := by
  cases h with
  | @function m x =>
    intro y i hy
    rw [Bindings.get?_single] at hy
    split at hy
    · cases hy
      exact Nat.zero_lt_one
    · cases hy
  | value =>
    intro y i hy
    rw [Bindings.get?_empty] at hy
    cases hy

theorem count_eq (h : Entry slot e layout scope body) : layout.count = layout.params.length := by
  rw [Layout.count, h.locals_eq, List.length_nil, Nat.add_zero]

theorem length_locals (h : Entry slot e layout scope body)
    (hn : Lowers slot body layout scope n layout') : layout'.locals.length = e.lets := by
  have hcount := hn.count_eq
  rw [h.count_eq, ← h.lets_eq, Layout.count, hn.layout.1] at hcount
  exact Nat.add_left_cancel hcount

/-- A lowered function writes each of its locals once, in their order, and no parameter. -/
theorem targets_eq (h : Entry slot e layout scope body)
    (hn : Lowers slot body layout scope n layout') (name : String)
    (exported : Bool) :
    (entryFunction slot name exported layout' n).body.targets =
      (List.range' layout'.params.length e.lets).map fun i : Nat => (i : Int) := by
  rw [hn.layout.1, ← h.count_eq, h.lets_eq, ← hn.targets_eq]
  exact congrArg (List.filterMap Code.Access.target?) (List.append_nil n.accesses)

theorem index_lt (h : Entry slot e layout scope body)
    (hn : Lowers slot body layout scope n layout') (name : String)
    (exported : Bool) :
    ∀ a ∈ (entryFunction slot name exported layout' n).body.accesses,
      ∃ i, i < (entryFunction slot name exported layout' n).slots.length ∧
        a.index = (i : Int) := by
  have hslots : (entryFunction slot name exported layout' n).slots.length = layout'.count :=
    List.length_append
  intro a ha
  rw [hslots]
  refine hn.index_lt (h.count_eq ▸ h.below) a ?_
  rwa [← List.append_nil n.accesses]

theorem wellFormed (h : Entry slot e layout scope body)
    (hn : Lowers slot body layout scope n layout') (name : String)
    (exported : Bool) :
    (entryFunction slot name exported layout' n).WellFormed where
  operandsYield := by
    change (n.operandsYield && true) = true
    rw [hn.operandsYield]
    rfl
  writesFirst := by
    have hslots : (entryFunction slot name exported layout' n).slots.length = layout'.count :=
      List.length_append
    rw [hslots]
    change Code.writesFirst layout'.count (List.range layout'.params.length) (n.accesses ++ [])
    refine hn.writesFirst (Nat.le_refl _) (h.count_eq ▸ h.below) (fun y i hy => ?_)
      fun _ _ => by rw [Code.writesFirst]
    rw [List.mem_range, hn.layout.1]
    exact h.below y i hy

end Entry

end Expr
end LetLower
