import LetLower.Llvm.Instr
import LetLower.Text.Padding

/-!
# From code to instructions

A function first allocates all its slots, then stores its arguments, then follows its body: left
before right, a value before its store, children in order. A body that ends without a value
returns zero. Constants have the type that the function returns.
-/

namespace LetLower.Llvm

inductive EmitError where
  | noSuchSlot
  | hugeIndex
  /-- A statement stands where a value is needed. -/
  | noValue
  | storeMismatch (value slot : SlotType)
  | addMismatch (left right : SlotType)
  | unknownNode
  | nameTaken (name : String)
deriving DecidableEq, Repr

def EmitError.message : EmitError → String
  | noSuchSlot => "list index out of range"
  | hugeIndex => Fault.hugeCount.message
  | noValue => "'NoneType' object has no attribute 'type'"
  | storeMismatch v s => s!"cannot store {v.text} to {s.text}*: mismatching types"
  | addMismatch l r => s!"Operands must be the same type, got ({l.text}, {r.text})"
  | unknownNode => "Unknown IR node:"
  | nameTaken name => name

/-- The instructions so far, newest first, and the base names of their registers. -/
structure Emission where
  instrs : List Instr := []
  used : List Base := []

namespace Emission

def push (s : Emission) (i : Instr) : Emission := { s with instrs := i :: s.instrs }

def define (s : Emission) (b : Base) : Register × Emission :=
  (⟨b, s.used.count b⟩, { s with used := b :: s.used })

end Emission

def slotAt (slots : List SlotType) (index : Int) : Except EmitError (Nat × SlotType) := do
  let some i := Code.slotIndex? slots.length index
    | .error (if Text.isWord index then .noSuchSlot else .hugeIndex)
  let some t := slots[i]? | .error .noSuchSlot
  return (i, t)

abbrev Emitted := Except EmitError (Option Value × Emission)

def emitStore (slots : List SlotType) (index : Int) (value : Option Value) (s : Emission) :
    Emitted := do
  let (i, t) ← slotAt slots index
  match value with
  | none => .error .noValue
  | some v =>
    if v.type = t then .ok (none, s.push (.store v ⟨.slot i, 0⟩))
    else .error (.storeMismatch v.type t)

def emitAdd (left right : Option Value) (s : Emission) : Emitted :=
  match left, right with
  | some l, some r =>
    if l.type = r.type then
      let (target, s) := s.define .sum
      .ok (some ⟨l.type, .register target⟩, s.push (.add target l.type l.operand r.operand))
    else .error (.addMismatch l.type r.type)
  | _, _ => .error .noValue

mutual

def emitNode (constType : SlotType) (slots : List SlotType) :
    Code.Node → Emission → Emitted
  | .const n, s => .ok (some ⟨constType, .const n⟩, s)
  | .get index, s => do
    let (i, t) ← slotAt slots index
    let (target, s) := s.define (.loaded index)
    .ok (some ⟨t, .register target⟩, s.push (.load target t ⟨.slot i, 0⟩))
  | .set index v, s => do
    let (value, s) ← emitNode constType slots v s
    emitStore slots index value s
  | .block children _, s => emitNodes constType slots children none s
  | .add l r, s => do
    let (left, s) ← emitNode constType slots l s
    let (right, s) ← emitNode constType slots r s
    emitAdd left right s
  | .foreign _, _ => .error .unknownNode

def emitNodes (constType : SlotType) (slots : List SlotType) :
    List Code.Node → Option Value → Emission → Emitted
  | [], value, s => .ok (value, s)
  | n :: ns, _, s => do
    let (value, s) ← emitNode constType slots n s
    emitNodes constType slots ns value s

end

def allocations (slots : List SlotType) : List Instr :=
  slots.mapIdx fun i t => .alloca ⟨.slot i, 0⟩ t

def argumentStores (params : List SlotType) : List Instr :=
  params.mapIdx fun i t => .store ⟨t, .register ⟨.argument i, 0⟩⟩ ⟨.slot i, 0⟩

def emitFunction (f : Code.Function) : Except EmitError Routine := do
  let (value, s) ← emitNode f.returnType f.slots f.body {}
  let result := value.getD ⟨f.returnType, .const 0⟩
  return { name := f.name, params := f.params, returnType := f.returnType,
           exported := f.exported,
           body := allocations f.slots ++ argumentStores f.params ++ s.instrs.reverse
             ++ [.ret result] }

def emitFunctions : List Code.Function → List String → Except EmitError (List Routine)
  | [], _ => .ok []
  | f :: fs, taken => do
    if f.name = "" ∨ f.name ∈ taken then .error (.nameTaken f.name)
    else
      let r ← emitFunction f
      let rs ← emitFunctions fs (f.name :: taken)
      return r :: rs

def emit (m : Code.Module) : Except EmitError Program := do
  return { name := m.name, routines := ← emitFunctions m.functions [] }

end LetLower.Llvm
