import LetLower.Llvm.Text

/-!
# Names in a function

The block, the arguments and the targets of instructions share one space of names. A name that is
taken gets a number, the first one that is free. A well-named function gives no name twice, and no
name is read before it is given.
-/

namespace LetLower.Llvm

def numbered (base : String) (k : Nat) : String :=
  if k = 0 then base else base ++ "." ++ toString k

/-- Of `base`, `base.1`, `base.2` and so on, the name is the first that is not taken. -/
def IsNextFree (taken : List String) (base name : String) : Prop :=
  ∃ k, name = numbered base k ∧ name ∉ taken ∧ ∀ j < k, numbered base j ∈ taken

def Operand.registers : Operand → List Register
  | const _ => []
  | register r => [r]

def Instr.uses : Instr → List Register
  | alloca .. => []
  | store v slot => v.operand.registers ++ [slot]
  | load _ _ slot => [slot]
  | add _ _ l r => l.registers ++ r.registers
  | ret v => v.operand.registers

namespace Routine

def arguments (f : Routine) : List Register :=
  (List.range f.params.length).map fun i => ⟨.argument i, 0⟩

def defined (f : Routine) (before : List Instr) : List Register :=
  f.arguments ++ before.filterMap Instr.target?

def taken (f : Routine) (before : List Instr) : List String :=
  "entry" :: (f.defined before).map Register.text

structure WellNamed (f : Routine) : Prop where
  nodup : (f.taken f.body).Nodup
  usesDefined : ∀ before i after, f.body = before ++ i :: after →
    ∀ r ∈ i.uses, r.text ∈ (f.defined before).map Register.text
  nextFree : ∀ before i after r, f.body = before ++ i :: after → i.target? = some r →
    IsNextFree (f.taken before) r.base.text r.text

end Routine

end LetLower.Llvm
