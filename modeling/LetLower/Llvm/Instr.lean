import LetLower.Code.Basic

/-!
# Straight-line instructions

The part of the LLVM language that code over slots needs: every slot is allocated, written and
read in memory, sums are in registers, and a function is one block that ends by returning. A
register is named after what it holds; a name used before in a function gets the next number.
-/

namespace LetLower.Llvm

/-- What a register holds, which is what it is named after. -/
inductive Base where
  | argument (i : Nat)
  | slot (i : Nat)
  | loaded (index : Int)
  | sum
deriving DecidableEq, Repr

/-- The register of the `copy`-th use of a base name. -/
structure Register where
  base : Base
  copy : Nat := 0
deriving DecidableEq, Repr

inductive Operand where
  | const (value : Int)
  | register (r : Register)
deriving DecidableEq, Repr

structure Value where
  type : SlotType
  operand : Operand
deriving DecidableEq, Repr

inductive Instr where
  | alloca (target : Register) (type : SlotType)
  | store (value : Value) (slot : Register)
  | load (target : Register) (type : SlotType) (slot : Register)
  | add (target : Register) (type : SlotType) (left right : Operand)
  | ret (value : Value)
deriving DecidableEq, Repr

def Instr.target? : Instr → Option Register
  | alloca r _ | load r _ _ | add r _ _ _ => some r
  | store .. | ret _ => none

structure Routine where
  name : String
  params : List SlotType
  returnType : SlotType
  exported : Bool
  body : List Instr
deriving DecidableEq, Repr

structure Program where
  name : String
  routines : List Routine
deriving DecidableEq, Repr

end LetLower.Llvm
