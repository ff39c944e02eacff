import LetLower.Code.Basic

/-!
# Well-formed code

Every index stands for a slot, every slot is written before it is read, and a value stands wherever
one is needed. Reads and writes are taken in the order in which they happen, which for code without
branches is one list.
-/

namespace LetLower.Code

inductive Access where
  | read (index : Int)
  | write (index : Int)
deriving DecidableEq, Repr

def Access.index : Access → Int
  | read i | write i => i

def Access.target? : Access → Option Int
  | read _ => none
  | write i => some i

mutual

def Node.accesses : Node → List Access
  | .const _ | .foreign _ => []
  | .get i => [.read i]
  | .set i v => v.accesses ++ [.write i]
  | .block children _ => Node.accessesAll children
  | .add l r => l.accesses ++ r.accesses

def Node.accessesAll : List Node → List Access
  | [] => []
  | n :: ns => n.accesses ++ Node.accessesAll ns

end

def Node.targets (n : Node) : List Int := n.accesses.filterMap Access.target?

/-- In a row of so many slots, of which some are written, all accesses are to slots of the row, and
no read comes before a write. -/
def writesFirst (count : Nat) (written : List Nat) : List Access → Bool
  | [] => true
  | .read index :: rest =>
    match slotIndex? count index with
    | some i => i ∈ written && writesFirst count written rest
    | none => false
  | .write index :: rest =>
    match slotIndex? count index with
    | some i => writesFirst count (i :: written) rest
    | none => false

mutual

def Node.yields : Node → Bool
  | .const _ | .get _ | .add .. => true
  | .set .. | .foreign _ => false
  | .block children _ => Node.lastYields children

def Node.lastYields : List Node → Bool
  | [] => false
  | [n] => n.yields
  | _ :: ns => Node.lastYields ns

end

mutual

/-- Each operand and each stored value yields, and no node is foreign. -/
def Node.operandsYield : Node → Bool
  | .const _ | .get _ => true
  | .set _ v => v.yields && v.operandsYield
  | .block children _ => Node.allOperandsYield children
  | .add l r => l.yields && l.operandsYield && r.yields && r.operandsYield
  | .foreign _ => false

def Node.allOperandsYield : List Node → Bool
  | [] => true
  | n :: ns => n.operandsYield && Node.allOperandsYield ns

end

structure Function.WellFormed (f : Function) : Prop where
  operandsYield : f.body.operandsYield
  writesFirst : writesFirst f.slots.length (List.range f.params.length) f.body.accesses

theorem Function.wellFormed_iff (f : Function) : f.WellFormed ↔ f.body.operandsYield ∧
    Code.writesFirst f.slots.length (List.range f.params.length) f.body.accesses :=
  ⟨fun h => ⟨h.operandsYield, h.writesFirst⟩, fun h => ⟨h.1, h.2⟩⟩

instance (f : Function) : Decidable f.WellFormed := decidable_of_iff' _ f.wellFormed_iff

/-- All slots are as wide as what the function returns. -/
def Function.IsUniform (f : Function) : Prop := ∀ t ∈ f.slots, t = f.returnType

instance (f : Function) : Decidable f.IsUniform := List.decidableBAll (· = f.returnType) f.slots

end LetLower.Code
