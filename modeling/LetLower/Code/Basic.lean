import LetLower.Data.Basic
import LetLower.Fault

/-!
# Code over slots

A function has a row of slots, its parameters first and then its locals, and a body that reads and
writes slots by their index. No name is looked up here. An index is any integer: a negative one
counts from the end. `foreign` is a node of no kind; it is written as it was read and cannot be
run.
-/

namespace LetLower

inductive SlotType where
  | i32
  | i64
deriving DecidableEq, Repr, Inhabited

namespace SlotType

def width : SlotType → Nat
  | i32 => 32
  | i64 => 64

def text : SlotType → String
  | i32 => "i32"
  | i64 => "i64"

def ofText? (s : String) : Except Fault SlotType :=
  if s = "i32" then .ok i32
  else if s = "i64" then .ok i64
  else .error (.unknownSlotType s)

def range (t : SlotType) : Nat := Nat.pow 2 t.width

/-- The integer that a slot keeps of another: the one of its width, with a sign, that differs by
a multiple of its range. -/
def wrap (t : SlotType) (n : Int) : Int := n.bmod t.range

end SlotType

namespace Code

inductive Node where
  | const (value : Int)
  | get (index : Int)
  | set (index : Int) (value : Node)
  | block (children : List Node) (label : String)
  | add (left right : Node)
  | foreign (op : String)
deriving BEq, Repr, Inhabited

structure Function where
  name : String
  params : List SlotType := []
  returnType : SlotType := .i32
  locals : List SlotType := []
  body : Node := .block [] ""
  exported : Bool := false
deriving BEq, Repr

def Function.slots (f : Function) : List SlotType := f.params ++ f.locals

def slotIndex? (count : Nat) (index : Int) : Option Nat :=
  let i := if index < 0 then index + count else index
  if 0 ≤ i ∧ i < count then some i.toNat else none

structure Module where
  name : String := "main"
  functions : List Function := []
deriving BEq, Repr

namespace Module

def find? (m : Module) (name : String) : Option Function := m.functions.find? (·.name = name)

def exports (m : Module) : List Function := m.functions.filter (·.exported)

end Module

mutual

def Node.toData : Node → Data
  | .const n => .record [("op", .text "const"), ("value", .int n)]
  | .get i => .record [("op", .text "get_local"), ("index", .int i)]
  | .set i v => .record [("op", .text "set_local"), ("index", .int i), ("value", v.toData)]
  | .block children label =>
    .record ([("op", .text "block"), ("children", .list (Node.listToData children))]
      ++ if label.isEmpty then [] else [("label", .text label)])
  | .add l r => .record [("op", .text "add"), ("left", l.toData), ("right", r.toData)]
  | .foreign op => .record [("op", .text op)]

def Node.listToData : List Node → List Data
  | [] => []
  | n :: ns => n.toData :: Node.listToData ns

end

def Function.toData (f : Function) : Data :=
  .record [("name", .text f.name), ("params", .list (f.params.map fun t => .text t.text)),
    ("return_type", .text f.returnType.text),
    ("locals", .list (f.locals.map fun t => .text t.text)),
    ("export", .bool f.exported), ("body", f.body.toData)]

def Module.toData (m : Module) : Data :=
  .record [("module", .text m.name), ("functions", .list (m.functions.map Function.toData))]

end Code
end LetLower
