import LetLower.Code.Basic

/-!
# Running code over slots

A node is followed left before right, a value before its store, children in order. It may yield an
integer, and every integer is kept within the width of one slot type. There is no answer where a
slot is read before it is written, where an index is outside the row, and where a node that yields
nothing stands for a value.
-/

namespace LetLower.Code

/-- A row of slots; one that is not written yet holds nothing. -/
abbrev Row := List (Option Int)

def readSlot (row : Row) (index : Int) : Option Int := do
  let i ← slotIndex? row.length index
  (row[i]?).join

def writeSlot (row : Row) (index n : Int) : Option Row := do
  let i ← slotIndex? row.length index
  return row.set i (some n)

mutual

/-- What a node yields, and the row after it. -/
def Node.eval (t : SlotType) : Node → Row → Option (Option Int × Row)
  | .const n, row => some (some (t.wrap n), row)
  | .get i, row => do
    let n ← readSlot row i
    return (some n, row)
  | .set i v, row => do
    let (n, row) ← v.eval t row
    return (none, ← writeSlot row i (← n))
  | .block children _, row => Node.evalAll t none children row
  | .add l r, row => do
    let (m, row) ← l.eval t row
    let (n, row) ← r.eval t row
    return (some (t.wrap ((← m) + (← n))), row)
  | .foreign _, _ => none

def Node.evalAll (t : SlotType) (last : Option Int) : List Node → Row → Option (Option Int × Row)
  | [], row => some (last, row)
  | n :: ns, row => do
    let (last, row) ← n.eval t row
    Node.evalAll t last ns row

end

def Function.initialRow (f : Function) (args : List Int) : Row :=
  (f.params.zip args).map (fun p => some (p.1.wrap p.2)) ++ List.replicate f.locals.length none

/-- What a function returns: zero, where its body yields nothing. -/
def Function.eval (f : Function) (args : List Int) : Option Int := do
  let (n, _) ← f.body.eval f.returnType (f.initialRow args)
  return n.getD (f.returnType.wrap 0)

end LetLower.Code
