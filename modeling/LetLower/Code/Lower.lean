import LetLower.Pass
import LetLower.Code.Basic

/-!
# Lowering expressions to code

Integers, truth values as one and zero, names of slots, `let`s of values, and sums: the operator,
or the predefined `add` with both arguments where no slot has taken its name. Everything else is
reported, not skipped. A function becomes a parameter; the program is a function of one integer
or an integer.
-/

namespace LetLower

structure Layout where
  params : List SlotType := []
  locals : List SlotType := []
deriving DecidableEq, Repr

/-- Add a local; its index is the number of slots before it. -/
def Layout.allocate (l : Layout) (t : SlotType) : Layout × Nat :=
  ({ l with locals := l.locals ++ [t] }, l.params.length + l.locals.length)

/-- The slots of the names in scope. -/
abbrev Scope := Bindings Nat

def addName : String := "add"

namespace Expr

def unsupported (e : Expr) : Pass (Code.Node × Layout) := do
  Pass.report (← Pass.orFault (Diagnostic.unsupportedConstruct e))

def lowerIn (slot : SlotType) : Expr → Layout → Scope → Pass (Code.Node × Layout)
  | int ⟨_, some _⟩ n, layout, _ => return (.const n, layout)
  | bool ⟨_, some _⟩ b, layout, _ => return (.const (if b then 1 else 0), layout)
  | var ⟨loc, some _⟩ x, layout, scope =>
    match scope.get? x with
    | some i => return (.get i, layout)
    | none => Pass.report (.missingVariable x loc)
  | letIn ⟨_, some _⟩ x v b, layout, scope => do
    let (value, layout) ← v.lowerIn slot layout scope
    let (layout, i) := layout.allocate slot
    Pass.note (.assigned i x)
    let (body, layout) ← b.lowerIn slot layout (scope.insert x i)
    return (.block [.set i value, body] "", layout)
  | binary ⟨_, some _⟩ .add l r, layout, scope => do
    let (left, layout) ← l.lowerIn slot layout scope
    let (right, layout) ← r.lowerIn slot layout scope
    return (.add left right, layout)
  | app ⟨loc, some t⟩ (app ⟨loc', some t'⟩ (var ⟨loc'', some t''⟩ x) l) r, layout, scope =>
    if x = addName ∧ x ∉ scope then do
      let (left, layout) ← l.lowerIn slot layout scope
      let (right, layout) ← r.lowerIn slot layout scope
      return (.add left right, layout)
    else unsupported (app ⟨loc, some t⟩ (app ⟨loc', some t'⟩ (var ⟨loc'', some t''⟩ x) l) r)
  | e, _, _ => unsupported e

/-- The parameters, their scope, and what is computed from them. The type has to be that of an
integer or of a function from integers to integers. -/
def entry (slot : SlotType) : Expr → Pass (Layout × Scope × Expr)
  | lam ⟨loc, some t⟩ x b => do
    let _ ← Pass.unify t (.fn .int .int) loc
    return ({ params := [slot] }, .single x 0, b)
  | e => do
    let t ← Pass.orFault e.getTy
    let _ ← Pass.unify t .int e.loc
    return ({}, ∅, e)

/-- Lower a program to a module with one function. -/
def lower (slot : SlotType) (name : String) (exported : Bool) (e : Expr) : Pass Code.Module := do
  let (layout, scope, body) ← e.entry slot
  let (node, layout) ← body.lowerIn slot layout scope
  Pass.note (.lowered name layout.params.length layout.locals.length)
  return { name, functions := [
    { name, params := layout.params, returnType := slot, locals := layout.locals,
      body := .block [node] "", exported }] }

end Expr
end LetLower
