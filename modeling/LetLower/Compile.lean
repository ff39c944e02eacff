import LetLower.Config.Basic
import LetLower.Infer
import LetLower.Inline
import LetLower.Code.Lower
import LetLower.Llvm.Text
import LetLower.Llvm.Run

/-!
# Compilation

A program is inferred, inlined, and inferred again without its types, because inlining copies a
polymorphic body to each use and every copy has types of its own. What comes out is lowered to a
module. The depth of inlining is a parameter: a program that has a type needs only a finite one.
-/

namespace LetLower

structure Options where
  config : Config := {}
  /-- The types of the free names; without it, those of the configured predefined functions. -/
  env : Option TyEnv := none
  depth : Nat

namespace Options

def environment (o : Options) : Pass TyEnv :=
  match o.env with
  | some env => return env
  | none => Pass.orFault o.config.environment

/-- Infer, inline, and infer again. -/
def flatten (o : Options) (e : Expr) : Pass Expr := do
  Pass.orFailure o.config.validate
  let env ← o.environment
  let typed ← e.inferTypes env
  let t ← Pass.orFault typed.getTy
  Pass.note (.typed (← Pass.orFault t.render?))
  Pass.note (.annotated typed)
  let flat ← Expr.inlineIn o.depth typed ∅
  Pass.note (.flattened flat)
  flat.strip.inferTypes env

def notingFailure {α : Type} (x : Pass α) : Pass α := fun s =>
  match x s with
  | .error (.diagnostic d) t => (do Pass.note (.failed d.text); Pass.report d) t
  | r => r

def compile (o : Options) (e : Expr) : Pass Code.Module := do
  let m ← notingFailure do
    let flat ← o.flatten e
    flat.lower o.config.slotType o.config.entryName o.config.exportEntry
  Pass.note (.generated m.functions.length)
  return m

def emit (o : Options) (e : Expr) (triple : String) : Pass (Except Llvm.EmitError String) := do
  let m ← o.compile e
  return (Llvm.emit m).map (·.text triple)

/-- Compile a program and run it on arguments. -/
def run (o : Options) (e : Expr) (args : List Int) : Pass (Except Llvm.RunError Int) := do
  let m ← o.compile e
  return Llvm.run m args

/-- Run a program on one list of arguments after the other, compiling it anew for each, up to the
first error. -/
def runAll (o : Options) (e : Expr) : List (List Int) → Pass (Except Llvm.RunError (List Int))
  | [] => return .ok []
  | args :: rest => do
    match ← o.run e args with
    | .error err => return .error err
    | .ok n => return (← o.runAll e rest).map (n :: ·)

end Options
end LetLower
