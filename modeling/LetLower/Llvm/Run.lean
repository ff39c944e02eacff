import LetLower.Llvm.Emit
import LetLower.Llvm.Symbol

/-!
# Running instructions

Registers and slots hold integers; each is kept within the width of its type. A program is refused
as a whole, before anything runs, when a function returns a value of another type than it declares,
when a name cannot be read back, or when a function has a reserved name. The function that runs has
a plain name that is not local, and at most `maxParameters` parameters.
-/

namespace LetLower.Llvm

inductive RunError where
  | noSuchFunction (name : String)
  | nothingExported
  | wrongArity (name : String) (expected given : Nat)
  | emit (e : EmitError)
  | unreadable
  | reservedNames (names : List String)
  | foreignName (name : String)
  | tooManyParameters (count : Nat)
  | undefined
deriving DecidableEq, Repr

/-- The greatest number of parameters of a function that runs. -/
def maxParameters : Nat := 1024

def RunError.message : RunError → String
  | noSuchFunction name => name
  | nothingExported => "list index out of range"
  | wrongArity name expected given =>
    s!"{name}() takes {expected} argument(s), got {given}"
  | emit e => e.message
  | unreadable => "LLVM IR parsing error"
  | reservedNames names => Symbol.describeReserved names
  | foreignName name => Symbol.describeForeign name
  | tooManyParameters count =>
    s!"_argtypes_ has too many arguments ({count}), maximum is {maxParameters}"
  | undefined => "undefined value"

structure Memory where
  registers : List (Register × Int) := []
  slots : List (Register × Int) := []

namespace Memory

def operand? (m : Memory) (t : SlotType) : Operand → Option Int
  | .const n => some (t.wrap n)
  | .register r => m.registers.lookup r

def setRegister (m : Memory) (r : Register) (n : Int) : Memory :=
  { m with registers := (r, n) :: m.registers }

def setSlot (m : Memory) (r : Register) (n : Int) : Memory :=
  { m with slots := (r, n) :: m.slots }

end Memory

def exec : List Instr → Memory → Option Int
  | [], _ => none
  | .alloca .. :: is, m => exec is m
  | .store v slot :: is, m => do
    let n ← m.operand? v.type v.operand
    exec is (m.setSlot slot n)
  | .load r _ slot :: is, m => do
    let n ← m.slots.lookup slot
    exec is (m.setRegister r n)
  | .add r t left right :: is, m => do
    let x ← m.operand? t left
    let y ← m.operand? t right
    exec is (m.setRegister r (t.wrap (x + y)))
  | .ret v :: _, m => m.operand? v.type v.operand

/-- The registers of the arguments, each within the width of its parameter. -/
def Memory.ofArguments (params : List SlotType) (args : List Int) : Memory :=
  { registers := (params.zip args).mapIdx fun i p => (⟨.argument i, 0⟩, p.1.wrap p.2) }

def Routine.run (f : Routine) (args : List Int) : Option Int :=
  exec f.body (.ofArguments f.params args)

def Routine.returnsDeclared (f : Routine) : Bool :=
  f.body.all fun
    | .ret v => v.type = f.returnType
    | _ => true

def isBreak (c : Char) : Bool := c = '\n' || c = '\r'

/-- From inside or outside of a comment, the text ends inside one, and outside of comments it is
blank. -/
def endsInComment : Bool → List Char → Bool
  | inside, [] => inside
  | true, c :: cs => endsInComment (!isBreak c) cs
  | false, c :: cs =>
    if c = ';' then endsInComment true cs
    else (isBreak c || c = ' ' || c = '\t') && endsInComment false cs

/-- The text of a program ends at a null character, and no function ends inside its name. -/
def Routine.isReadable (f : Routine) : Bool :=
  f.returnsDeclared && !f.name.toList.contains '\x00'

/-- The header holds the name of the program in a comment, which the name must not leave. -/
def Program.isReadable (p : Program) : Bool :=
  endsInComment true p.name.toList && p.routines.all Routine.isReadable

def Program.reservedNames (p : Program) : List String :=
  (p.routines.map (·.name)).filter Symbol.isReserved

/-- The function to run: the named one, or without a name the first that is exported. -/
def choose (m : Code.Module) (name : Option String) : Except RunError Code.Function :=
  match name.filter (· ≠ "") with
  | some n =>
    match m.find? n with
    | some f => .ok f
    | none => .error (.noSuchFunction n)
  | none =>
    match m.exports.head? with
    | some f => .ok f
    | none => .error .nothingExported

/-- Run a function of a module. The whole module is emitted first. -/
def run (m : Code.Module) (args : List Int) (name : Option String := none) :
    Except RunError Int := do
  let f ← choose m name
  if args.length ≠ f.params.length then
    .error (.wrongArity f.name f.params.length args.length)
  else
    match emit m with
    | .error e => .error (.emit e)
    | .ok p =>
      if !p.isReadable then .error .unreadable
      else if !p.reservedNames.isEmpty then .error (.reservedNames p.reservedNames)
      else if !Symbol.isPlain f.name then .error (.foreignName f.name)
      else if maxParameters < f.params.length then .error (.tooManyParameters f.params.length)
      else if Symbol.isLocal f.name then .error (.noSuchFunction f.name)
      else
        match p.routines.find? (·.name = f.name) with
        | none => .error (.noSuchFunction f.name)
        | some r =>
          match r.run args with
          | some n => .ok n
          | none => .error .undefined

end LetLower.Llvm
