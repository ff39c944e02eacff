import LetLower.Llvm.Emit

/-!
# The text of a program

A header, then the functions with an empty line before each. Registers and functions have quoted
names; a backslash or a quote in one is written as its code. The name in the header is written as
it is.
-/

namespace LetLower.Llvm

def Base.text : Base → String
  | argument i => s!"arg.{i}"
  | slot i => s!"slot.{i}"
  | loaded index => s!"get.{index}"
  | sum => "add"

def Register.text (r : Register) : String :=
  if r.copy = 0 then r.base.text else r.base.text ++ "." ++ toString r.copy

def escapeName (s : String) : String :=
  String.ofList <| s.toList.flatMap fun c =>
    if c = '\\' then "\\5c".toList else if c = '"' then "\\22".toList else [c]

def quoted (s : String) : String := "\"" ++ escapeName s ++ "\""

def Register.reference (r : Register) : String := "%" ++ quoted r.text

/-- Constants are idealised: they are written at any length, and the limit of `Text.integerText` is
not applied. -/
def Operand.text : Operand → String
  | const n => toString n
  | register r => r.reference

def Value.text (v : Value) : String := v.type.text ++ " " ++ v.operand.text

def Instr.text : Instr → String
  | alloca r t => s!"{r.reference} = alloca {t.text}"
  | store v slot => s!"store {v.text}, {v.type.text}* {slot.reference}"
  | load r t slot => s!"{r.reference} = load {t.text}, {t.text}* {slot.reference}"
  | add target t l r => s!"{target.reference} = add {t.text} {l.text}, {r.text}"
  | ret v => s!"ret {v.text}"

def Routine.text (f : Routine) : String :=
  let params := f.params.mapIdx fun i t => (⟨t, .register ⟨.argument i, 0⟩⟩ : Value).text
  "define " ++ (if f.exported then "" else "internal ") ++ f.returnType.text ++ " @"
    ++ quoted f.name ++ "(" ++ ", ".intercalate params ++ ")\n\x7b\nentry:\n"
    ++ String.join (f.body.map fun i => "  " ++ i.text ++ "\n") ++ "\x7d\n"

def Program.text (p : Program) (triple : String) : String :=
  "; ModuleID = \"" ++ p.name ++ "\"\ntarget triple = \"" ++ triple
    ++ "\"\ntarget datalayout = \"\"\n"
    ++ String.join (p.routines.map fun f => "\n" ++ f.text)

end LetLower.Llvm
