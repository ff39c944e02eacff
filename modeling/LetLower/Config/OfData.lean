import LetLower.Config.Basic
import LetLower.Text.Integer

/-!
# Configurations from data

Each field is converted to what it has to be, as far as there is a conversion; fields of other
names are left alone.
-/

namespace LetLower.Config

def unsuitable (field problem : String) (d : Data) : Failure :=
  match d.display? with
  | .ok shown => .configError field s!"{problem} {shown}"
  | .error f => .fault f

/-- The integer that a value stands for: a truth value is one or zero, a fraction is cut off. -/
def integerOf (d : Data) : Except Failure Int :=
  let refused := unsuitable "int_width" "not an integer:" d
  match d with
  | .bool b => .ok (if b then 1 else 0)
  | .int n => .ok n
  | .float (.infinite _) => .error (.fault .infiniteInteger)
  | .float x =>
    match x.truncate? with
    | some n => .ok n
    | none => .error refused
  | .text s =>
    match Text.integer? s with
    | some n => .ok n
    | none => .error refused
  | .null | .date _ | .moment _ | .broken _ | .list _ | .object _ => .error refused

def textOf (d : Data) : Except Failure String := d.toText?.mapError .fault

def namesOf (d : Data) : Except Failure (List String) :=
  match d with
  | .list items => items.mapM textOf
  | _ => .error (unsuitable "builtins" "expected a list, got" d)

def convert {α : Type} (d : Data) (field : String) (default : α)
    (f : Data → Except Failure α) : Except Failure α :=
  match d.field? field with
  | some v => f v
  | none => .ok default

def ofData (d : Data) : Except Failure Config := do
  let base : Config := {}
  let entryName ← convert d "entry_name" base.entryName textOf
  let intWidth ← convert d "int_width" base.intWidth integerOf
  let exportEntry ← convert d "export_entry" base.exportEntry fun v => .ok v.isTruthy
  let builtins ← convert d "builtins" base.builtins namesOf
  let logLevel ← convert d "log_level" base.logLevel textOf
  return { entryName, intWidth, exportEntry, builtins, logLevel }

def ofData? (d : Data) : Except Failure Config := do
  let c ← ofData d
  c.validate
  return c

end LetLower.Config
