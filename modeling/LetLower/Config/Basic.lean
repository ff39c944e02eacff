import LetLower.Pass
import LetLower.Code.Basic
import LetLower.Text.Integer
import LetLower.Text.Uppercase

/-!
# Configuration

What a project may choose: the name of the function that is generated and whether it is exported,
the width of its integers, the predefined functions, and how much is logged.
-/

namespace LetLower

structure Config where
  entryName : String := "main"
  intWidth : Int := 32
  exportEntry : Bool := true
  builtins : List String := ["add"]
  logLevel : String := "WARNING"
deriving DecidableEq, Repr

namespace Config

def slotType (c : Config) : SlotType := if c.intWidth = 64 then .i64 else .i32

def environment (c : Config) : Except Fault TyEnv := TyEnv.ofBuiltins c.builtins

def logLevels : List (String × Nat) :=
  [("CRITICAL", 50), ("FATAL", 50), ("ERROR", 40), ("WARN", 30), ("WARNING", 30), ("INFO", 20),
    ("DEBUG", 10), ("NOTSET", 0)]

/-- The level that the configuration sets, whatever the case of its name. -/
def logThreshold (c : Config) : Except Fault Nat :=
  let name := Text.upper c.logLevel
  match logLevels.lookup name with
  | some n => .ok n
  | none => .error (.unknownLogLevel (Text.display name))

/-- The failure that a width is which is neither of the two. A message has no room for one that is
too long to be written. -/
def widthFailure (width : Int) : Failure :=
  match Text.integerText width with
  | .ok digits => .configError "int_width" s!"expected 32 or 64, got {digits}"
  | .error f => .fault f

def validate (c : Config) : Except Failure Unit := do
  if c.intWidth ≠ 32 ∧ c.intWidth ≠ 64 then .error (widthFailure c.intWidth)
  match c.builtins.find? (· ∉ TyEnv.builtins) with
  | some x => .error (.configError "builtins" s!"unknown built-in '{x}'")
  | none => pure ()
  if c.entryName = "" then .error (.configError "entry_name" "must not be empty")
  if (logLevels.lookup (Text.upper c.logLevel)).isNone then
    .error (.configError "log_level" s!"unknown level '{c.logLevel}'")

end Config
end LetLower
