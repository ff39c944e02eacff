import LetLower.Data.Json.Writer
import LetLower.Expr.Source

/-!
# Diagnostics

What is wrong with a program or a configuration: the kind of mistake, a message, the place if it
is known, and the names and types involved, so that nobody has to look at the tree again. A type
is given by its text, so a diagnostic about an unknown type cannot be made.
-/

namespace LetLower

inductive DiagnosticKind where
  | undefinedVariable
  | typeMismatch
  | infiniteType
  | unsupportedConstruct
  | missingVariable
  | configError
deriving DecidableEq, Repr

namespace DiagnosticKind

def all : List DiagnosticKind :=
  [undefinedVariable, typeMismatch, infiniteType, unsupportedConstruct, missingVariable,
    configError]

def text : DiagnosticKind → String
  | undefinedVariable => "undefined_variable"
  | typeMismatch => "type_mismatch"
  | infiniteType => "infinite_type"
  | unsupportedConstruct => "unsupported_construct"
  | missingVariable => "missing_variable"
  | configError => "config_error"

def ofText? (s : String) : Except Fault DiagnosticKind :=
  match all.find? (·.text = s) with
  | some k => .ok k
  | none => .error (.unknownDiagnosticKind s)

end DiagnosticKind

structure Diagnostic where
  kind : DiagnosticKind
  message : String
  loc : Option Location := none
  details : List (String × Data) := []
deriving Repr

namespace Diagnostic

def undefinedVariable (x : String) (loc : Option Location) : Diagnostic :=
  { kind := .undefinedVariable, message := s!"Undefined variable '{x}'", loc,
    details := [("name", .text x)] }

def typeMismatch (expected actual : Ty) (loc : Option Location) : Except Fault Diagnostic := do
  let expected ← expected.render?
  let actual ← actual.render?
  return { kind := .typeMismatch, message := s!"Cannot unify '{actual}' with '{expected}'", loc,
           details := [("expected_type", .text expected), ("actual_type", .text actual)] }

def infiniteType (x : String) (t : Ty) (loc : Option Location) : Except Fault Diagnostic := do
  let type ← t.render?
  return { kind := .infiniteType, message := s!"Infinite type: '{x}' occurs in '{type}'", loc,
           details := [("variable", .text x), ("type", .text type)] }

def unsupportedConstruct (e : Expr) : Except Fault Diagnostic := do
  let source ← e.source?
  return { kind := .unsupportedConstruct,
           message := s!"Cannot generate IR for {e.reportedKind}: {source}", loc := e.loc,
           details := [("node", .text e.reportedKind), ("source", .text source)] }

def missingVariable (x : String) (loc : Option Location) : Diagnostic :=
  { kind := .missingVariable, message := s!"No local slot bound to '{x}'", loc,
    details := [("name", .text x)] }

def configError (key message : String) : Diagnostic :=
  { kind := .configError, message := s!"Invalid configuration value for '{key}': {message}",
    details := [("key", .text key)] }

def text (d : Diagnostic) : String :=
  let place := match d.loc with
    | some l => s!" at {l.render}"
    | none => ""
  s!"[{d.kind.text}]{place}: {d.message}"

def toData (d : Diagnostic) : Data :=
  .record <|
    [("kind", .text d.kind.text), ("message", .text d.message)]
      ++ (match d.loc with
        | some l => [("location", .record
            [("file", .text l.file), ("line", .int l.line), ("column", .int l.column)])]
        | none => [])
      ++ (if d.details.isEmpty then [] else [("details", .record d.details)])

def toJson? (d : Diagnostic) (indent : Int := 2) : Except Fault String := d.toData.toJson? indent

/-- The kind of a report is that of its first diagnostic. -/
def reportKind : List Diagnostic → Except Fault DiagnosticKind
  | d :: _ => .ok d.kind
  | [] => .error .emptyReport

def reportText (ds : List Diagnostic) : String := "\n".intercalate (ds.map text)

def reportJson? (ds : List Diagnostic) (indent : Int := 2) : Except Fault String :=
  (Data.list (ds.map toData)).toJson? indent

end Diagnostic
end LetLower
