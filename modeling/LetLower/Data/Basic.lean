import LetLower.Decimal.Shortest
import LetLower.Text.Integer
import LetLower.Text.Quoted

/-!
# Data

What a configuration file holds and a diagnostic carries along: nothing, truth values, integers,
double-precision numbers, dates and moments, texts, lists, and objects, whose fields have an order.
The name of a field is a text in most objects, but may be any value that is not a list or an object.
-/

namespace LetLower

inductive Data where
  | null
  | bool (value : Bool)
  | int (value : Int)
  | float (value : Binary64)
  | date (value : Date)
  | moment (value : Moment)
  | text (value : String)
  /-- A text that is no string. -/
  | broken (symbols : List Text.Symbol)
  | list (items : List Data)
  | object (fields : List (Data × Data))
deriving BEq, Repr, Inhabited

namespace Data

def ofSymbols (ss : List Text.Symbol) : Data :=
  match Text.Symbol.string? ss with
  | some s => text s
  | none => broken ss

def record (fields : List (String × Data)) : Data := object (fields.map fun f => (text f.1, f.2))

def field? (x : String) : Data → Option Data
  | object fields => fields.findSome? fun f =>
    match f.1 with
    | text y => if x = y then some f.2 else none
    | _ => none
  | _ => none

/-- What counts as true: all but null, false, zero and what is empty. -/
def isTruthy : Data → Bool
  | null => false
  | bool b => b
  | int n => n ≠ 0
  | float x => !x.isZero
  | date _ | moment _ => true
  | text s => !s.isEmpty
  | broken ss => !ss.isEmpty
  | list items => !items.isEmpty
  | object fields => !fields.isEmpty

/-- A value that is finite and a number, as a numerator and the exponent of a power of two below. A
truth value is one or zero. -/
def ratio? : Data → Option (Int × Nat)
  | bool b => some (if b then 1 else 0, 0)
  | int n => some (n, 0)
  | float x => x.ratio?
  | _ => none

/-- Two values name the same field. Numbers do that by what they are worth. -/
def sameName (a b : Data) : Bool :=
  match ratio? a, ratio? b with
  | some (m, j), some (n, k) => m * Nat.pow 2 k = n * Nat.pow 2 j
  | none, none =>
    match a, b with
    | moment m, moment n => m.sameAs n
    | _, _ => a == b
  | _, _ => false

/-- Bind a field, in its place and under its old name if it is there already, and last otherwise. -/
def setField (fields : List (Data × Data)) (x d : Data) : List (Data × Data) :=
  if fields.any (·.1.sameName x) then
    fields.map fun f => if f.1.sameName x then (f.1, d) else f
  else fields ++ [(x, d)]

/-- Numbers are shown positionally from `0.0001` up to but not `10 ^ 16`. -/
def displayFormat : Decimal.Format :=
  { low := -4, high := 16, exponentMark := "e", nan := "nan", infinity := "inf" }

mutual

def display : Data → String
  | null => "None"
  | bool b => if b then "True" else "False"
  | int n => toString n
  | float x => displayFormat.write x
  | date d => d.display
  | moment m => m.display
  | text s => Text.display s
  | broken ss => Text.displaySymbols ss
  | list items => "[" ++ ", ".intercalate (displayItems items) ++ "]"
  | object fields => "\x7b" ++ ", ".intercalate (displayFields fields) ++ "\x7d"

def displayItems : List Data → List String
  | [] => []
  | d :: ds => display d :: displayItems ds

def displayFields : List (Data × Data) → List String
  | [] => []
  | (x, d) :: fs => (display x ++ ": " ++ display d) :: displayFields fs

end

mutual

def isWritable : Data → Bool
  | int n => Text.isWritable n
  | list items => areWritable items
  | object fields => fieldsAreWritable fields
  | null | bool _ | float _ | date _ | moment _ | text _ | broken _ => true

def areWritable : List Data → Bool
  | [] => true
  | d :: ds => isWritable d && areWritable ds

def fieldsAreWritable : List (Data × Data) → Bool
  | [] => true
  | (x, d) :: fs => isWritable x && isWritable d && fieldsAreWritable fs

end

def display? (d : Data) : Except Fault String :=
  if d.isWritable then .ok d.display else .error (.tooManyDigits none)

/-- The form in which a value becomes a text: a text, a date or a moment as it is, anything else as
shown. -/
def toText : Data → String
  | text s => s
  | broken ss => Text.Symbol.toString ss
  | date d => d.text
  | moment m => m.text
  | d => d.display

def toText? (d : Data) : Except Fault String :=
  if d.isWritable then .ok d.toText else .error (.tooManyDigits none)

inductive ReadError where
  | malformed
  | fault (f : Fault)
deriving DecidableEq, Repr

abbrev Reading (α : Type) := Except ReadError α

def refuse {α : Type} : Reading α := .error .malformed

end Data
end LetLower
