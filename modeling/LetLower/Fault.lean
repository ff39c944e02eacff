import LetLower.Calendar
import LetLower.FileTree

/-!
# Faults

What goes wrong when an operation is given something outside its domain. A program with a
mistake in it is no fault: that is a `Diagnostic`.
-/

namespace LetLower

inductive Fault where
  | unknownType
  | unknownNode
  | notAnnotated
  /-- The type of a node of this kind was asked for, and it has none. -/
  | untypedNode (kind : String)
  | schemeInUnification (actual expected : String)
  | noTypes
  | unknownBuiltin (name : String)
  | unknownOperator (symbol : String)
  | unknownSlotType (text : String)
  | unknownDiagnosticKind (text : String)
  | unknownLogLevel (quoted : String)
  | emptyReport
  | infiniteInteger
  | hugeInteger
  | noDigits (base : Nat)
  /-- An integer is not read or written with more than so many digits; how many it has is told
  where it is read. -/
  | tooManyDigits (count : Option Nat)
  | notCharacter (code : Nat)
  /-- A count or an index that is no word of 64 bits. -/
  | hugeCount
  | longPadding
  | noRoom
  | calendar (e : CalendarError)
  | unreadableFile (path : String) (e : PathError)
  | tooDeep
deriving DecidableEq, Repr

def maxDigits : Nat := 4300

def Fault.message : Fault → String
  | unknownType => "Not a type:"
  | unknownNode => "Unknown expression node:"
  | notAnnotated => "Not an annotated expression:"
  | untypedNode kind => s!"'{kind}' object has no attribute 'type'"
  | schemeInUnification actual expected =>
    s!"Type schemes must be instantiated before unification: {actual} ~ {expected}"
  | noTypes => "tuple index out of range"
  | unknownBuiltin name => s!"Unknown built-in '{name}'"
  | unknownOperator symbol => s!"Unknown binary operator '{symbol}'"
  | unknownSlotType text => s!"'{text}' is not a valid IRType"
  | unknownDiagnosticKind text => s!"'{text}' is not a valid ErrorKind"
  | unknownLogLevel quoted => s!"Unknown level: {quoted}"
  | emptyReport => "list index out of range"
  | infiniteInteger => "cannot convert float infinity to integer"
  | hugeInteger => "int too large to convert to float"
  | noDigits base => s!"invalid literal for int() with base {base}: ''"
  | tooManyDigits count =>
    let found := (count.map fun n => s!": value has {n} digits").getD ""
    s!"Exceeds the limit ({maxDigits} digits) for integer string conversion{found}; "
      ++ "use sys.set_int_max_str_digits() to increase the limit"
  | notCharacter code =>
    if code < Nat.pow 2 31 then "chr() arg not in range(0x110000)"
    else "Python int too large to convert to C int"
  | hugeCount => "cannot fit 'int' into an index-sized integer"
  | longPadding => "repeated string is too long"
  | noRoom => ""
  | calendar e => e.message
  | unreadableFile path e => e.message path
  | tooDeep => "Inlining nests too deeply"

end LetLower
