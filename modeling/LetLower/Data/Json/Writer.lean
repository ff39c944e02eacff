import LetLower.Data.Basic
import LetLower.Text.Padding

/-!
# Writing data as JSON

Indented, each item on a line of its own, or compact in one line. An empty list or object is
closed at once. What is not printable ASCII is escaped. Dates, moments and names of fields are
written as texts.
-/

namespace LetLower.Data

def jsonName : Data → String
  | broken ss => Text.jsonSymbols ss
  | d => Text.json d.toText

def jsonFormat : Decimal.Format :=
  { displayFormat with nan := "NaN", infinity := "Infinity" }

def jsonScalar : Data → String
  | null => "null"
  | bool b => if b then "true" else "false"
  | int n => toString n
  | float x => jsonFormat.write x
  | text s => Text.json s
  | broken ss => Text.jsonSymbols ss
  | date d => Text.json d.text
  | moment m => Text.json m.text
  | list _ | object _ => ""

def newline (width depth : Nat) : String :=
  String.ofList ('\n' :: List.replicate (width * depth) ' ')

/-- Put items between brackets, each on its line, one level deeper than the brackets. -/
def enclose (left right : String) (width depth : Nat) (items : List String) : String :=
  if items.isEmpty then left ++ right
  else left ++ newline width (depth + 1) ++ ("," ++ newline width (depth + 1)).intercalate items
    ++ newline width depth ++ right

mutual

def writeIndented (width depth : Nat) : Data → String
  | list items => enclose "[" "]" width depth (writeItems width (depth + 1) items)
  | object fields => enclose "\x7b" "\x7d" width depth (writeFields width (depth + 1) fields)
  | d => jsonScalar d

def writeItems (width depth : Nat) : List Data → List String
  | [] => []
  | d :: ds => writeIndented width depth d :: writeItems width depth ds

def writeFields (width depth : Nat) : List (Data × Data) → List String
  | [] => []
  | (x, d) :: fs =>
    (jsonName x ++ ": " ++ writeIndented width depth d) :: writeFields width depth fs

end

/-- Each level is indented by so many blanks; with none there are still line breaks. -/
def toJson (d : Data) (indent : Int := 2) : String := writeIndented indent.toNat 0 d

def toJson? (d : Data) (indent : Int := 2) : Except Fault String := do
  Text.checkPadding 1 indent
  return d.toJson indent

mutual

def compact : Data → String
  | list items => "[" ++ ",".intercalate (compactItems items) ++ "]"
  | object fields => "\x7b" ++ ",".intercalate (compactFields fields) ++ "\x7d"
  | d => jsonScalar d

def compactItems : List Data → List String
  | [] => []
  | d :: ds => compact d :: compactItems ds

def compactFields : List (Data × Data) → List String
  | [] => []
  | (x, d) :: fs => (jsonName x ++ ":" ++ compact d) :: compactFields fs

end

end LetLower.Data
