import LetLower.Data.Basic

/-!
# Reading JSON

The grammar of JSON with three more numbers: `NaN`, `Infinity` and `-Infinity`. An integer has
neither fraction nor exponent, and at most `maxDigits` digits. Of a field that stands twice the last
value counts. Control characters inside a text have to be escaped. Each step returns what is left
to read.
-/

namespace LetLower.Data.Json

def isSpace (c : Char) : Bool := c = ' ' || c = '\t' || c = '\n' || c = '\r'

def skip (cs : List Char) : List Char := cs.dropWhile isSpace

def word (w : List Char) (d : Data) (cs : List Char) : Reading (Data × List Char) :=
  if w.isPrefixOf cs then .ok (d, cs.drop w.length) else refuse

def natOf (base : Nat) (digits : List Nat) : Nat := digits.foldl (fun n d => n * base + d) 0

def hexValue? (c : Char) : Option Nat :=
  if '0' ≤ c ∧ c ≤ '9' then some (c.toNat - '0'.toNat)
  else if 'a' ≤ c ∧ c ≤ 'f' then some (c.toNat - 'a'.toNat + 10)
  else if 'A' ≤ c ∧ c ≤ 'F' then some (c.toNat - 'A'.toNat + 10)
  else none

def unit? : List Char → Option (Nat × List Char)
  | a :: b :: c :: d :: cs =>
    ([a, b, c, d].mapM hexValue?).map fun digits => (natOf 16 digits, cs)
  | _ => none

/-- The symbol of an escape `\u`. Two units that belong together make one character. -/
def unicodeEscape? (cs : List Char) : Option (Text.Symbol × List Char) :=
  (unit? cs).map fun (u, cs) =>
    let single := (Text.Symbol.ofCode u, cs)
    match cs with
    | '\\' :: 'u' :: more =>
      match unit? more with
      | some (v, rest) =>
        if 0xd800 ≤ u && u < 0xdc00 && 0xdc00 ≤ v && v < 0xe000 then
          (.ofCode (0x10000 + (u - 0xd800) * 0x400 + (v - 0xdc00)), rest)
        else single
      | none => single
    | _ => single

def escapes : List (Char × Char) :=
  [('"', '"'), ('\\', '\\'), ('/', '/'), ('b', '\x08'), ('f', '\x0c'), ('n', '\n'), ('r', '\r'),
    ('t', '\t')]

def escape? : List Char → Option (Text.Symbol × List Char)
  | 'u' :: cs => unicodeEscape? cs
  | c :: cs => (escapes.lookup c).map fun e => (.char e, cs)
  | [] => none

/-- The rest of a text after its opening quote; `acc` holds what was read, last first. -/
def textBody : Nat → List Text.Symbol → List Char → Reading (Data × List Char)
  | 0, _, _ => refuse
  | _, _, [] => refuse
  | fuel + 1, acc, c :: cs =>
    if c = '"' then .ok (ofSymbols acc.reverse, cs)
    else if c = '\\' then
      match escape? cs with
      | some (e, rest) => textBody fuel (e :: acc) rest
      | none => refuse
    else if c < ' ' then refuse
    else textBody fuel (.char c :: acc) cs

def isDigit (c : Char) : Bool := '0' ≤ c && c ≤ '9'

def decimal (cs : List Char) : Nat := natOf 10 (cs.map fun c => c.toNat - '0'.toNat)

def fraction : List Char → List Char × List Char
  | '.' :: cs => if (cs.takeWhile isDigit).isEmpty then ([], '.' :: cs) else cs.span isDigit
  | cs => ([], cs)

def exponent : List Char → Option Int × List Char
  | c :: cs =>
    if c = 'e' ∨ c = 'E' then
      let (negative, rest) := match cs with
        | '-' :: more => (true, more)
        | '+' :: more => (false, more)
        | more => (false, more)
      let (digits, rest) := rest.span isDigit
      if digits.isEmpty then (none, c :: cs)
      else (some (if negative then -(decimal digits : Int) else decimal digits), rest)
    else (none, c :: cs)
  | [] => (none, [])

def unsigned (negative : Bool) (cs : List Char) : Reading (Data × List Char) :=
  let (whole, rest) := match cs with
    | '0' :: more => (['0'], more)
    | more => more.span isDigit
  if whole.isEmpty then refuse
  else
    let (digits, rest) := fraction rest
    let (power, rest) := exponent rest
    let n := decimal (whole ++ digits)
    if digits.isEmpty ∧ power.isNone then
      if maxDigits < whole.length then .error (.fault (.tooManyDigits whole.length))
      else .ok (int (if negative then -(n : Int) else n), rest)
    else .ok (float (.ofDecimal negative n (power.getD 0 - digits.length)), rest)

def number (cs : List Char) : Reading (Data × List Char) :=
  match cs with
  | '-' :: 'I' :: _ => word "-Infinity".toList (float (.infinite true)) cs
  | '-' :: more => unsigned true more
  | more => unsigned false more

mutual

def value : Nat → List Char → Reading (Data × List Char)
  | 0, _ => refuse
  | fuel + 1, cs =>
    match cs with
    | [] => refuse
    | '"' :: more => textBody (more.length + 1) [] more
    | '[' :: more =>
      match skip more with
      | ']' :: rest => .ok (list [], rest)
      | rest => do
        let (ds, rest) ← items fuel rest
        return (list ds, rest)
    | '\x7b' :: more =>
      match skip more with
      | '\x7d' :: rest => .ok (object [], rest)
      | rest => do
        let (fs, rest) ← fields fuel [] rest
        return (object fs, rest)
    | 'n' :: _ => word "null".toList null cs
    | 't' :: _ => word "true".toList (bool true) cs
    | 'f' :: _ => word "false".toList (bool false) cs
    | 'N' :: _ => word "NaN".toList (float .nan) cs
    | 'I' :: _ => word "Infinity".toList (float (.infinite false)) cs
    | _ => number cs

def items : Nat → List Char → Reading (List Data × List Char)
  | 0, _ => refuse
  | fuel + 1, cs => do
    let (d, rest) ← value fuel cs
    match skip rest with
    | ']' :: rest => return ([d], rest)
    | ',' :: rest =>
      let (ds, rest) ← items fuel (skip rest)
      return (d :: ds, rest)
    | _ => refuse

def fields : Nat → List (Data × Data) → List Char → Reading (List (Data × Data) × List Char)
  | 0, _, _ => refuse
  | fuel + 1, acc, cs =>
    match cs with
    | '"' :: more => do
      let (x, rest) ← textBody (more.length + 1) [] more
      match skip rest with
      | ':' :: rest =>
        let (d, rest) ← value fuel (skip rest)
        match skip rest with
        | '\x7d' :: rest => return (setField acc x d, rest)
        | ',' :: rest => fields fuel (setField acc x d) (skip rest)
        | _ => refuse
      | _ => refuse
    | _ => refuse

end

/-- Read a whole text. Each level of a value takes at least one character, so its length bounds
the depth. -/
def read (s : String) : Reading Data := do
  let cs := s.toList
  let (d, rest) ← value (2 * cs.length + 2) (skip cs)
  if (skip rest).isEmpty then return d else refuse

end LetLower.Data.Json
