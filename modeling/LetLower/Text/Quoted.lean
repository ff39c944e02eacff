import LetLower.Text.Printable
import LetLower.Text.Symbol

/-!
# Quoted text

Two ways to write a text between quotes. `display` prefers single quotes and takes double quotes
for a text that holds a single one and no double one; it escapes what is not printable.
`json` always takes double quotes and escapes all that is not printable ASCII, characters beyond
the first plane as two units of sixteen bits. Both escape a lone half of a pair as the unit it is.
-/

namespace LetLower.Text

def hexDigit (n : Nat) : Char := Nat.digitChar (n % 16)

def hex : Nat → Nat → List Char
  | 0, _ => []
  | width + 1, n => hex width (n / 16) ++ [hexDigit n]

def codeEscape (c : Char) : List Char :=
  if c.toNat < 0x100 then '\\' :: 'x' :: hex 2 c.toNat
  else if c.toNat < 0x10000 then '\\' :: 'u' :: hex 4 c.toNat
  else '\\' :: 'U' :: hex 8 c.toNat

def displayQuote (cs : List Char) : Char :=
  if cs.contains '\'' && !cs.contains '"' then '"' else '\''

def displayChar (quote c : Char) : List Char :=
  if c = quote ∨ c = '\\' then ['\\', c]
  else if c = '\n' then ['\\', 'n']
  else if c = '\r' then ['\\', 'r']
  else if c = '\t' then ['\\', 't']
  else if ' ' ≤ c ∧ c < '\x7f' then [c]
  else if isPrintable c then [c]
  else codeEscape c

def unitEscape (unit : Nat) : List Char := '\\' :: 'u' :: hex 4 unit

def displaySymbol (quote : Char) : Symbol → List Char
  | .char c => displayChar quote c
  | .half unit => unitEscape unit

def displaySymbols (ss : List Symbol) : String :=
  let quote := displayQuote (ss.filterMap Symbol.char?)
  String.ofList (quote :: ss.flatMap (displaySymbol quote) ++ [quote])

def display (s : String) : String := displaySymbols (Symbol.ofString s)

/-- The units of sixteen bits of a character. -/
def units (c : Char) : List Nat :=
  if c.toNat < 0x10000 then [c.toNat]
  else [0xd800 + (c.toNat - 0x10000) / 0x400, 0xdc00 + (c.toNat - 0x10000) % 0x400]

def jsonChar (c : Char) : List Char :=
  if c = '"' ∨ c = '\\' then ['\\', c]
  else if c = '\n' then ['\\', 'n']
  else if c = '\r' then ['\\', 'r']
  else if c = '\t' then ['\\', 't']
  else if c = '\x0c' then ['\\', 'f']
  else if c = '\x08' then ['\\', 'b']
  else if ' ' ≤ c ∧ c ≤ '~' then [c]
  else (units c).flatMap unitEscape

def jsonSymbol : Symbol → List Char
  | .char c => jsonChar c
  | .half unit => unitEscape unit

def jsonSymbols (ss : List Symbol) : String :=
  String.ofList ('"' :: ss.flatMap jsonSymbol ++ ['"'])

def json (s : String) : String := jsonSymbols (Symbol.ofString s)

end LetLower.Text
