import LetLower.Text.Quoted

/-!
# Symbols

What the name of a function has to be so that it can be looked up and run: plain ASCII, none of the
names that begin with `llvm.`, which are those of the machine's own functions, and none that begins
with `.L`, which an assembler keeps to itself. A name that breaks the first rule is told by the
first stretch of it that is not ASCII.
-/

namespace LetLower.Llvm.Symbol

def isAscii (c : Char) : Bool := c.toNat < 0x80

def foreign (name : String) : Nat × List Char :=
  let (before, rest) := name.toList.span isAscii
  (before.length, rest.takeWhile fun c => !isAscii c)

def isPlain (name : String) : Bool := name.toList.all isAscii

def describeForeign (name : String) : String :=
  let (start, stretch) := foreign name
  let place := match stretch with
    | [c] => "character '" ++ String.ofList (Text.codeEscape c) ++ s!"' in position {start}"
    | _ => s!"characters in position {start}-{start + stretch.length - 1}"
  "'ascii' codec can't encode " ++ place ++ ": ordinal not in range(128)"

def isReserved (name : String) : Bool := "llvm.".toList.isPrefixOf name.toList

def isLocal (name : String) : Bool := ".L".toList.isPrefixOf name.toList

/-- A character that stands in a name without quotes; none begins with a digit. -/
def isBare (c : Char) : Bool :=
  isAscii c && c.isAlphanum || c = '-' || c = '.' || c = '_'

def quotedByte (b : UInt8) : List Char :=
  let c := Char.ofNat b.toNat
  if c = '\\' then ['\\', '\\']
  else if ' ' ≤ c ∧ c ≤ '~' ∧ c ≠ '"' then [c]
  else '\\' :: (Text.hex 2 b.toNat).map Char.toUpper

def display (name : String) : String :=
  let cs := name.toList
  if cs.all isBare && !(cs.head?.map Char.isDigit).getD false then name
  else
    String.ofList ('"' :: (cs.flatMap String.utf8EncodeChar).flatMap quotedByte ++ ['"'])

def describeReserved (names : List String) : String :=
  String.join (names.map fun n => "llvm intrinsics cannot be defined!\nptr @" ++ display n ++ "\n")

end LetLower.Llvm.Symbol
