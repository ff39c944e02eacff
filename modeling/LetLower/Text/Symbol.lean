/-!
# Symbols

What a text written with escapes is made of. An escape names a code, and a code is that of a
character or that of half a pair of units of sixteen bits. A half that stands alone is no character,
so a text that has one is no string.
-/

namespace LetLower.Text

inductive Symbol where
  | char (c : Char)
  | half (unit : Nat)
deriving DecidableEq, Repr

namespace Symbol

def ofCode (code : Nat) : Symbol :=
  if 0xd800 ≤ code ∧ code < 0xe000 then half code else char (Char.ofNat code)

def char? : Symbol → Option Char
  | char c => some c
  | half _ => none

/-- The character that stands for a symbol in a string: for a half, the replacement character. -/
def toChar : Symbol → Char
  | char c => c
  | half _ => '\ufffd'

def ofString (s : String) : List Symbol := s.toList.map char

/-- The string that symbols make up, unless there is a half among them. -/
def string? (ss : List Symbol) : Option String := (ss.mapM char?).map String.ofList

def toString (ss : List Symbol) : String := String.ofList (ss.map toChar)

end Symbol
end LetLower.Text
