import LetLower.Fault

/-!
# Padding

A row of blanks whose length is a width times a count, which is given from outside and may be any
integer. A count is a word of 64 bits with a sign, one below zero counts as zero, and a row that
has no room is refused before it is made.
-/

namespace LetLower.Text

/-- One more than the greatest word of 64 bits with a sign. -/
def wordBound : Nat := 0x8000000000000000

def isWord (n : Int) : Bool := -(wordBound : Int) ≤ n && n < wordBound

def paddingBound : Nat := 0x10000000000

/-- A row of `count` times `width` blanks can be made. -/
def checkPadding (width : Nat) (count : Int) : Except Fault Unit :=
  if !isWord count then .error .hugeCount
  else if wordBound ≤ width * count.toNat then .error .longPadding
  else if paddingBound ≤ width * count.toNat then .error .noRoom
  else .ok ()

end LetLower.Text
