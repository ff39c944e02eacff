import LetLower.Fault
import LetLower.Text.Class

/-!
# Integers in text

A sign, then decimal digits of any script, with single low lines between digits and blanks around
it all. The information separators are blanks elsewhere, but not around a number. Numbers in
configurations and documents are held to a limit of digits when they are read and written. The
texts of trees, fresh names and operands of instructions idealise here: they hold integers of any
length.
-/

namespace LetLower.Text

def isMargin (c : Char) : Bool := isBlank c && !('\x1c' ≤ c && c ≤ '\x1f')

/-- The digits of a number; a low line has a digit on either side. -/
def digits? : List Char → Option (List Nat)
  | [] => none
  | [c] => (digitValue? c).map ([·])
  | c :: '_' :: cs =>
    match digitValue? c, digits? cs with
    | some d, some ds => some (d :: ds)
    | _, _ => none
  | c :: cs =>
    match digitValue? c, digits? cs with
    | some d, some ds => some (d :: ds)
    | _, _ => none

def integer? (s : String) : Option Int :=
  let body := ((s.toList.dropWhile isMargin).reverse.dropWhile isMargin).reverse
  let (negative, body) := match body with
    | '-' :: cs => (true, cs)
    | '+' :: cs => (false, cs)
    | cs => (false, cs)
  match digits? body with
  | none => none
  | some ds =>
    if maxDigits < ds.length then none
    else
      let n : Nat := ds.foldl (fun n d => n * 10 + d) 0
      some (if negative then -(n : Int) else n)

def isWritable (n : Int) : Bool := n.natAbs < Nat.pow 10 maxDigits

def integerText (n : Int) : Except Fault String :=
  if isWritable n then .ok (toString n) else .error (.tooManyDigits none)

end LetLower.Text
