/-!
# A place in a document

What is left of a document and where that stands. Four characters break lines; of these, two stay
what they are when a broken line is folded, and the others become a newline.
-/

namespace LetLower.Data.Yaml

def isBreak (c : Char) : Bool := c = '\n' || c = '\u0085' || c = '\u2028' || c = '\u2029'

def isBlank (c : Char) : Bool := c = ' ' || c = '\t'

def isGap (c : Char) : Bool := isBlank c || isBreak c

def atGap : List Char → Bool
  | [] => true
  | c :: _ => isGap c

def atBreak : List Char → Bool
  | [] => true
  | c :: _ => isBreak c

def breakChar (c : Char) : Char := if c = '\u0085' then '\n' else c

/-- The mark that may stand at the beginning of a text and has no width. -/
def byteOrderMark : Char := '\ufeff'

structure Cursor where
  rest : List Char
  index : Nat := 0
  line : Nat := 0
  column : Nat := 0

namespace Cursor

def next (c : Cursor) : Cursor :=
  match c.rest with
  | [] => c
  | x :: xs =>
    if isBreak x then { rest := xs, index := c.index + 1, line := c.line + 1, column := 0 }
    else
      { c with
        rest := xs
        index := c.index + 1
        column := if x = byteOrderMark then c.column else c.column + 1 }

def skip (c : Cursor) : Nat → Cursor
  | 0 => c
  | n + 1 => c.next.skip n

def skipWhile (p : Char → Bool) (c : Cursor) : Cursor := c.skip (c.rest.takeWhile p).length

def skipSpaces (c : Cursor) : Cursor := c.skipWhile (· = ' ')

def skipLine (c : Cursor) : Cursor := c.skipWhile fun x => !isBreak x

def atMarker (mark : Char) (c : Cursor) : Bool :=
  c.column = 0 && [mark, mark, mark].isPrefixOf c.rest && atGap (c.rest.drop 3)

def atDivider (c : Cursor) : Bool := c.atMarker '-' || c.atMarker '.'

/-- At the beginning of a line, skip lines that hold nothing but what `isMargin` accepts, and the
margin of the line after them, but no divider. The breaks are returned in order. -/
def emptyLines (isMargin : Char → Bool) : Nat → Cursor → List Char × Cursor
  | 0, c => ([], c)
  | fuel + 1, c =>
    if c.atDivider then ([], c)
    else
      let c := c.skipWhile isMargin
      match c.rest with
      | [] => ([], c)
      | x :: _ =>
        if isBreak x then
          let (breaks, c) := emptyLines isMargin fuel c.next
          (breakChar x :: breaks, c)
        else ([], c)

end Cursor

/-- What the break of a line and those of the empty lines after it become: a single newline is a
space. -/
def folded (first : Char) (more : List Char) : List Char :=
  if first ≠ '\n' then first :: more
  else if more.isEmpty then [' ']
  else more

end LetLower.Data.Yaml
