import LetLower.Data.Yaml.ScalarText

/-!
# The tokens of a document

Marks and scalars, and where lists and mappings begin and end that are told by indentation alone.
A key is known as one only at the colon after it, so a place is kept for its mark wherever a key may
begin: on one line, and not more than `keyLimit` characters before the colon.

Anchors, tags and directives are refused. A document that is not well formed has the tokens that
were settled before the fault, and the fault as its last one.
-/

namespace LetLower.Data.Yaml

inductive Token where
  | plain (text : String)
  | quoted (symbols : List Text.Symbol)
  | openList
  | closeList
  | openMap
  | closeMap
  | comma
  | dash
  | key
  | value
  | blockList
  | blockMap
  | blockEnd
  | documentStart
  | documentEnd
  | streamEnd
  | failed (e : ReadError)
deriving DecidableEq, Repr

/-- The greatest distance from the beginning of a key to its colon. -/
def keyLimit : Nat := 1024

/-- Where a key may have begun. One that stands at the indent of the lines around it is required. -/
structure PossibleKey where
  place : Nat
  isRequired : Bool
  start : Cursor

/-- A token, or the place for the mark of a key. -/
inductive Item where
  | token (t : Token)
  | place (n : Nat)

structure Lexer where
  cursor : Cursor
  found : List Item := []
  places : Nat := 0
  /-- The places where a key stands, and whether a mapping begins with it. -/
  keyed : List (Nat × Bool) := []
  columns : List Nat := []
  keysAllowed : Bool := true
  possible : Option PossibleKey := none
  /-- The possible keys between the brackets around them, innermost first. -/
  outer : List (Option PossibleKey) := []
  isDone : Bool := false

namespace Lexer

def inFlow (l : Lexer) : Bool := !l.outer.isEmpty

def indent (l : Lexer) : Int := (l.columns.head?.map Int.ofNat).getD (-1)

def push (t : Token) (l : Lexer) : Lexer := { l with found := .token t :: l.found }

def mark (t : Token) (width : Nat) (l : Lexer) : Lexer :=
  { l.push t with cursor := l.cursor.skip width }

def skipIdle : Nat → Lexer → Lexer
  | 0, l => l
  | fuel + 1, l =>
    let c := l.cursor.skipSpaces
    let c := if c.rest.head? = some '#' then c.skipLine else c
    match c.rest with
    | [] => { l with cursor := c }
    | x :: _ =>
      if isBreak x then
        skipIdle fuel { l with cursor := c.next, keysAllowed := l.keysAllowed || !l.inFlow }
      else { l with cursor := c }

def giveUp (k : Option PossibleKey) : Reading (Option PossibleKey) :=
  if k.any (·.isRequired) then refuse else .ok none

def expire (c : Cursor) (k : Option PossibleKey) : Reading (Option PossibleKey) :=
  if k.any fun k => k.start.line ≠ c.line || keyLimit < c.index - k.start.index then giveUp k
  else .ok k

def expireAll (l : Lexer) : Reading Lexer := do
  let possible ← expire l.cursor l.possible
  let outer ← l.outer.mapM (expire l.cursor)
  return { l with possible, outer }

def dropKey (l : Lexer) : Reading Lexer := return { l with possible := ← giveUp l.possible }

def saveKey (l : Lexer) : Reading Lexer := do
  if !l.keysAllowed then return l
  else
    let l ← l.dropKey
    return { l with
      possible := some ⟨l.places, !l.inFlow && l.indent = l.cursor.column, l.cursor⟩
      found := .place l.places :: l.found
      places := l.places + 1 }

def closeTo (column : Int) (l : Lexer) : Lexer :=
  if l.inFlow then l
  else
    let isInside := fun i : Nat => column < i
    { l with
      found := List.replicate (l.columns.takeWhile isInside).length (.token .blockEnd) ++ l.found
      columns := l.columns.dropWhile isInside }

def openAt (t : Token) (column : Nat) (l : Lexer) : Lexer :=
  if l.indent < column then { l.push t with columns := column :: l.columns } else l

def divider (t : Token) (l : Lexer) : Reading Lexer := do
  let l ← (l.closeTo (-1)).dropKey
  return { l.mark t 3 with keysAllowed := false }

def finish (l : Lexer) : Reading Lexer := do
  let l ← (l.closeTo (-1)).dropKey
  return { l.push .streamEnd with isDone := true }

def openBracket (t : Token) (l : Lexer) : Reading Lexer := do
  let l ← l.saveKey
  return { l.mark t 1 with keysAllowed := true, possible := none, outer := l.possible :: l.outer }

def closeBracket (t : Token) (l : Lexer) : Reading Lexer := do
  let l ← l.dropKey
  match l.outer with
  | [] => refuse
  | k :: outer => return { l.mark t 1 with keysAllowed := false, possible := k, outer }

def comma (l : Lexer) : Reading Lexer := do
  let l ← l.dropKey
  return { l.mark .comma 1 with keysAllowed := true }

def blockMark (t start : Token) (keysAllowed : Bool) (l : Lexer) : Reading Lexer := do
  if !l.inFlow && !l.keysAllowed then refuse
  else
    let l := if l.inFlow then l else l.openAt start l.cursor.column
    let l ← l.dropKey
    return { l.mark t 1 with keysAllowed }

/-- The colon before a value. If a key may have begun before it, one has. -/
def colon (l : Lexer) : Reading Lexer := do
  match l.possible with
  | some k =>
    let isFirst := !l.inFlow && l.indent < k.start.column
    return { l.mark .value 1 with
      keyed := (k.place, isFirst) :: l.keyed
      columns := if isFirst then k.start.column :: l.columns else l.columns
      keysAllowed := false
      possible := none }
  | none => l.blockMark .value .blockMap (!l.inFlow)

def plain (l : Lexer) : Reading Lexer := do
  let l ← l.saveKey
  let (s, line, cursor) := plainText l.inFlow (l.indent + 1) l.cursor
  return { l.push (.plain (String.ofList s)) with
    cursor, keysAllowed := line ≠ cursor.line }

def quoted (quote : Char) (l : Lexer) : Reading Lexer := do
  let l ← l.saveKey
  let (s, cursor) ← quotedText quote l.cursor
  return { l.push (.quoted s) with cursor, keysAllowed := false }

def block (isFolded : Bool) (l : Lexer) : Reading Lexer := do
  let l ← l.dropKey
  let (s, cursor) ← blockText isFolded l.indent l.cursor
  return { l.push (.quoted (s.map .char)) with cursor, keysAllowed := true }

def fetch (l : Lexer) : Reading Lexer := do
  let l := l.skipIdle (l.cursor.rest.length + 1)
  let l ← l.expireAll
  let l := l.closeTo l.cursor.column
  if l.cursor.atMarker '-' then l.divider .documentStart
  else if l.cursor.atMarker '.' then l.divider .documentEnd
  else
    match l.cursor.rest with
    | [] => l.finish
    | '[' :: _ => l.openBracket .openList
    | '\x7b' :: _ => l.openBracket .openMap
    | ']' :: _ => l.closeBracket .closeList
    | '\x7d' :: _ => l.closeBracket .closeMap
    | ',' :: _ => l.comma
    | '\'' :: _ => l.quoted '\''
    | '"' :: _ => l.quoted '"'
    | x :: xs =>
      if x = '-' && atGap xs then l.blockMark .dash .blockList true
      else if x = '?' && (l.inFlow || atGap xs) then l.blockMark .key .blockMap (!l.inFlow)
      else if x = ':' && (l.inFlow || atGap xs) then l.colon
      else if (x = '|' || x = '>') && !l.inFlow then l.block (x = '>')
      else if startsPlain l.inFlow (x :: xs) then l.plain
      else refuse

def tokensOf (l : Lexer) : Item → List Token
  | .token t => [t]
  | .place n =>
    match l.keyed.lookup n with
    | some true => [.blockMap, .key]
    | some false => [.key]
    | none => []

def tokens (l : Lexer) : List Token := l.found.reverse.flatMap l.tokensOf

def isPending (l : Lexer) : Item → Bool
  | .token _ => false
  | .place n => (l.possible :: l.outer).any fun k => k.any (·.place = n)

/-- The tokens up to the first possible key, of which it is not known what they come to. -/
def settled (l : Lexer) : List Token :=
  (l.found.reverse.takeWhile fun i => !l.isPending i).flatMap l.tokensOf

def run : Nat → Lexer → List Token
  | 0, l => l.tokens ++ [.failed .malformed]
  | fuel + 1, l =>
    match l.expireAll with
    | .error e => l.settled ++ [.failed e]
    | .ok l =>
      match l.fetch with
      | .error e => l.settled ++ [.failed e]
      | .ok l => if l.isDone then l.tokens else run fuel l

end Lexer

/-- The tokens of a text. Each but the last takes at least one character. -/
def Token.ofText (cs : List Char) : List Token :=
  let cs := if cs.head? = some byteOrderMark then cs.drop 1 else cs
  Lexer.run (cs.length + 1) { cursor := { rest := cs } }

end LetLower.Data.Yaml
