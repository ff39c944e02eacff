import LetLower.Data.Basic
import LetLower.Data.Json.Reader
import LetLower.Data.Yaml.Cursor

/-!
# The text of scalars

A scalar stands plain, between quotes, or as an indented block after `|` or `>`. It may run over
several lines, which are folded into one except in a block after `|`.
-/

namespace LetLower.Data.Yaml

/-! Plain scalars -/

def isFlowMark (c : Char) : Bool :=
  c = ',' || c = '[' || c = ']' || c = '\x7b' || c = '\x7d'

def indicators : List Char := ['#', '&', '*', '!', '|', '>', '\'', '"', '%', '@', '\x60']

def isIndicator (c : Char) : Bool := isFlowMark c || indicators.contains c

def startsPlain (inFlow : Bool) : List Char → Bool
  | [] => false
  | c :: rest =>
    if c = '-' then !atGap rest
    else if c = '?' || c = ':' then !inFlow && !atGap rest
    else !isGap c && !isIndicator c

/-- The colon after a key: before a gap, and between brackets before a mark too. -/
def endsKey (inFlow : Bool) (rest : List Char) : Bool :=
  atGap rest || inFlow && (rest.head?.map isFlowMark).getD false

def plainWord (inFlow : Bool) : List Char → List Char
  | [] => []
  | c :: rest =>
    if isGap c || c = ':' && endsKey inFlow rest || inFlow && (isFlowMark c || c = '?') then []
    else c :: plainWord inFlow rest

def plainGap (c : Cursor) : List Char × Cursor :=
  let spaces := c.rest.takeWhile (· = ' ')
  let c := c.skipSpaces
  match c.rest with
  | x :: _ =>
    if isBreak x then
      let (breaks, c) := c.next.emptyLines (· = ' ') c.rest.length
      (if c.atDivider then [] else folded (breakChar x) breaks, c)
    else (spaces, c)
  | [] => (spaces, c)

/-- What is left of a plain scalar, where the last word stood on `line` and `gap` was read after it:
the text, the line of its last word, and what follows. A line of it is indented by at least
`indent`, except between brackets. -/
def plainRest (inFlow : Bool) (indent : Int) :
    Nat → Nat → List Char → Cursor → List Char × Nat × Cursor
  | 0, line, _, c => ([], line, c)
  | fuel + 1, line, gap, c =>
    let word := plainWord inFlow c.rest
    if word.isEmpty || c.rest.head? = some '#' then ([], line, c)
    else
      let (next, after) := plainGap (c.skip word.length)
      if next.isEmpty || !inFlow && (after.column : Int) < indent then (gap ++ word, c.line, after)
      else
        let (rest, line, after) := plainRest inFlow indent fuel c.line next after
        (gap ++ word ++ rest, line, after)

def plainText (inFlow : Bool) (indent : Int) (c : Cursor) : List Char × Nat × Cursor :=
  plainRest inFlow indent (c.rest.length + 1) c.line [] c

/-! Quoted scalars -/

def escapes : List (Char × Char) :=
  [('0', '\x00'), ('a', '\x07'), ('b', '\x08'), ('t', '\t'), ('\t', '\t'), ('n', '\n'),
    ('v', '\x0b'), ('f', '\x0c'), ('r', '\r'), ('e', '\x1b'), (' ', ' '), ('"', '"'), ('/', '/'),
    ('\\', '\\'), ('N', '\u0085'), ('_', '\u00a0'), ('L', '\u2028'), ('P', '\u2029')]

def codeLength : Char → Nat
  | 'x' => 2
  | 'u' => 4
  | 'U' => 8
  | _ => 0

def symbolOfCode (code : Nat) : Reading Text.Symbol :=
  if 0x110000 ≤ code then .error (.fault (.notCharacter code)) else .ok (.ofCode code)

def escapedSymbol (c : Cursor) : Reading (Text.Symbol × Cursor) :=
  match c.rest with
  | [] => refuse
  | x :: xs =>
    let length := codeLength x
    if length = 0 then
      match escapes.lookup x with
      | some y => .ok (.char y, c.next)
      | none => refuse
    else
      match (xs.take length).mapM Json.hexValue? with
      | some digits =>
        if digits.length < length then refuse
        else (symbolOfCode (Json.natOf 16 digits)).map fun y => (y, c.next.skip length)
      | none => refuse

def quotedBreak (c : Cursor) : Reading (List Char × Cursor) :=
  let (breaks, c) := c.next.emptyLines isBlank c.rest.length
  if c.atDivider then refuse else .ok (breaks, c)

def prepend (cs : List Char) (acc : List Text.Symbol) : List Text.Symbol :=
  cs.reverse.map .char ++ acc

/-- What is left of a quoted scalar; `acc` holds what was read, last first. -/
def quotedRest (quote : Char) :
    Nat → List Text.Symbol → Cursor → Reading (List Text.Symbol × Cursor)
  | 0, _, _ => refuse
  | fuel + 1, acc, c =>
    match c.rest with
    | [] => refuse
    | x :: xs =>
      if x = quote then
        if quote = '\'' && xs.head? = some '\'' then
          quotedRest quote fuel (.char '\'' :: acc) (c.skip 2)
        else .ok (acc.reverse, c.next)
      else if x = '\\' && quote = '"' then
        if !xs.isEmpty && atBreak xs then do
          let (breaks, c) ← quotedBreak c.next
          quotedRest quote fuel (prepend breaks acc) c
        else do
          let (y, c) ← escapedSymbol c.next
          quotedRest quote fuel (y :: acc) c
      else if isGap x then
        let blanks := c.rest.takeWhile isBlank
        let c := c.skipWhile isBlank
        match c.rest with
        | [] => refuse
        | y :: _ =>
          if isBreak y then do
            let (breaks, c) ← quotedBreak c
            quotedRest quote fuel (prepend (folded (breakChar y) breaks) acc) c
          else quotedRest quote fuel (prepend blanks acc) c
      else quotedRest quote fuel (.char x :: acc) c.next

def quotedText (quote : Char) (c : Cursor) : Reading (List Text.Symbol × Cursor) :=
  quotedRest quote (c.rest.length + 1) [] c.next

/-! Block scalars -/

inductive Chomping where
  | strip
  | clip
  | keep
deriving DecidableEq

def chomping? : Char → Option Chomping
  | '+' => some .keep
  | '-' => some .strip
  | _ => none

def indentDigit? (c : Char) : Option Nat :=
  if '1' ≤ c ∧ c ≤ '9' then some (c.toNat - '0'.toNat) else none

def blockMarks (c : Cursor) : Chomping × Option Nat × Cursor :=
  match c.rest with
  | [] => (.clip, none, c)
  | x :: xs =>
    match chomping? x with
    | some chomping =>
      match xs.head?.bind indentDigit? with
      | some n => (chomping, some n, c.skip 2)
      | none => (chomping, none, c.next)
    | none =>
      match indentDigit? x with
      | some n =>
        match xs.head?.bind chomping? with
        | some chomping => (chomping, some n, c.skip 2)
        | none => (.clip, some n, c.next)
      | none => (.clip, none, c)

def blockHead (c : Cursor) : Reading Cursor :=
  if !(atBreak c.rest || c.rest.head? = some ' ') then refuse
  else
    let c := c.skipSpaces
    let c := if c.rest.head? = some '#' then c.skipLine else c
    if atBreak c.rest then .ok c.next else refuse

/-- The empty lines at the beginning of a block, and the greatest indent among them and the line
after them. -/
def blockMargin : Nat → Cursor → List Char × Nat × Cursor
  | 0, c => ([], 0, c)
  | fuel + 1, c =>
    let c := c.skipSpaces
    match c.rest with
    | [] => ([], c.column, c)
    | x :: _ =>
      if isBreak x then
        let (breaks, indent, after) := blockMargin fuel c.next
        (breakChar x :: breaks, max c.column indent, after)
      else ([], c.column, c)

def skipIndent (indent : Nat) (c : Cursor) : Cursor :=
  c.skip ((c.rest.take (indent - c.column)).takeWhile (· = ' ')).length

def blockBreaks (indent : Nat) : Nat → Cursor → List Char × Cursor
  | 0, c => ([], c)
  | fuel + 1, c =>
    let c := skipIndent indent c
    match c.rest with
    | [] => ([], c)
    | x :: _ =>
      if isBreak x then
        let (breaks, c) := blockBreaks indent fuel c.next
        (breakChar x :: breaks, c)
      else ([], c)

/-- The lines of a block and what stands after it; `breaks` stand before the first of them. -/
def blockLines (isFolded : Bool) (chomping : Chomping) (indent : Nat) :
    Nat → List Char → Cursor → List Char × Cursor
  | 0, breaks, c => (breaks, c)
  | fuel + 1, breaks, c =>
    let line := c.rest.takeWhile fun x => !isBreak x
    let c := c.skipLine
    let ending := (c.rest.take 1).map breakChar
    let (more, after) := blockBreaks indent c.rest.length c.next
    if after.column = indent && !after.rest.isEmpty then
      let isText := fun cs : List Char => !(cs.head?.map isBlank).getD false
      let joint :=
        if isFolded && ending = ['\n'] && isText line && isText after.rest then
          if more.isEmpty then [' '] else []
        else ending
      let (rest, after) := blockLines isFolded chomping indent fuel more after
      (breaks ++ line ++ joint ++ rest, after)
    else
      let tail := match chomping with
        | .strip => []
        | .clip => ending
        | .keep => ending ++ more
      (breaks ++ line ++ tail, after)

/-- A block, from its mark on, where what stands around it is indented by `outer`. -/
def blockText (isFolded : Bool) (outer : Int) (c : Cursor) : Reading (List Char × Cursor) := do
  let (chomping, increment, c) := blockMarks c.next
  let c ← blockHead c
  let least := max 1 (outer + 1).toNat
  let (breaks, indent, c) := match increment with
    | some n =>
      let (breaks, c) := blockBreaks (least + n - 1) (c.rest.length + 1) c
      (breaks, least + n - 1, c)
    | none =>
      let (breaks, found, c) := blockMargin (c.rest.length + 1) c
      (breaks, max least found, c)
  if c.column = indent && !c.rest.isEmpty then
    return blockLines isFolded chomping indent (c.rest.length + 1) breaks c
  else return (if chomping = .keep then breaks else [], c)

end LetLower.Data.Yaml
