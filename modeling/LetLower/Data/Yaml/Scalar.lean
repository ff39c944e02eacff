import LetLower.Data.Json.Reader

/-!
# What a plain scalar stands for

An unquoted word of a YAML 1.1 document is a truth value, nothing, a number, a date, a moment or
else a text. Integers may be in base two, eight, ten, sixteen or sixty, fractions in base ten or
sixty, and low lines in numbers are skipped. What has the form of a number or of a date may still be
out of range; that is a fault. Two words have a meaning only as the name of a field.
-/

namespace LetLower.Data.Yaml

open Json (isDigit decimal natOf hexValue?)

def trueWords : List String :=
  ["yes", "Yes", "YES", "true", "True", "TRUE", "on", "On", "ON"]

def falseWords : List String :=
  ["no", "No", "NO", "false", "False", "FALSE", "off", "Off", "OFF"]

def nullWords : List String := ["", "~", "null", "Null", "NULL"]

def dropLines (cs : List Char) : List Char := cs.filter (· ≠ '_')

def splitSign : List Char → Bool × List Char
  | '-' :: cs => (true, cs)
  | '+' :: cs => (false, cs)
  | cs => (false, cs)

def isDigitOrLine (c : Char) : Bool := isDigit c || c = '_'

def colonParts (cs : List Char) : List (List Char) := cs.splitOn ':'

/-- Minutes or seconds: one digit, or two of which the first is less than six. -/
def isSixtieth : List Char → Bool
  | [a] => isDigit a
  | [a, b] => '0' ≤ a && a ≤ '5' && isDigit b
  | _ => false

def marked? (base : Nat) (isDigit : Char → Bool) (cs : List Char) : Option (Except Fault Nat) :=
  if cs.isEmpty || !cs.all fun c => isDigit c || c = '_' then none
  else
    let digits := dropLines cs
    some <|
      if digits.isEmpty then .error (.noDigits base)
      else .ok (natOf base (digits.filterMap hexValue?))

def counted (first : List Char) (rest : List (List Char)) : Except Fault Nat :=
  let digits := dropLines first
  if maxDigits < digits.length then .error (.tooManyDigits digits.length)
  else .ok (natOf 60 (decimal digits :: rest.map decimal))

def natural? (cs : List Char) : Option (Except Fault Nat) :=
  match cs with
  | '0' :: 'b' :: ds => marked? 2 (fun c => c = '0' || c = '1') ds
  | '0' :: 'x' :: ds => marked? 16 (fun c => (hexValue? c).isSome) ds
  | '0' :: ds =>
    if ds.isEmpty then some (.ok 0)
    else marked? 8 (fun c => '0' ≤ c && c ≤ '7') ds |>.map fun _ =>
      .ok (natOf 8 ((dropLines ds).filterMap hexValue?))
  | c :: _ =>
    if '1' ≤ c && c ≤ '9' then
      match colonParts cs with
      | [] => none
      | first :: rest =>
        if first.all isDigitOrLine && rest.all isSixtieth then some (counted first rest) else none
    else none
  | [] => none

def integer? (cs : List Char) : Option (Except Fault Int) :=
  let (negative, body) := splitSign cs
  (natural? body).map fun r => r.map fun n => if negative then -(n : Int) else n

def power? : List Char → Option Int
  | [] => some 0
  | e :: sign :: ds =>
    if (e = 'e' || e = 'E') && !ds.isEmpty && ds.all isDigit then
      if sign = '-' then some (-(decimal ds : Int))
      else if sign = '+' then some (decimal ds)
      else none
    else none
  | _ => none

def fraction? (negative signed : Bool) (cs : List Char) : Option Binary64 :=
  let (whole, rest) := cs.span isDigitOrLine
  match rest with
  | '.' :: rest =>
    let (digits, rest) := rest.span isDigitOrLine
    let wellFormed := match whole, digits with
      | [], d :: _ => isDigit d && !signed
      | w :: _, _ => isDigit w
      | [], [] => false
    if wellFormed then
      (power? rest).map fun p =>
        let digits := dropLines digits
        .ofDecimal negative (decimal (dropLines whole ++ digits)) (p - digits.length)
    else none
  | _ => none

/-- The sum of parts in base sixty, the last part first; each counts sixty times as much as the one
before it. -/
def sumSixties : Int → Binary64 → List Binary64 → Except Fault Binary64
  | _, sum, [] => .ok sum
  | base, sum, part :: parts =>
    match Binary64.ofInt? base with
    | some b => sumSixties (base * 60) (sum.add (part.mul b)) parts
    | none => .error .hugeInteger

def sixties? (cs : List Char) : Option (Except Fault Binary64) :=
  let (whole, rest) := cs.span (· ≠ '.')
  match colonParts whole, rest with
  | first :: part :: parts, '.' :: digits =>
    let wellFormed := (first.head?.map isDigit).getD false && first.all isDigitOrLine
      && (part :: parts).all isSixtieth && digits.all isDigitOrLine
    if wellFormed then
      let digits := dropLines digits
      let parts := (dropLines first :: part :: parts).reverse
      let last := (parts.head?.getD []) ++ digits
      some <| sumSixties 1 (.zero false)
        (.ofDecimal false (decimal last) (-(digits.length : Int))
          :: (parts.drop 1).map fun p => .ofDecimal false (decimal p) 0)
    else none
  | _, _ => none

def float? (cs : List Char) : Option (Except Fault Binary64) :=
  let (negative, body) := splitSign cs
  let word := String.ofList body
  if word ∈ [".inf", ".Inf", ".INF"] then some (.ok (.infinite negative))
  else if String.ofList cs ∈ [".nan", ".NaN", ".NAN"] then some (.ok .nan)
  else
    match fraction? negative (body.length < cs.length) body with
    | some x => some (.ok x)
    | none =>
      (sixties? body).map fun r => r.map fun x => if negative then x.neg else x

/-! Dates and moments -/

def digits? (least most : Nat) (cs : List Char) : Option (Nat × List Char) :=
  let (ds, rest) := cs.span isDigit
  if least ≤ ds.length && ds.length ≤ most then some (decimal ds, rest) else none

def after? (mark : Char) : List Char → Option (List Char)
  | c :: cs => if c = mark then some cs else none
  | [] => none

/-- The part of a second after a point, in millionths; what is smaller is cut off. -/
def millionths (cs : List Char) : Nat := decimal ((cs ++ List.replicate 6 '0').take 6)

def offset? (cs : List Char) : Option (Option Int) :=
  if cs.isEmpty then some none
  else
    match cs.dropWhile fun c => c = ' ' || c = '\t' with
    | ['Z'] => some (some 0)
    | sign :: cs => do
      let (hours, rest) ← digits? 1 2 cs
      let (minutes, rest) ←
        if rest.isEmpty then some (0, []) else (after? ':' rest).bind (digits? 2 2)
      let offset : Int := hours * 60 + minutes
      if !rest.isEmpty then none
      else if sign = '+' then some (some offset)
      else if sign = '-' then some (some (-offset))
      else none
    | [] => none

def timeMark? : List Char → Option (List Char)
  | 'T' :: cs | 't' :: cs => some cs
  | ' ' :: cs | '\t' :: cs => some (cs.dropWhile fun c => c = ' ' || c = '\t')
  | _ => none

/-- A date with all its digits, or a date and a time. -/
def timestamp? (cs : List Char) : Option (Except CalendarError Data) := do
  let (year, rest) ← digits? 4 4 cs
  let (month, rest) ← (after? '-' rest).bind (digits? 1 2)
  let (day, rest) ← (after? '-' rest).bind (digits? 1 2)
  if rest.isEmpty then
    if cs.length = 10 then some ((Date.of year month day).map date) else none
  else
    let (hour, rest) ← (timeMark? rest).bind (digits? 1 2)
    let (minute, rest) ← (after? ':' rest).bind (digits? 2 2)
    let (second, rest) ← (after? ':' rest).bind (digits? 2 2)
    let (small, rest) := match rest with
      | '.' :: rest => rest.span isDigit
      | rest => ([], rest)
    let offset ← offset? rest
    some ((Moment.of year month day hour minute second (millionths small) offset).map moment)

def mergeWord : List Char := "<<".toList

def valueWord : List Char := "=".toList

def orFault {ε α : Type} (fault : ε → Fault) (x : Except ε α) (f : α → Data) : Reading Data :=
  match x with
  | .ok a => .ok (f a)
  | .error e => .error (.fault (fault e))

def ofPlain (cs : List Char) : Reading Data :=
  let s := String.ofList cs
  if s ∈ trueWords then .ok (bool true)
  else if s ∈ falseWords then .ok (bool false)
  else if s ∈ nullWords then .ok null
  else if cs = mergeWord ∨ cs = valueWord then refuse
  else
    match float? cs with
    | some r => orFault id r float
    | none =>
      match integer? cs with
      | some r => orFault id r int
      | none =>
        match timestamp? cs with
        | some r => orFault .calendar r id
        | none => .ok (text s)

end LetLower.Data.Yaml
