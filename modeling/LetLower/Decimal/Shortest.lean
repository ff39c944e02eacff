import LetLower.Decimal.Binary64

/-!
# The shortest decimal of a double-precision number

Every decimal inside the interval of reals that round to a number reads back to it. With one
digit, two digits and so on, the two decimals next to the number are tried; the first count at
which one of them lies in the interval gives the digits, and the nearer one is taken.
-/

namespace LetLower.Decimal

/-- The positive number `digits · 10 ^ power`. -/
structure Positive where
  digits : Nat
  power : Int
deriving DecidableEq, Repr

/-- The reals that round to a number, with a common denominator. -/
structure Interval where
  low : Nat
  value : Nat
  high : Nat
  den : Nat
  closed : Bool

/-- The reals that round to `m · 2 ^ e`. Below a power of two the numbers stand twice as dense.
The ends round to the even neighbour. -/
def Interval.around (m : Nat) (e : Int) : Interval :=
  let up := if 0 ≤ e then 1 <<< e.toNat else 1
  let down := if 0 ≤ e then 1 else 1 <<< (-e).toNat
  let gap := if m = Binary64.limit / 2 ∧ Binary64.minExponent < e then 1 else 2
  { low := (4 * m - gap) * up, value := 4 * m * up, high := (4 * m + 2) * up, den := 4 * down,
    closed := m % 2 = 0 }

namespace Interval

def contains (i : Interval) (n d : Nat) : Bool :=
  if i.closed then i.low * d ≤ n * i.den && n * i.den ≤ i.high * d
  else i.low * d < n * i.den && n * i.den < i.high * d

/-- The `k` with `10 ^ (k - 1) ≤ value < 10 ^ k`. -/
def magnitude (i : Interval) : Int :=
  if i.den ≤ i.value then Binary64.digitCount (i.value / i.den)
  else
    let j := Binary64.digitCount i.den - Binary64.digitCount i.value
    if i.den ≤ i.value * Nat.pow 10 (j - 1) then 2 - j
    else if i.den ≤ i.value * Nat.pow 10 j then 1 - j
    else -j

/-- The decimal with this many digits that lies in the interval and is nearest to the number. -/
def withDigits? (i : Interval) (count : Nat) : Option Positive :=
  let power := i.magnitude - count
  let (up, down) :=
    if 0 ≤ power then (Nat.pow 10 power.toNat, 1) else (1, Nat.pow 10 (-power).toNat)
  let q := i.value * down / (i.den * up)
  let below := i.contains (q * up) down
  let above := i.contains ((q + 1) * up) down
  let left := i.value * down - q * up * i.den
  let right := (q + 1) * up * i.den - i.value * down
  if below && (!above || left < right || left = right && q % 2 = 0) then some ⟨q, power⟩
  else if above then some ⟨q + 1, power⟩
  else none

end Interval

def Positive.strip (p : Positive) : Nat → Positive
  | 0 => p
  | fuel + 1 =>
    if p.digits % 10 = 0 then strip ⟨p.digits / 10, p.power + 1⟩ fuel else p

/-- The shortest decimal that reads back to `m · 2 ^ e`. Seventeen digits are always enough. -/
def shortest (m : Nat) (e : Int) : Positive :=
  let i := Interval.around m e
  match (List.range 17).findSome? fun n => i.withDigits? (n + 1) with
  | some p => p.strip 17
  | none => ⟨m, 0⟩

structure Format where
  /-- The decimal exponents written positionally: from `low` up to but not `high`. -/
  low : Int
  high : Int
  exponentMark : String
  nan : String
  infinity : String

/-- Write a number: a fraction always, if only `.0`, unless there is an exponent, which has a
sign and at least two digits. -/
def Format.write (f : Format) (x : Binary64) : String :=
  match x with
  | .nan => f.nan
  | .infinite negative => (if negative then "-" else "") ++ f.infinity
  | .finite negative m e =>
    let sign := if negative then "-" else ""
    if m = 0 then sign ++ "0.0"
    else
      let p := shortest m e
      let digits := Nat.toDigits 10 p.digits
      let exponent := p.power + digits.length - 1
      if f.low ≤ exponent ∧ exponent < f.high then
        if 0 ≤ p.power then
          sign ++ String.ofList (digits ++ List.replicate p.power.toNat '0') ++ ".0"
        else if 0 ≤ exponent then
          let (whole, fraction) := digits.splitAt (exponent.toNat + 1)
          sign ++ String.ofList whole ++ "." ++ String.ofList fraction
        else
          sign ++ "0." ++ String.ofList (List.replicate (-exponent - 1).toNat '0' ++ digits)
      else
        let mantissa := match digits with
          | [] => ""
          | [d] => String.ofList [d]
          | d :: ds => String.ofList (d :: '.' :: ds)
        let size := toString exponent.natAbs
        sign ++ mantissa ++ f.exponentMark ++ (if exponent < 0 then "-" else "+")
          ++ (if size.length < 2 then "0" ++ size else size)

end LetLower.Decimal
