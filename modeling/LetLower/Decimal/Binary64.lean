/-!
# Double-precision numbers

A finite number is a sign, a significand and a power of two. It is kept in lowest form: the
significand has 53 bits, or fewer at the least exponent. Reading a decimal takes the nearest
number, and of two the one with the even significand; all of it is exact arithmetic on naturals.
-/

namespace LetLower

inductive Binary64 where
  | nan
  | infinite (negative : Bool)
  | finite (negative : Bool) (significand : Nat) (exponent : Int)
deriving DecidableEq, Repr

namespace Binary64

def minExponent : Int := -1074

def maxExponent : Int := 971

def limit : Nat := Nat.pow 2 53

def zero (negative : Bool) : Binary64 := finite negative 0 minExponent

/-- The integer nearest to a quotient, the even one of two. -/
def roundDiv (num den : Nat) : Nat :=
  let q := num / den
  let twice := 2 * (num % den)
  if twice < den then q
  else if den < twice then q + 1
  else q + q % 2

def scale (num den : Nat) (e : Int) : Nat × Nat :=
  if 0 ≤ e then (num, den <<< e.toNat) else (num <<< (-e).toNat, den)

def ofRatio (negative : Bool) (num den : Nat) : Binary64 :=
  if num = 0 then zero negative
  else
    let least : Int := num.log2 - den.log2 - 53
    let (n, d) := scale num den least
    let exponent := max minExponent (if d <<< 53 ≤ n then least + 1 else least)
    let (n, d) := scale num den exponent
    let m := roundDiv n d
    let (m, exponent) := if m = limit then (limit / 2, exponent + 1) else (m, exponent)
    if maxExponent < exponent then infinite negative else finite negative m exponent

def digitCount (n : Nat) : Nat := (Nat.toDigits 10 n).length

/-- The nearest number to `digits · 10 ^ power`. Powers far outside the range are cut off before
they are raised. -/
def ofDecimal (negative : Bool) (digits : Nat) (power : Int) : Binary64 :=
  if digits = 0 then zero negative
  else if 400 < power + digitCount digits then infinite negative
  else if power + digitCount digits < -400 then zero negative
  else if 0 ≤ power then ofRatio negative (digits * Nat.pow 10 power.toNat) 1
  else ofRatio negative digits (Nat.pow 10 (-power).toNat)

def isZero : Binary64 → Bool
  | finite _ m _ => m = 0
  | _ => false

/-- The integer part, the fraction cut off; none for infinities and what is no number. -/
def truncate? : Binary64 → Option Int
  | finite negative m e =>
    let n : Nat := if 0 ≤ e then m <<< e.toNat else m >>> (-e).toNat
    some (if negative then -(n : Int) else n)
  | _ => none

def ratio? : Binary64 → Option (Int × Nat)
  | finite negative m e =>
    let n : Nat := if 0 ≤ e then m <<< e.toNat else m
    some (if negative then -(n : Int) else n, (-e).toNat)
  | _ => none

def ofDyadic (n : Int) (k : Nat) : Binary64 := ofRatio (n < 0) n.natAbs (Nat.pow 2 k)

def ofInt? (n : Int) : Option Binary64 :=
  match ofDyadic n 0 with
  | .infinite _ => none
  | x => some x

def neg : Binary64 → Binary64
  | nan => nan
  | infinite negative => infinite !negative
  | finite negative m e => finite (!negative) m e

def isNegative : Binary64 → Bool
  | nan => false
  | infinite negative | finite negative _ _ => negative

def add (x y : Binary64) : Binary64 :=
  match x.ratio?, y.ratio? with
  | some (m, j), some (n, k) =>
    let sum := m * Nat.pow 2 k + n * Nat.pow 2 j
    if sum = 0 then zero (x.isNegative && y.isNegative) else ofDyadic sum (j + k)
  | _, _ =>
    match x, y with
    | infinite a, infinite b => if a = b then infinite a else nan
    | infinite a, finite .. | finite .., infinite a => infinite a
    | _, _ => nan

def mul (x y : Binary64) : Binary64 :=
  let negative := x.isNegative != y.isNegative
  match x.ratio?, y.ratio? with
  | some (m, j), some (n, k) => ofRatio negative (m * n).natAbs (Nat.pow 2 (j + k))
  | _, _ =>
    if x = nan ∨ y = nan ∨ x.isZero ∨ y.isZero then nan else infinite negative

end Binary64
end LetLower
