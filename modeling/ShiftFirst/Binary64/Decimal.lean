import ShiftFirst.Binary64.Basic

namespace ShiftFirst

/-- A whole number of powers of ten. -/
structure Decimal where
  digits : Nat
  exponent : Int
  deriving DecidableEq, Repr

namespace Decimal

/-- The digits of the decimal without an exponent, with a point only where a digit stands behind
it, and with a digit before it always. -/
def text (d : Decimal) : List Char :=
  let digits := Nat.toDigits 10 d.digits
  if 0 ≤ d.exponent then digits ++ List.replicate d.exponent.toNat '0'
  else
    let places := (-d.exponent).toNat
    let padded := List.replicate (places + 1 - digits.length) '0' ++ digits
    padded.take (padded.length - places) ++ '.' :: padded.drop (padded.length - places)

end Decimal

namespace Binary64

/-- The quotient rounded to the nearest whole number, a half to the even one. -/
def divideToEven (a b : Nat) : Nat :=
  let q := a / b
  let twice := 2 * (a % b)
  if twice < b ∨ twice = b ∧ q % 2 = 0 then q else q + 1

/-- The magnitude of the number nearest to the quotient of positive numbers; of two that are
equally near, the one with an even significand. -/
def nearestMagnitude (a b : Nat) : Nat :=
  let scaled (unit : Int) : Nat × Nat :=
    (a * Nat.pow 2 (-unit).toNat, b * Nat.pow 2 unit.toNat)
  let guess : Int := (Nat.log2 a : Int) - Nat.log2 b - 53
  let whole := (scaled guess).1 / (scaled guess).2
  let unit := max (-1074) (if whole < Nat.pow 2 53 then guess else guess + 1)
  let significand := divideToEven (scaled unit).1 (scaled unit).2
  min infiniteMagnitude ((unit + 1074).toNat * Nat.pow 2 52 + significand)

/-- The magnitude nearest to a decimal. Beyond the tests on its length every decimal is infinite
or zero. -/
def ofDecimal (d : Decimal) : Nat :=
  let length : Int := (Nat.toDigits 10 d.digits).length
  if d.digits = 0 ∨ d.exponent + length < -400 then 0
  else if 400 < d.exponent + length then infiniteMagnitude
  else
    nearestMagnitude (d.digits * Nat.pow 10 d.exponent.toNat) (Nat.pow 10 (-d.exponent).toNat)

/-- The decimal nearest to the number among the multiples of a power of ten that lie in the
interval of the reals that round to it, the larger one if two are equally near. The ends of the
interval belong to it if the significand is even. -/
def decimalAt? (x : Binary64) (power : Int) : Option Decimal :=
  let m := x.significand
  let even := m % 2 = 0
  let grid := Nat.pow 10 power.toNat * Nat.pow 2 (2 - x.unit).toNat
  let quarter := Nat.pow 10 (-power).toNat * Nat.pow 2 (x.unit - 2).toNat
  let low := (4 * m - if m = Nat.pow 2 52 then 1 else 2) * quarter
  let high := (4 * m + 2) * quarter
  let inside (n : Nat) : Bool :=
    low < n * grid && n * grid < high || even && (n * grid = low || n * grid = high)
  let below := 4 * m * quarter / grid
  let remainder := 4 * m * quarter % grid
  let upFirst := grid ≤ 2 * remainder
  let first := if upFirst then below + 1 else below
  let second := if upFirst then below else below + 1
  if inside first then some ⟨first, power⟩
  else if inside second then some ⟨second, power⟩
  else none

/-- The decimal on the coarsest grid of powers of ten from `power` downwards. -/
def shortestFrom (x : Binary64) : (fuel : Nat) → (power : Int) → Decimal
  | 0, power => ⟨0, power⟩
  | fuel + 1, power => (x.decimalAt? power).getD (x.shortestFrom fuel (power - 1))

/-- The decimal of the fewest digits that is read as the number, and of these the nearest one. -/
def shortest (x : Binary64) : Decimal :=
  if x.significand = 0 then ⟨0, 0⟩ else x.shortestFrom 700 309

/-- How a number is displayed. -/
def text (x : Binary64) : String :=
  if x.isNaN then "NaN"
  else
    let sign := if x.negative then ['-'] else []
    String.ofList (sign ++ if x.isInfinite then "inf".toList else x.shortest.text)

/-- Why a text spells no number. -/
inductive NumeralError where
  | empty
  | invalid
  deriving DecidableEq, Repr

def NumeralError.message : NumeralError → String
  | empty => "cannot parse float from empty string"
  | invalid => "invalid float literal"

/-- The number that decimal digits spell. -/
def digitsValue (digits : List Char) : Nat :=
  digits.foldl (fun n d => n * 10 + (d.toNat - '0'.toNat)) 0

/-- The exponent behind the digits of a numeral, which may be missing. -/
def readExponent? : List Char → Option Int
  | [] => some 0
  | e :: s =>
    let (negative, digits) : Bool × List Char :=
      match s with
      | '-' :: rest => (true, rest)
      | '+' :: rest => (false, rest)
      | _ => (false, s)
    if e.toLower ≠ 'e' ∨ digits = [] ∨ !digits.all Char.isDigit then none
    else some (if negative then -(digitsValue digits) else digitsValue digits)

/-- The decimal that an unsigned numeral spells: digits with or without a point among them, and
an exponent. -/
def readDecimal? (s : List Char) : Option Decimal := do
  let whole := s.takeWhile Char.isDigit
  let rest := s.dropWhile Char.isDigit
  let (fraction, rest) : List Char × List Char :=
    match rest with
    | '.' :: tail => (tail.takeWhile Char.isDigit, tail.dropWhile Char.isDigit)
    | _ => ([], rest)
  guard (whole ≠ [] ∨ fraction ≠ [])
  let exponent ← readExponent? rest
  return ⟨digitsValue (whole ++ fraction), exponent - fraction.length⟩

/-- The number that a text spells: a numeral or the name of what is no finite number, behind a
sign or none. -/
def read (s : String) : Except NumeralError Binary64 :=
  let (negative, body) : Bool × List Char :=
    match s.toList with
    | '-' :: rest => (true, rest)
    | '+' :: rest => (false, rest)
    | chars => (false, chars)
  let name := String.ofList (body.map Char.toLower)
  if s = "" then .error .empty
  else if name = "inf" ∨ name = "infinity" then .ok (ofMagnitude negative infiniteMagnitude)
  else if name = "nan" then .ok (ofMagnitude negative (infiniteMagnitude + Nat.pow 2 51))
  else
    match readDecimal? body with
    | some d => .ok (ofMagnitude negative (ofDecimal d))
    | none => .error .invalid

end Binary64

end ShiftFirst
