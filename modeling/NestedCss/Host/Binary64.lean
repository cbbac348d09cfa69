import NestedCss.Text.Basic

set_option autoImplicit false

/-! Double precision numbers as exact multiples of powers of two, and the fewest
decimal digits that read back to one. No floating point operation is used: the
reals that round to a number form an interval with exact ends, and its digits
are those of a point of that interval on the coarsest decimal grid that has one. -/

namespace NestedCss

/-- A number of the binary interchange format of 64 bits, by its word. -/
structure Binary64 where
  word : UInt64
  deriving DecidableEq

namespace Binary64

def negative (number : Binary64) : Bool := Nat.pow 2 63 ≤ number.word.toNat

def fractionField (number : Binary64) : Nat := number.word.toNat % Nat.pow 2 52

def exponentField (number : Binary64) : Nat := number.word.toNat / Nat.pow 2 52 % Nat.pow 2 11

def isFinite (number : Binary64) : Bool := number.exponentField != 2047

def significand (number : Binary64) : Nat :=
  if number.exponentField = 0 then number.fractionField else Nat.pow 2 52 + number.fractionField

def exponent (number : Binary64) : Int :=
  if number.exponentField = 0 then -1074 else (number.exponentField : Int) - 1075

def isZero (number : Binary64) : Bool := number.significand == 0

def integer? (number : Binary64) : Option Nat :=
  let scale := Nat.pow 2 (-number.exponent).toNat
  if number.significand % scale = 0 then
    some (number.significand * Nat.pow 2 number.exponent.toNat / scale)
  else none

end Binary64

/-- The magnitudes that round to one number, as multiples of `2 ^ exponent`. The
ends belong to the interval if it is closed. -/
structure RoundingInterval where
  low : Nat
  center : Nat
  high : Nat
  exponent : Int
  closed : Bool

/-- The rounding interval of a number. It reaches half way to each neighbour,
and the neighbour below a power of two is half as far away as the one above. An
even number wins the ties at its ends. -/
def Binary64.interval (number : Binary64) : RoundingInterval :=
  let narrow := number.fractionField = 0 ∧ 1 < number.exponentField
  { low := 4 * number.significand - (if narrow then 1 else 2)
    center := 4 * number.significand
    high := 4 * number.significand + 2
    exponent := number.exponent - 2
    closed := number.significand % 2 == 0 }

structure Decimal where
  digits : Nat
  power : Int
  deriving DecidableEq

namespace RoundingInterval

def measures (interval : RoundingInterval) (power : Int) : Nat × Nat :=
  (Nat.pow 2 interval.exponent.toNat * Nat.pow 10 (-power).toNat,
    Nat.pow 2 (-interval.exponent).toNat * Nat.pow 10 power.toNat)

def covers (interval : RoundingInterval) (power : Int) (digits : Nat) : Bool :=
  let (binary, decimal) := interval.measures power
  let low := interval.low * binary
  let high := interval.high * binary
  let point := digits * decimal
  if interval.closed then low ≤ point && point ≤ high else low < point && point < high

/-- The multiple of `10 ^ power` in the interval that is nearest to its center,
if there is one. Of two that are equally near, the larger. -/
def nearest? (interval : RoundingInterval) (power : Int) : Option Nat :=
  let (binary, decimal) := interval.measures power
  let center := interval.center * binary
  let below := center / decimal
  let above := below + 1
  match interval.covers power below, interval.covers power above with
  | true, true => some (if 2 * (center % decimal) < decimal then below else above)
  | true, false => some below
  | false, true => some above
  | false, false => none

/-- The nearest point on the coarsest of the grids from `10 ^ power` down, over
at most `steps` grids. -/
def coarsest? (interval : RoundingInterval) : Nat → Int → Option Decimal
  | 0, _ => none
  | steps + 1, power =>
      match interval.nearest? power with
      | some digits => some ⟨digits, power⟩
      | none => interval.coarsest? steps (power - 1)

end RoundingInterval

/-- The fewest digits that read back to the number. No finite number reaches
`10 ^ 309`, and all of them are told apart by multiples of `10 ^ -324`. -/
def Binary64.shortest (number : Binary64) : Decimal :=
  (number.interval.coarsest? (309 + 324 + 1) 309).getD ⟨number.significand, 0⟩

def Decimal.positional (decimal : Decimal) : Text :=
  let digits := Text.ofNat decimal.digits
  let places := (-decimal.power).toNat
  if places = 0 then digits ++ List.replicate decimal.power.toNat '0'
  else
    let padded := List.replicate (places + 1 - digits.length) '0' ++ digits
    padded.take (padded.length - places) ++ '.' :: padded.drop (padded.length - places)

end NestedCss
