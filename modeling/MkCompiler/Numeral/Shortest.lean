import MkCompiler.Numeral.Real

/-!
# Shortest decimal numerals

The text of a binary number is the decimal with the fewest digits that rounds to it, the nearest of
those, and the one with an even last digit if two are equally near. It is written without exponent
and always with a point.
-/

namespace MkCompiler.Numeral

/-- The number `coefficient * 10 ^ exponent`. -/
structure Decimal where
  coefficient : Nat
  exponent : Int
  deriving DecidableEq, Repr

namespace Decimal

/-- The binary number a decimal rounds to. -/
def round? (d : Decimal) : Option (Nat × Int) :=
  roundDecimal? d.coefficient d.exponent

/-- The decimal that is exactly `m * 2 ^ e`. -/
def exact (m : Nat) (e : Int) : Decimal :=
  if 0 ≤ e then ⟨m * Nat.pow 2 e.toNat, 0⟩ else ⟨m * Nat.pow 5 (-e).toNat, e⟩

/-- The exponent of the greatest power of ten that is not above a positive decimal. -/
def floorLog10 (d : Decimal) : Int :=
  (Nat.toDigits 10 d.coefficient).length - 1 + d.exponent

/-- The decimal with `digits` digits that is nearest to `d`, among its two neighbours with that
many digits which round to `target`. -/
def candidate? (target : Nat × Int) (d : Decimal) (digits : Nat) : Option Decimal :=
  let e := d.floorLog10 - (digits - 1)
  let unit := Nat.pow 10 (e - d.exponent).toNat
  if e ≤ d.exponent then
    some d
  else
    let low := d.coefficient / unit
    let rest := d.coefficient % unit
    let below : Decimal := ⟨low, e⟩
    let above : Decimal := ⟨low + 1, e⟩
    match decide (below.round? = some target), decide (above.round? = some target) with
    | true, true =>
      if 2 * rest < unit then some below
      else if unit < 2 * rest then some above
      else if low % 2 = 0 then some below
      else some above
    | true, false => some below
    | false, true => some above
    | false, false => none

/-- The shortest decimal that rounds to the binary number `m * 2 ^ e`. Seventeen digits are always
enough; the exact value stands in for them. -/
def shortest (m : Nat) (e : Int) : Decimal :=
  let d := exact m e
  ((List.range 17).findSome? fun n => candidate? (m, e) d (n + 1)).getD d

/-- The digits before and behind the point, without trailing zeros behind it. -/
def split (d : Decimal) : List Char × List Char :=
  let digits := Nat.toDigits 10 d.coefficient
  if 0 ≤ d.exponent then
    (if d.coefficient = 0 then digits else digits ++ List.replicate d.exponent.toNat '0', [])
  else
    let places := (-d.exponent).toNat
    let padded := List.replicate (places + 1 - digits.length) '0' ++ digits
    let whole := padded.take (padded.length - places)
    let fraction := padded.drop (padded.length - places)
    (whole, (fraction.reverse.dropWhile (· = '0')).reverse)

end Decimal

/-- The text of a binary number. -/
def realText : Binary64 → List Char
  | .finite negative m e =>
    let (whole, fraction) := (Decimal.shortest m e).split
    (if negative then ['-'] else []) ++ whole ++ '.' :: (if fraction = [] then ['0'] else fraction)
  | .infinite negative => (if negative then '-' else '+') :: "Inf.0".toList
  | .nan => "NaN.0".toList

end MkCompiler.Numeral
