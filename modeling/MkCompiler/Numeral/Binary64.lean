/-!
# Binary floating point numbers

The numbers of the 64-bit binary format and the rounding of a fraction to the nearest of them,
ties going to the even significand.
-/

namespace MkCompiler

/-- A number of the 64-bit binary format. The finite ones have the value
`significand * 2 ^ exponent`, with the exponent as small as 53 bits and `-1074` allow. -/
inductive Binary64 where
  | finite (negative : Bool) (significand : Nat) (exponent : Int)
  | infinite (negative : Bool)
  | nan
  deriving DecidableEq, Repr, Inhabited

namespace Binary64

def leastExponent : Int := -1074

def greatestExponent : Int := 971

/-- The number stored in 64 bits. -/
def ofBits (bits : Nat) : Binary64 :=
  let negative : Bool := bits / Nat.pow 2 63 % 2 = 1
  let exponent : Nat := bits / Nat.pow 2 52 % Nat.pow 2 11
  let fraction : Nat := bits % Nat.pow 2 52
  if exponent = 2047 then
    if fraction = 0 then infinite negative else nan
  else if exponent = 0 then
    finite negative fraction leastExponent
  else
    finite negative (Nat.pow 2 52 + fraction) ((exponent : Int) - 1075)

/-- The integer nearest to a fraction, the even one if two are equally near. -/
def roundHalfEven (num den : Nat) : Nat :=
  let q := num / den
  let r := num % den
  if 2 * r < den then q
  else if den < 2 * r then q + 1
  else if q % 2 = 0 then q
  else q + 1

/-- A fraction divided by a power of two, as a fraction. -/
def scaleDown (num den : Nat) (e : Int) : Nat × Nat :=
  if 0 ≤ e then (num, den * Nat.pow 2 e.toNat) else (num * Nat.pow 2 (-e).toNat, den)

/-- The exponent of the greatest power of two that is not above a positive fraction. -/
def floorLog2 (num den : Nat) : Int :=
  let e : Int := num.log2 - den.log2
  let (n, d) := scaleDown num den e
  if n < d then e - 1 else e

/-- The significand and exponent nearest to a fraction; none if it is too large. -/
def round? (num den : Nat) : Option (Nat × Int) :=
  if num = 0 then
    some (0, leastExponent)
  else
    let e := max leastExponent (floorLog2 num den - 52)
    let (n, d) := scaleDown num den e
    let m := roundHalfEven n d
    let (m, e) := if m = Nat.pow 2 53 then (Nat.pow 2 52, e + 1) else (m, e)
    if greatestExponent < e then none else some (m, e)

end Binary64

end MkCompiler
