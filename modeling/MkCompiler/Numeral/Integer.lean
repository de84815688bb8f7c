/-!
# Integer numerals

A numeral is an optional sign followed by at least one decimal digit. It can be read if its value
fits a signed word of a given width.
-/

namespace MkCompiler.Numeral

def isDigit (c : Char) : Bool :=
  '0'.toNat ≤ c.toNat && c.toNat ≤ '9'.toNat

def digitValue (c : Char) : Nat :=
  c.toNat - '0'.toNat

/-- The value of a list of decimal digits, the most significant one first. -/
def decimalValue (digits : List Char) : Nat :=
  digits.foldl (fun n c => 10 * n + digitValue c) 0

/-- Splits off an optional sign. The first part is true for a minus sign. -/
def splitSign : List Char → Bool × List Char
  | '-' :: rest => (true, rest)
  | '+' :: rest => (false, rest)
  | text => (false, text)

/-- The value of a numeral of any size. -/
def integer? (text : List Char) : Option Int :=
  let (negative, digits) := splitSign text
  if digits ≠ [] ∧ digits.all isDigit then
    some (if negative then -(decimalValue digits) else decimalValue digits)
  else
    none

/-- Whether a value fits a signed word of `bits + 1` bits. -/
def fitsWord (bits : Nat) (v : Int) : Bool :=
  -(Nat.pow 2 bits : Int) ≤ v && v < (Nat.pow 2 bits : Int)

/-- The value of a numeral that fits 32 bits. -/
def word32? (text : List Char) : Option Int :=
  (integer? text).filter (fitsWord 31)

/-- A value, cut off at the ends of the 64-bit range. -/
def clamp64 (v : Int) : Int :=
  max (-(Nat.pow 2 63 : Int)) (min v ((Nat.pow 2 63 : Int) - 1))

/-- The value of a numeral, cut off at the ends of the 64-bit range. Digits that do not fit 64 bits
are cut off whatever follows them; any other text that is no numeral counts as zero. -/
def clamped64 (text : List Char) : Int :=
  let (negative, rest) := splitSign text
  let digits := rest.takeWhile isDigit
  if digits ≠ [] ∧ (digits = rest ∨ Nat.pow 2 64 ≤ decimalValue digits) then
    clamp64 (if negative then -(decimalValue digits) else decimalValue digits)
  else
    0

end MkCompiler.Numeral
