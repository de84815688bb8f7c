import MkCompiler.Numeral.Integer
import MkCompiler.Numeral.Binary64

/-!
# Real numerals

A real numeral is an optional sign, a mantissa with an optional point, and an exponent. The
mantissa is decimal, or hexadecimal behind `0x`; a hexadecimal numeral has to have an exponent. A
`_` may separate two digits, the base in front counting as one. The value is rounded to the
nearest binary number; a numeral that is too large has none.
-/

namespace MkCompiler.Numeral

def isHexDigit (c : Char) : Bool :=
  isDigit c || ('a'.toNat ≤ c.toNat && c.toNat ≤ 'f'.toNat) ||
    ('A'.toNat ≤ c.toNat && c.toNat ≤ 'F'.toNat)

def hexDigitValue (c : Char) : Nat :=
  if isDigit c then digitValue c
  else if 'a'.toNat ≤ c.toNat then c.toNat - 'a'.toNat + 10
  else c.toNat - 'A'.toNat + 10

def hexValue (digits : List Char) : Nat :=
  digits.foldl (fun n c => 16 * n + hexDigitValue c) 0

/-- A mantissa read from the front of a text: its digits without the point, the number of them
behind the point, and the text that follows. -/
structure Mantissa where
  digits : List Char
  fraction : Nat
  rest : List Char

/-- Reads digits, separators and at most one point. -/
def mantissa (digit : Char → Bool) (seenPoint : Bool) : List Char → Mantissa
  | [] => ⟨[], 0, []⟩
  | c :: rest =>
    if c = '_' then
      mantissa digit seenPoint rest
    else if c = '.' ∧ seenPoint = false then
      mantissa digit true rest
    else if digit c then
      let m := mantissa digit seenPoint rest
      ⟨c :: m.digits, m.fraction + (if seenPoint then 1 else 0), m.rest⟩
    else
      ⟨[], 0, c :: rest⟩

/-- The value of the digits of an exponent. Digits behind the first five significant ones do not
count: the numeral is out of range with them and without. -/
def exponentValue (digits : List Char) : Nat :=
  digits.foldl
    (fun e c => if c = '_' then e else if e < 10000 then 10 * e + digitValue c else e) 0

/-- Reads the digits of an exponent behind its mark. -/
def exponent? (text : List Char) : Option Int :=
  let (negative, digits) := splitSign text
  match digits with
  | [] => none
  | first :: rest =>
    if isDigit first ∧ rest.all (fun c => isDigit c || c = '_') then
      some (if negative then -(exponentValue digits) else exponentValue digits)
    else
      none

/-- What stands in front of a character, as far as separators are concerned. -/
inductive Before where
  | digit
  | separator
  | other
  deriving DecidableEq

/-- Whether every separator stands between two digits. -/
def separated (digit : Char → Bool) : Before → List Char → Bool
  | before, [] => before ≠ .separator
  | before, c :: rest =>
    if digit c then separated digit .digit rest
    else if c = '_' then before = .digit && separated digit .separator rest
    else before ≠ .separator && separated digit .other rest

/-- The binary number nearest to `m * 10 ^ e`. -/
def roundDecimal? (m : Nat) (e : Int) : Option (Nat × Int) :=
  let width : Int := (Nat.toDigits 10 m).length
  if m = 0 ∨ width + e < -330 then some (0, Binary64.leastExponent)
  else if 310 < width + e then none
  else if 0 ≤ e then Binary64.round? (m * Nat.pow 10 e.toNat) 1
  else Binary64.round? m (Nat.pow 10 (-e).toNat)

/-- The binary number nearest to `m * 2 ^ e`. -/
def roundBinary? (m : Nat) (e : Int) : Option (Nat × Int) :=
  let width : Int := m.log2 + 1
  if m = 0 ∨ width + e < -1080 then some (0, Binary64.leastExponent)
  else if 1030 < width + e then none
  else if 0 ≤ e then Binary64.round? (m * Nat.pow 2 e.toNat) 1
  else Binary64.round? m (Nat.pow 2 (-e).toNat)

/-- Reads a numeral without sign and base: a mantissa with digits, then an exponent behind the
given mark or nothing. -/
def unsigned? (digit : Char → Bool) (mark : Char) (text : List Char) :
    Option (Mantissa × Option Int) :=
  let m := mantissa digit false text
  if m.digits = [] then
    none
  else
    match m.rest with
    | [] => some (m, none)
    | c :: rest => if c.toLower = mark then (exponent? rest).map fun e => (m, some e) else none

/-- The significand and exponent of a decimal numeral without sign. -/
def decimal? (text : List Char) : Option (Nat × Int) :=
  match unsigned? isDigit 'e' text with
  | some (m, e) =>
    if separated isDigit .other text then
      roundDecimal? (decimalValue m.digits) (e.getD 0 - m.fraction)
    else
      none
  | none => none

/-- The significand and exponent of a hexadecimal numeral without sign and base. -/
def hexadecimal? (text : List Char) : Option (Nat × Int) :=
  match unsigned? isHexDigit 'p' text with
  | some (m, some e) =>
    if separated isHexDigit .digit text then
      roundBinary? (hexValue m.digits) (e - 4 * m.fraction)
    else
      none
  | _ => none

/-- The value of a real numeral. -/
def real? (text : List Char) : Option Binary64 :=
  let (negative, body) := splitSign text
  let value :=
    match body with
    | '0' :: 'x' :: rest => hexadecimal? rest
    | '0' :: 'X' :: rest => hexadecimal? rest
    | _ => decimal? body
  value.map fun v => .finite negative v.1 v.2

end MkCompiler.Numeral
