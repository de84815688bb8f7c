import MkCompiler.Text.Printable

/-!
# Quoted text

Text in double quotes on one line. Quotes and backslashes are escaped, the usual control
characters have a letter of their own, and every other character that is not printable is written
as the hexadecimal digits of its code point.
-/

namespace MkCompiler.Quoted

/-- The hexadecimal digits of a number, padded with zeros to a width. -/
def hexDigits (width n : Nat) : List Char :=
  let digits := Nat.toDigits 16 n
  List.replicate (width - digits.length) '0' ++ digits

/-- A character between quotes. Those that `plain` holds for stand for themselves. -/
def encodeCharWith (plain : Char → Bool) (c : Char) : List Char :=
  if c = '"' ∨ c = '\\' then ['\\', c]
  else if plain c then [c]
  else if c.toNat = 7 then ['\\', 'a']
  else if c.toNat = 8 then ['\\', 'b']
  else if c.toNat = 12 then ['\\', 'f']
  else if c.toNat = 10 then ['\\', 'n']
  else if c.toNat = 13 then ['\\', 'r']
  else if c.toNat = 9 then ['\\', 't']
  else if c.toNat = 11 then ['\\', 'v']
  else if c.toNat < 0x80 then '\\' :: 'x' :: hexDigits 2 c.toNat
  else if c.toNat < 0x10000 then '\\' :: 'u' :: hexDigits 4 c.toNat
  else '\\' :: 'U' :: hexDigits 8 c.toNat

def encodeChar (c : Char) : List Char :=
  encodeCharWith Printable.contains c

def encode (text : String) : String :=
  String.ofList ('"' :: text.toList.flatMap encodeChar ++ ['"'])

/-- Quoted text that is plain ASCII. -/
def encodeAscii (text : String) : String :=
  let plain (c : Char) : Bool := c.toNat < 0x80 && Printable.contains c
  String.ofList ('"' :: text.toList.flatMap (encodeCharWith plain) ++ ['"'])

/-- Whether a text can stand between backquotes as it is. -/
def fitsBackquotes (text : String) : Bool :=
  text.toList.all fun c =>
    (' '.toNat ≤ c.toNat || c = '\t') && c ≠ '\x60' && c.toNat ≠ 0x7f && c.toNat ≠ 0xfeff

end MkCompiler.Quoted
