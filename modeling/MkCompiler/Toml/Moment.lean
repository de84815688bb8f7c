import MkCompiler.Numeral.Integer

/-!
# Dates and times in configuration documents

A date has a year of four digits, a month and a day; a time has hours, minutes and seconds, and
seconds may have a fraction. The distance to universal time can follow a date and a time.
-/

namespace MkCompiler.Toml

/-- Reads a date from the front of a text. -/
def date? : List Char → Option (List Char × List Char)
  | y₁ :: y₂ :: y₃ :: y₄ :: '-' :: m₁ :: m₂ :: '-' :: d₁ :: d₂ :: rest =>
    if [y₁, y₂, y₃, y₄, m₁, m₂, d₁, d₂].all Numeral.isDigit then
      some ([y₁, y₂, y₃, y₄, '-', m₁, m₂, '-', d₁, d₂], rest)
    else
      none
  | _ => none

/-- Reads a time from the front of a text. -/
def time? : List Char → Option (List Char × List Char)
  | h₁ :: h₂ :: ':' :: m₁ :: m₂ :: ':' :: s₁ :: s₂ :: rest =>
    if [h₁, h₂, m₁, m₂, s₁, s₂].all Numeral.isDigit then
      let time := [h₁, h₂, ':', m₁, m₂, ':', s₁, s₂]
      match rest with
      | '.' :: fraction =>
        let digits := fraction.takeWhile Numeral.isDigit
        if digits = [] then none
        else some (time ++ '.' :: digits, fraction.dropWhile Numeral.isDigit)
      | _ => some (time, rest)
    else
      none
  | _ => none

/-- Reads the distance to universal time from the front of a text. It is empty if there is none. -/
def offset? : List Char → Option (List Char × List Char)
  | [] => some ([], [])
  | c :: rest =>
    if c = 'Z' then some ([c], rest)
    else if c = '+' ∨ c = '-' then
      match rest with
      | h₁ :: h₂ :: ':' :: m₁ :: m₂ :: behind =>
        if [h₁, h₂, m₁, m₂].all Numeral.isDigit then
          some ([c, h₁, h₂, ':', m₁, m₂], behind)
        else
          none
      | _ => none
    else
      some ([], c :: rest)

def isLeapYear (year : Nat) : Bool :=
  year % 4 = 0 && (year % 100 ≠ 0 || year % 400 = 0)

/-- The number of days of a month, counted from one. -/
def daysIn (year month : Nat) : Nat :=
  if month = 2 then if isLeapYear year then 29 else 28
  else if month = 4 ∨ month = 6 ∨ month = 9 ∨ month = 11 then 30
  else 31

/-- Whether a text that reads as a date names a day. -/
def isDay (text : List Char) : Bool :=
  let year := Numeral.decimalValue (text.take 4)
  let month := Numeral.decimalValue ((text.drop 5).take 2)
  let day := Numeral.decimalValue ((text.drop 8).take 2)
  1 ≤ month && month ≤ 12 && 1 ≤ day && day ≤ daysIn year month

/-- Whether a text that reads as a time names a second of a day. -/
def isSecond (text : List Char) : Bool :=
  Numeral.decimalValue (text.take 2) < 24 &&
    Numeral.decimalValue ((text.drop 3).take 2) < 60 &&
    Numeral.decimalValue ((text.drop 6).take 2) < 60

/-- Whether a text that reads as a distance to universal time is at most a day and an hour. -/
def isOffset (text : List Char) : Bool :=
  text = ['Z'] ||
    (Numeral.decimalValue ((text.drop 1).take 2) ≤ 24 &&
      Numeral.decimalValue ((text.drop 4).take 2) ≤ 60)

end MkCompiler.Toml
