import MkCompiler.Numeral.Integer
import MkCompiler.Text.Quoted

/-!
# Templates

A template is a text with places for arguments, written `%s`. A place can also ask for its argument
in quotes, `%q`, or in hexadecimal digits, `%x`, give a width and a limit, as in `%-8.4s`, and name
its argument by number, as in `%[2]s`; `%%` stands for a percent sign. What does not fit together is
shown in the text itself: a place without argument, an argument without place, a place of an unknown
kind.
-/

namespace MkCompiler.Template

/-- How an argument is laid out at its place. -/
structure Layout where
  flags : List Char := []
  width : Nat := 0
  limit : Option Nat := none

namespace Layout

def has (l : Layout) (flag : Char) : Bool :=
  l.flags.contains flag

/-- The part of an argument within the limit. -/
def cutOff {α : Type} (l : Layout) (items : List α) : List α :=
  match l.limit with
  | some n => items.take n
  | none => items

/-- A text filled up to the width, in front of it unless the place asks for the other side. -/
def pad (l : Layout) (text : List Char) : List Char :=
  let missing := l.width - text.length
  if l.has '-' then text ++ List.replicate missing ' '
  else List.replicate missing (if l.has '0' then '0' else ' ') ++ text

def plain (l : Layout) (text : String) : List Char :=
  l.pad (l.cutOff text.toList)

def quoted (l : Layout) (text : String) : List Char :=
  l.pad (Quoted.encode (String.ofList (l.cutOff text.toList))).toList

/-- An argument in the quotes that the flags ask for: backquotes if they are possible, or plain
ASCII. -/
def quotedByFlags (l : Layout) (text : String) : List Char :=
  let part := String.ofList (l.cutOff text.toList)
  if l.has '#' && Quoted.fitsBackquotes part then l.pad ('\x60' :: part.toList ++ ['\x60'])
  else if l.has '+' then l.pad (Quoted.encodeAscii part).toList
  else l.quoted text

/-- The bytes of an argument as hexadecimal digits. The flags can ask for a mark in front of them
and for blanks between the bytes, each of which has its own mark then. -/
def hexadecimal (l : Layout) (mark : Char) (digit : Char → Char) (text : String) : List Char :=
  let bytes := (l.cutOff text.toUTF8.toList).map fun b => (Quoted.hexDigits 2 b.toNat).map digit
  let marked (digits : List Char) : List Char :=
    if l.has '#' && digits ≠ [] then '0' :: mark :: digits else digits
  l.pad (if l.has ' ' then [' '].intercalate (bytes.map marked) else marked bytes.flatten)

end Layout

/-- An argument at a place of a kind. -/
def argument (kind : Char) (l : Layout) (text : String) : List Char :=
  if kind = 's' then l.plain text
  else if kind = 'v' then if l.has '#' then l.quoted text else l.plain text
  else if kind = 'q' then l.quotedByFlags text
  else if kind = 'x' then l.hexadecimal 'x' id text
  else if kind = 'X' then l.hexadecimal 'X' Char.toUpper text
  else if kind = 'T' then l.plain "string"
  else '%' :: '!' :: kind :: "(string=".toList ++ l.plain text ++ [')']

/-- What is shown of arguments that have no place. -/
def leftover (args : List String) : List Char :=
  if args = [] then []
  else
    "%!(EXTRA ".toList ++ (", ".intercalate (args.map ("string=" ++ ·))).toList ++ [')']

/-- What is shown of a place that has no argument. -/
def fault (kind : Char) (cause : String) : List Char :=
  '%' :: '!' :: kind :: '(' :: cause.toList ++ [')']

/-- The largest number that can still be continued by a digit. -/
def numberLimit : Nat := 1000000

/-- Reads a number, if there is one. A number with too many digits is none, and takes all that
follows with it. -/
def number (text : List Char) : Option Nat × List Char :=
  let digits := text.takeWhile Numeral.isDigit
  if numberLimit < Numeral.decimalValue digits.dropLast then (none, [])
  else if digits = [] then (none, text)
  else (some (Numeral.decimalValue digits), text.dropWhile Numeral.isDigit)

/-- A place while it is read. -/
structure Place where
  layout : Layout := {}
  /-- What is shown in front of the argument. -/
  notice : List Char := []
  /-- The argument of the place, counted from 0. -/
  argument : Nat
  /-- Whether the numbers of arguments were in their right places so far, and name an argument. -/
  valid : Bool := true
  /-- Whether a number of an argument was read last. -/
  chosen : Bool := false
  /-- Whether any argument was named by number so far. -/
  reordered : Bool
  rest : List Char

namespace Place

def readFlags (p : Place) : Place :=
  let isFlag (c : Char) : Bool := "#0+- ".toList.contains c
  { p with
    layout := { p.layout with flags := p.rest.takeWhile isFlag }
    rest := p.rest.dropWhile isFlag }

/-- Reads the number of an argument, in brackets and counted from 1. -/
def chooseArgument (count : Nat) (p : Place) : Place :=
  match p.rest with
  | '[' :: rest =>
    let inside := rest.takeWhile (· ≠ ']')
    let refused : Place := { p with valid := false, chosen := false, reordered := true }
    match rest.dropWhile (· ≠ ']') with
    | [] => { refused with rest := rest }
    | _ :: behind =>
      if inside = [] ∧ behind = [] then { refused with rest := rest }
      else
        match number inside with
        | (some n, []) =>
          if 0 < n ∧ n ≤ count then
            { p with argument := n - 1, chosen := true, reordered := true, rest := behind }
          else { refused with chosen := true, rest := behind }
        | _ => { refused with rest := behind }
  | _ => { p with chosen := false }

/-- Takes an argument for a number. No argument is a number, and the place says so. -/
def takeNumber (count : Nat) (cause : String) (rest : List Char) (p : Place) : Place :=
  { p with
    notice := p.notice ++ "%!(".toList ++ cause.toList ++ [')']
    argument := if p.argument < count then p.argument + 1 else p.argument
    chosen := false
    rest := rest }

/-- Reads the width. It stands in front of the number of an argument. -/
def readWidth (count : Nat) (p : Place) : Place :=
  match p.rest with
  | '*' :: rest => p.takeNumber count "BADWIDTH" rest
  | _ =>
    match number p.rest with
    | (some n, rest) =>
      { p with
        layout := { p.layout with width := n }
        valid := p.valid && !p.chosen
        rest := rest }
    | (none, rest) => { p with rest := rest }

/-- Reads the limit behind its point. It stands in front of the number of an argument. -/
def readLimit (count : Nat) (p : Place) : Place :=
  match p.rest with
  | '.' :: rest =>
    let p := chooseArgument count { p with valid := p.valid && !p.chosen, rest := rest }
    match p.rest with
    | '*' :: rest => p.takeNumber count "BADPREC" rest
    | _ =>
      let (n, rest) := number p.rest
      { p with layout := { p.layout with limit := some (n.getD 0) }, rest := rest }
  | _ => p

/-- Reads a place behind its percent sign, up to its kind. `count` is the number of arguments. -/
def read (count : Nat) (p : Place) : Place :=
  let p := ((p.readFlags.chooseArgument count).readWidth count).readLimit count
  if p.chosen then p else p.chooseArgument count

end Place

/-- Fills the places of a text in turn, from the argument with number `next`. Every step takes at
least one character, so that the length of the text bounds their number. -/
def fillFrom (args : List String) : Nat → Nat → Bool → List Char → List Char
  | 0, next, reordered, _ => if reordered then [] else leftover (args.drop next)
  | _ + 1, next, reordered, [] => if reordered then [] else leftover (args.drop next)
  | steps + 1, next, reordered, c :: rest =>
    if c = '%' then
      let p := Place.read args.length { argument := next, reordered := reordered, rest := rest }
      p.notice ++
        match p.rest with
        | [] =>
          "%!(NOVERB)".toList ++ if p.reordered then [] else leftover (args.drop p.argument)
        | kind :: rest =>
          if kind = '%' then '%' :: fillFrom args steps p.argument p.reordered rest
          else if p.valid = false then
            fault kind "BADINDEX" ++ fillFrom args steps p.argument p.reordered rest
          else
            match args[p.argument]? with
            | none => fault kind "MISSING" ++ fillFrom args steps p.argument p.reordered rest
            | some text =>
              argument kind p.layout text ++
                fillFrom args steps (p.argument + 1) p.reordered rest
    else
      c :: fillFrom args steps next reordered rest

/-- A template with arguments in its places. -/
def fill (template : String) (args : List String) : String :=
  let text := template.toList
  String.ofList (fillFrom args text.length 0 false text)

end MkCompiler.Template
