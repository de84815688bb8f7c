import MkCompiler.Text.Search
import MkCompiler.Toml.Key
import MkCompiler.Toml.Moment

/-!
# Tokens of configuration documents

A document is read in two modes: where a key or a table header can start, and where a value can
start. Open brackets decide in which mode the text behind a comma or a line break is read. Reading
stops at the first place where there is no token; what stands in front of it is read all the same.
-/

namespace MkCompiler.Toml

/-- A place in a document. Lines and columns count from one. -/
structure Position where
  line : Nat
  column : Nat
  deriving DecidableEq, Repr, Inhabited

inductive Token where
  | openBracket (at_ : Position)
  | closeBracket
  /-- The brackets around the key of an array of tables. -/
  | openDouble (at_ : Position)
  | closeDouble
  | tableKey (text : List Char)
  | tableArrayKey (text : List Char)
  | key (text : List Char) (at_ : Position)
  | equals
  | comma
  | openBrace
  | closeBrace
  | string (text : String)
  | boolean (value : Bool)
  | integer (text : List Char)
  | float (text : List Char)
  | nonFinite
  | date (text : List Char)
  | time (text : List Char)
  | offset (text : List Char)
  /-- The place where there is no token. It is the last one. -/
  | malformed
  deriving DecidableEq, Repr

inductive Bracket where
  | square
  | curly
  deriving DecidableEq, Repr

/-- The position behind a text that starts at a position. -/
def Position.advance (p : Position) (text : List Char) : Position :=
  text.foldl (fun p c => if c = '\n' then ⟨p.line + 1, 1⟩ else ⟨p.line, p.column + 1⟩) p

/-- The character with a code point; a code point that is none gives the replacement character. -/
def scalar (code : Nat) : Char :=
  if code < 0xd800 ∨ (0xe000 ≤ code ∧ code < 0x110000) then Char.ofNat code else '\ufffd'

/-- The character of an escape with a single letter. -/
def simpleEscape? : Char → Option Char
  | '"' => some '"'
  | 'n' => some '\n'
  | 'b' => some (Char.ofNat 8)
  | 'f' => some (Char.ofNat 12)
  | '/' => some '/'
  | 't' => some '\t'
  | 'r' => some '\r'
  | '\\' => some '\\'
  | _ => none

def isSpacing (c : Char) : Bool :=
  c = ' ' || c = '\t' || c = '\n' || c = '\r'

/-- Reads a text with escapes up to a terminator. The result is the text and what follows the
terminator. A backslash in front of spacing removes all of it; `skipping` is set in between. -/
def escapedText (terminator : List Char) (lineBreaks : Bool) :
    Bool → List Char → Option (List Char × List Char)
  | _, [] => none
  | skipping, c :: rest =>
    if skipping && isSpacing c then
      escapedText terminator lineBreaks true rest
    else if terminator.isPrefixOf (c :: rest) then
      some ([], (c :: rest).drop terminator.length)
    else if c = '\\' then
      match rest with
      | 'u' :: h₁ :: h₂ :: h₃ :: h₄ :: tail =>
        if [h₁, h₂, h₃, h₄].all Numeral.isHexDigit then
          (escapedText terminator lineBreaks false tail).map fun r =>
            (scalar (Numeral.hexValue [h₁, h₂, h₃, h₄]) :: r.1, r.2)
        else
          none
      | 'U' :: h₁ :: h₂ :: h₃ :: h₄ :: h₅ :: h₆ :: h₇ :: h₈ :: tail =>
        if [h₁, h₂, h₃, h₄, h₅, h₆, h₇, h₈].all Numeral.isHexDigit then
          (escapedText terminator lineBreaks false tail).map fun r =>
            (scalar (Numeral.hexValue [h₁, h₂, h₃, h₄, h₅, h₆, h₇, h₈]) :: r.1, r.2)
        else
          none
      | e :: tail =>
        if isSpacing e then
          escapedText terminator lineBreaks true tail
        else
          match simpleEscape? e with
          | some d => (escapedText terminator lineBreaks false tail).map fun r => (d :: r.1, r.2)
          | none => none
      | [] => none
    else if c.toNat < 0x20 ∧ c ≠ '\t' ∧ ¬(lineBreaks ∧ (c = '\n' ∨ c = '\r')) then
      none
    else
      (escapedText terminator lineBreaks false rest).map fun r => (c :: r.1, r.2)

/-- Drops a line break at the start of a text. -/
def dropLineBreak : List Char → List Char
  | '\r' :: '\n' :: rest => rest
  | '\n' :: rest => rest
  | text => text

/-- Reads the string that starts with the given quote, behind that quote. -/
def stringText (quote : Char) (text : List Char) : Option (List Char × List Char) :=
  let body (terminator text : List Char) (lineBreaks : Bool) :=
    if quote = '"' then escapedText terminator lineBreaks false text
    else Text.cut? terminator text
  match text with
  | a :: b :: rest =>
    if a = quote ∧ b = quote then body [quote, quote, quote] (dropLineBreak rest) true
    else body [quote] text false
  | _ => body [quote] text false

/-- Reads the text of a key. Quoted parts keep their quotes, but their escapes are resolved. Every
step takes at least one character, so that the length of the text bounds their number. -/
def keyText : Nat → List Char → Option (List Char × List Char)
  | 0, text => some ([], text)
  | _ + 1, [] => some ([], [])
  | steps + 1, c :: rest =>
    let continueWith (part behind : List Char) :=
      (keyText steps behind).map fun r => (part ++ r.1, r.2)
    if c = '=' then
      some ([], c :: rest)
    else if c = '"' ∨ c = '\'' then
      let quoted := if c = '"' then escapedText [c] true false rest else Text.cut? [c] rest
      match quoted with
      | some (part, behind) => continueWith (c :: part ++ [c]) behind
      | none => none
    else if isBlank c then
      match rest.dropWhile isBlank with
      | '.' :: behind =>
        continueWith (' ' :: rest.takeWhile isBlank ++ '.' :: behind.takeWhile isBlank)
          (behind.dropWhile isBlank)
      | behind => some ([], behind)
    else if c = '.' ∨ isBare c then
      continueWith [c] rest
    else
      none

/-- Reads the key of a table header and the brackets that close it, which may have no key between
them. -/
def headerTokens (text : List Char) : Option (List Token × List Char) :=
  let isKeyChar (c : Char) : Bool := c ≠ ']' && c ≠ '['
  let key := text.takeWhile isKeyChar
  match text.dropWhile isKeyChar with
  | ']' :: rest => some ((if key = [] then [] else [.tableKey key]) ++ [.closeBracket], rest)
  | _ => none

/-- Reads the key of the header of an array of tables and the brackets that close it. -/
def arrayHeaderTokens (text : List Char) : Option (List Token × List Char) :=
  let isKeyChar (c : Char) : Bool := c ≠ ']' && c ≠ '['
  match text.dropWhile isKeyChar with
  | ']' :: ']' :: rest => some ([.tableArrayKey (text.takeWhile isKeyChar), .closeDouble], rest)
  | _ => none

/-- Reads a number in the notation of a base, behind its mark. -/
def baseDigits? : Char → Option (Char → Bool)
  | 'x' => some fun c => Numeral.isHexDigit c || c = '_'
  | 'o' => some fun c => ('0'.toNat ≤ c.toNat && c.toNat ≤ '7'.toNat) || c = '_'
  | 'b' => some fun c => c = '0' || c = '1' || c = '_'
  | _ => none

/-- What has been seen of a decimal number. A sign may stand directly behind the mark of an
exponent. -/
structure NumberSeen where
  point : Bool := false
  exponent : Bool := false
  digit : Bool := false
  signAllowed : Bool := false

/-- Reads the rest of a decimal number. -/
def decimalText : NumberSeen → List Char → Option (NumberSeen × List Char × List Char)
  | seen, [] => some (seen, [], [])
  | seen, c :: rest =>
    let unsignable := { seen with signAllowed := false }
    let next? : Option NumberSeen :=
      if c = '.' then some { unsignable with point := true }
      else if c = 'e' ∨ c = 'E' then some { seen with exponent := true, signAllowed := true }
      else if Numeral.isDigit c then some { unsignable with digit := true }
      else if c = '_' then some unsignable
      else if (c = '+' ∨ c = '-') ∧ seen.signAllowed then some unsignable
      else none
    if c = '.' ∧ (seen.point || !seen.digit || !(rest.head?.any Numeral.isDigit)) then
      none
    else
      match next? with
      | some next => (decimalText next rest).map fun r => (r.1, c :: r.2.1, r.2.2)
      | none => some (seen, [], c :: rest)

/-- Reads a number without base. -/
def decimalToken (sign text : List Char) : Option (Token × List Char) :=
  match decimalText {} text with
  | some (seen, digits, rest) =>
    if seen.digit = false then none
    else if seen.point || seen.exponent then some (.float (sign ++ digits), rest)
    else some (.integer (sign ++ digits), rest)
  | none => none

def startsWith (word : String) (text : List Char) : Bool :=
  word.toList.isPrefixOf text

/-- Reads a number that starts with a digit. -/
def unsignedToken (text : List Char) : Option (Token × List Char) :=
  match text with
  | '0' :: mark :: rest =>
    match baseDigits? mark with
    | some digit =>
      let digits := rest.takeWhile digit
      if digits = [] then none else some (.integer ('0' :: mark :: digits), rest.dropWhile digit)
    | none => if Text.isLetter mark then none else decimalToken [] text
  | _ => decimalToken [] text

/-- Reads a number that starts with a sign. -/
def signedToken (sign : Char) (text : List Char) : Option (Token × List Char) :=
  if startsWith "inf" text || startsWith "nan" text then some (.nonFinite, text.drop 3)
  else decimalToken [sign] text

/-- Drops a comment up to the end of its line. -/
def dropComment : List Char → List Char
  | [] => []
  | '\r' :: '\n' :: rest => '\r' :: '\n' :: rest
  | '\n' :: rest => '\n' :: rest
  | _ :: rest => dropComment rest

/-- What is read at one place of a document: its tokens, whether a value can start behind them, the
brackets that are open then, and the text that follows. -/
structure Step where
  tokens : List Token := []
  atValue : Bool
  brackets : List Bracket
  rest : List Char

namespace Step

/-- The last step, behind which there is no token. -/
def stop (tokens : List Token) : Step :=
  ⟨tokens ++ [.malformed], false, [], []⟩

/-- A step that reads a token of a value. -/
def ofValue (brackets : List Bracket) : Option (Token × List Char) → Step
  | some (token, rest) => ⟨[token], true, brackets, rest⟩
  | none => stop []

/-- A step that reads a table header, behind the token that opens it. -/
def ofHeader (brackets : List Bracket) (opening : Token) : Option (List Token × List Char) → Step
  | some (tokens, rest) => ⟨opening :: tokens, false, brackets, rest⟩
  | none => stop [opening]

/-- A step that closes a bracket, which has to be the last one that was opened. -/
def ofClosing (brackets : List Bracket) (b : Bracket) (token : Token) (rest : List Char) : Step :=
  if brackets.head? = some b then ⟨[token], true, brackets.tail, rest⟩ else stop [token]

/-- A step that reads a date. A time can follow behind a `T` or a space. -/
def ofDate (brackets : List Bracket) : Option (List Char × List Char) → Step
  | none => stop []
  | some (d, []) => ⟨[.date d], true, brackets, []⟩
  | some (d, c :: rest) =>
    if c = ' ' ∧ ¬(rest.length ≥ 2 ∧ (rest.take 2).all Numeral.isDigit) then
      ⟨[.date d], true, brackets, c :: rest⟩
    else if c = ' ' ∨ c = 'T' then
      match time? rest with
      | none => stop [.date d]
      | some (t, rest) =>
        match offset? rest with
        | none => stop [.date d, .time t]
        | some ([], rest) => ⟨[.date d, .time t], true, brackets, rest⟩
        | some (o, rest) => ⟨[.date d, .time t, .offset o], true, brackets, rest⟩
    else
      stop [.date d]

/-- Reads a value that starts with a digit. -/
def ofDigit (brackets : List Bracket) (text : List Char) : Step :=
  let digits := text.takeWhile Numeral.isDigit
  let next := (text.dropWhile Numeral.isDigit).head?
  if digits.length = 2 ∧ next = some ':' then
    ofValue brackets ((time? text).map fun r => (.time r.1, r.2))
  else if digits.length = 4 ∧ next = some '-' then
    ofDate brackets (date? text)
  else
    ofValue brackets (unsignedToken text)

end Step

/-- Reads one token, or spacing, where a key can start. -/
def stepAtKey (brackets : List Bracket) (p : Position) : List Char → Step
  | [] => .stop []
  | c :: rest =>
    if c = '\n' ∨ c = '\r' ∨ isBlank c then ⟨[], false, brackets, rest⟩
    else if c = '#' then ⟨[], false, brackets, dropComment rest⟩
    else if c = '=' then ⟨[.equals], true, brackets, rest⟩
    else if c = '}' then .ofClosing brackets .curly .closeBrace rest
    else if c = '[' then
      match rest with
      | '[' :: rest => .ofHeader brackets (.openDouble p) (arrayHeaderTokens rest)
      | _ => .ofHeader brackets (.openBracket p) (headerTokens rest)
    else
      match keyText (rest.length + 1) (c :: rest) with
      | some (key, rest) => ⟨[.key key p], false, brackets, rest⟩
      | none => .stop []

/-- Reads one token, or spacing, where a value can start. -/
def stepAtValue (brackets : List Bracket) (p : Position) : List Char → Step
  | [] => .stop []
  | c :: rest =>
    if c = '=' then ⟨[.equals], true, brackets, rest⟩
    else if c = '[' then ⟨[.openBracket p], true, .square :: brackets, rest⟩
    else if c = ']' then .ofClosing brackets .square .closeBracket rest
    else if c = '{' then ⟨[.openBrace], false, .curly :: brackets, rest⟩
    else if c = '}' then .ofClosing brackets .curly .closeBrace rest
    else if c = '#' then ⟨[], true, brackets, dropComment rest⟩
    else if c = '"' ∨ c = '\'' then
      .ofValue brackets ((stringText c rest).map fun r => (.string (String.ofList r.1), r.2))
    else if c = ',' then ⟨[.comma], brackets.head? ≠ some .curly, brackets, rest⟩
    else if c = '\n' ∨ c = '\r' then ⟨[], brackets.head? = some .square, brackets, rest⟩
    else if startsWith "true" (c :: rest) then ⟨[.boolean true], true, brackets, rest.drop 3⟩
    else if startsWith "false" (c :: rest) then ⟨[.boolean false], true, brackets, rest.drop 4⟩
    else if startsWith "inf" (c :: rest) || startsWith "nan" (c :: rest) then
      ⟨[.nonFinite], true, brackets, rest.drop 2⟩
    else if isBlank c then ⟨[], true, brackets, rest⟩
    else if c = '+' ∨ c = '-' then .ofValue brackets (signedToken c rest)
    else if Numeral.isDigit c then .ofDigit brackets (c :: rest)
    else .stop []

/-- Reads the tokens of a text. Every step takes at least one character, so that the length of the
text bounds their number. -/
def tokensFrom : Nat → Bool → List Bracket → Position → List Char → List Token
  | _, _, _, _, [] => []
  | 0, _, _, _, _ :: _ => [.malformed]
  | steps + 1, atValue, brackets, p, c :: text =>
    let step := if atValue then stepAtValue brackets p (c :: text)
      else stepAtKey brackets p (c :: text)
    let read := (c :: text).take (text.length + 1 - step.rest.length)
    step.tokens ++ tokensFrom steps step.atValue step.brackets (p.advance read) step.rest

/-- The tokens of a document. A byte order mark in front of it is dropped. -/
def tokens (text : List Char) : List Token :=
  let text := if text.head? = some '\ufeff' then text.drop 1 else text
  tokensFrom text.length false [] ⟨1, 1⟩ text

end MkCompiler.Toml
