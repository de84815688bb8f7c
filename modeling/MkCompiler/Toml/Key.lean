import MkCompiler.Numeral.Real
import MkCompiler.Text.Letter

/-!
# Keys of configuration documents

A key is one part, or several parts with dots between them. A part is a bare word or stands in
quotes; what is in quotes is taken as it is.
-/

namespace MkCompiler.Toml

def isBlank (c : Char) : Bool :=
  c = ' ' || c = '\t'

/-- The characters of a bare key. -/
def isBare (c : Char) : Bool :=
  Numeral.isDigit c || Text.isLetter c || c = '_' || c = '-'

/-- Whether a dot may stand in front of a text. -/
def followsDot : List Char → Bool
  | c :: _ => isBare c || c = '\'' || c = '"' || c = ' '
  | [] => false

/-- Splits a key into its parts. Every step takes at least one character, so that the length of the
text bounds their number. -/
def splitKey : Nat → List Char → Option (List String)
  | 0, text => if text.all isBlank then some [] else none
  | steps + 1, text =>
    match text.dropWhile isBlank with
    | [] => some []
    | c :: rest =>
      if isBare c then
        let word := (c :: rest).takeWhile isBare
        let behind := (c :: rest).dropWhile isBare
        let next := behind.dropWhile isBlank
        match next with
        | [] => some [String.ofList word]
        | d :: _ => if d = '.' then (splitKey steps next).map (String.ofList word :: ·) else none
      else if c = '\'' ∨ c = '"' then
        match rest.dropWhile (· ≠ c) with
        | [] => none
        | _ :: behind =>
          (splitKey steps behind).map (String.ofList (rest.takeWhile (· ≠ c)) :: ·)
      else if c = '.' then
        if followsDot rest then splitKey steps rest else none
      else
        none

/-- The parts of a key. There is at least one. -/
def parseKey (text : List Char) : Option (List String) :=
  match splitKey text.length text with
  | some [] => none
  | parts => parts

end MkCompiler.Toml
