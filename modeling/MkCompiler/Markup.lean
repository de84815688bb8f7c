import MkCompiler.Numeral.Real
import MkCompiler.Text.Letter
import MkCompiler.Text.Search

/-!
# Markup for terminals

Text on a terminal is styled by codes between a start sequence and a reset. In a message a style can
be asked for by markup: `<style>text</>`, where the style is a name, or a list of attributes such as
`fg=white;bg=blue;op=bold`. Markup with an unknown style stays as it is.
-/

namespace MkCompiler.Markup

/-- The sequence that starts a style. -/
def start (code : String) : String :=
  "\x1b[" ++ code ++ "m"

/-- The sequence that ends all styles. -/
def reset : String := start "0"

def styled (code text : String) : String :=
  start code ++ text ++ reset

/-- Starts a style again wherever another one ends inside a text. -/
def resume (code text : String) : String :=
  (start code).intercalate (text.splitOn reset)

/-- The styles that have a name. -/
def styles : List (String × String) := [
  ("red", "0;31"), ("red1", "1;31"), ("redB", "1;31"), ("red_b", "1;31"),
  ("blue", "0;34"), ("blue1", "1;34"), ("blueB", "1;34"), ("blue_b", "1;34"),
  ("cyan", "0;36"), ("cyan1", "1;36"), ("cyanB", "1;36"), ("cyan_b", "1;36"),
  ("green", "0;32"), ("green1", "1;32"), ("greenB", "1;32"), ("green_b", "1;32"),
  ("black", "0;30"), ("white", "1;37"), ("default", "0;39"), ("normal", "0;39"),
  ("brown", "0;33"), ("yellow", "0;33"), ("ylw0", "0;33"), ("yellowB", "1;33"), ("ylw1", "1;33"),
  ("ylwB", "1;33"), ("magenta", "0;35"), ("mga", "0;35"), ("magentaB", "1;35"),
  ("magenta1", "1;35"), ("mgb", "1;35"), ("mga1", "1;35"), ("mgaB", "1;35"),
  ("gray", "0;90"), ("darkGray", "0;90"), ("dark_gray", "0;90"),
  ("lightYellow", "0;93"), ("light_yellow", "0;93"), ("hiYellow", "0;93"), ("hi_yellow", "0;93"),
  ("hiYellowB", "1;93"), ("hi_yellow_b", "1;93"),
  ("lightMagenta", "0;95"), ("light_magenta", "0;95"), ("hiMagenta", "0;95"),
  ("hi_magenta", "0;95"), ("lightMagentaB", "1;95"), ("hiMagentaB", "1;95"),
  ("hi_magenta_b", "1;95"),
  ("lightRed", "0;91"), ("light_red", "0;91"), ("hiRed", "0;91"), ("hi_red", "0;91"),
  ("lightRedB", "1;91"), ("light_red_b", "1;91"), ("hi_red_b", "1;91"),
  ("lightGreen", "0;92"), ("light_green", "0;92"), ("hiGreen", "0;92"), ("hi_green", "0;92"),
  ("lightGreenB", "1;92"), ("light_green_b", "1;92"), ("hi_green_b", "1;92"),
  ("lightBlue", "0;94"), ("light_blue", "0;94"), ("hiBlue", "0;94"), ("hi_blue", "0;94"),
  ("lightBlueB", "1;94"), ("light_blue_b", "1;94"), ("hi_blue_b", "1;94"),
  ("lightCyan", "0;96"), ("light_cyan", "0;96"), ("hiCyan", "0;96"), ("hi_cyan", "0;96"),
  ("lightCyanB", "1;96"), ("light_cyan_b", "1;96"), ("hi_cyan_b", "1;96"),
  ("lightWhite", "0;97;40"), ("light_white", "0;97;40"),
  ("bold", "1"), ("b", "1"), ("italic", "3"), ("i", "3"), ("underscore", "4"), ("us", "4"),
  ("blink", "5"), ("fb", "6"), ("reverse", "7"), ("st", "9"),
  ("suc", "1;32"), ("success", "1;32"), ("info", "0;32"), ("comment", "0;33"), ("note", "36;1"),
  ("notice", "36;4"), ("warn", "0;1;33"), ("warning", "0;30;43"), ("primary", "0;34"),
  ("danger", "1;31"), ("err", "97;41"), ("error", "97;41")]

/-- The colours that have a name, as offsets from the code of black. -/
def colours : List (String × Nat) := [
  ("black", 0), ("red", 1), ("green", 2), ("yellow", 3), ("blue", 4), ("magenta", 5), ("cyan", 6),
  ("white", 7), ("default", 9), ("darkGray", 60), ("lightRed", 61), ("lightGreen", 62),
  ("lightYellow", 63), ("lightBlue", 64), ("lightMagenta", 65), ("lightCyan", 66),
  ("lightWhite", 67)]

def options : List (String × Nat) := [
  ("reset", 0), ("bold", 1), ("fuzzy", 2), ("italic", 3), ("underscore", 4), ("blink", 5),
  ("reverse", 7), ("concealed", 8)]

/-- What an attribute sets. -/
inductive Property where
  | foreground
  | background
  | option
  deriving DecidableEq, Repr

/-- The property that two letters stand for. -/
def Property.ofLetters? : Char → Char → Option Property
  | 'f', 'g' => some foreground
  | 'b', 'g' => some background
  | 'o', 'p' => some option
  | _, _ => none

/-- The code of a colour: its name, six hexadecimal digits, its parts with commas between them, or
its number in a palette. `black` is the code of black. -/
def colourCode? (black : Nat) (value : List Char) : Option String :=
  let mixed (parts : List String) : String := toString (black + 8) ++ ";2;" ++ ";".intercalate parts
  match colours.lookup (String.ofList value) with
  | some offset => some (toString (black + offset))
  | none =>
    if value.length = 6 ∧ value.all Numeral.isHexDigit then
      some (mixed [toString (Numeral.hexValue (value.take 2)),
        toString (Numeral.hexValue ((value.drop 2).take 2)),
        toString (Numeral.hexValue (value.drop 4))])
    else if value.contains ',' then
      some (mixed ((String.ofList value).splitOn ","))
    else if value.length < 4 ∧ value.all Numeral.isDigit then
      some (toString (black + 8) ++ ";5;" ++ String.ofList value)
    else
      none

/-- The codes of an attribute. Only an option can have several values. -/
def Property.codes (value : List Char) : Property → List String
  | foreground => (colourCode? 30 value).toList
  | background => (colourCode? 40 value).toList
  | option =>
    ((String.ofList value).splitOn ",").filterMap fun name => (options.lookup name).map toString

def isValueChar (c : Char) : Bool :=
  Numeral.isDigit c || Text.isLetter c || c = ','

/-- The codes of the attributes in a text. What is no attribute is passed over. Every step takes at
least one character, so that the length of the text bounds their number. -/
def attributeCodes : Nat → List Char → List String
  | 0, _ => []
  | steps + 1, text =>
    match text with
    | a :: b :: '=' :: c :: rest =>
      match (if isValueChar c then Property.ofLetters? a b else none) with
      | some property =>
        property.codes ((c :: rest).takeWhile isValueChar) ++
          attributeCodes steps (rest.dropWhile isValueChar)
      | none => attributeCodes steps (text.drop 1)
    | _ => if text = [] then [] else attributeCodes steps (text.drop 1)

/-- Drops the separators at the end of a list of attributes. -/
def dropSeparators (text : List Char) : List Char :=
  (text.reverse.dropWhile fun c => c = ';' || c = '=' || c = ',').reverse

/-- The code of a style, if there is such a style. -/
def code? (style : List Char) : Option String :=
  if style.contains '=' then
    match attributeCodes style.length (dropSeparators style) with
    | [] => none
    | codes => some (";".intercalate codes)
  else
    styles.lookup (String.ofList style)

def isStyleChar (c : Char) : Bool :=
  Numeral.isDigit c || Text.isLetter c || c = '_' || c = '=' || c = ',' || c = ';'

/-- A text in markup. -/
structure Span where
  style : List Char
  body : List Char
  deriving DecidableEq, Repr

namespace Span

def closing : List Char := "</>".toList

/-- The markup of a span. -/
def source (s : Span) : List Char :=
  '<' :: s.style ++ '>' :: s.body ++ closing

/-- The body of a span in a style. An empty body needs none. -/
def inStyle (code : String) (s : Span) : List Char :=
  if s.body = [] then [] else (styled code (String.ofList s.body)).toList

/-- Reads the span at the start of a text, behind its opening bracket. It ends at the first closing
mark. -/
def read? (text : List Char) : Option (Span × List Char) :=
  let style := text.takeWhile isStyleChar
  match text.dropWhile isStyleChar with
  | '>' :: rest =>
    if style = [] then none
    else (Text.cut? closing rest).map fun r => (⟨style, r.1⟩, r.2)
  | _ => none

end Span

/-- The spans in a text, one behind the other. Every step takes at least one character, so that the
length of the text bounds their number. -/
def spans : Nat → List Char → List Span
  | 0, _ => []
  | _ + 1, [] => []
  | steps + 1, c :: rest =>
    match (if c = '<' then Span.read? rest else none) with
    | some (span, behind) => span :: spans steps behind
    | none => spans steps rest

/-- Replaces the markup of the spans of a text in turn, each where it first stands. -/
def render (text : String) : String :=
  let chars := text.toList
  String.ofList ((spans chars.length chars).foldl
    (fun t span =>
      match code? span.style with
      | some code => Text.replaceFirst span.source (span.inStyle code) t
      | none => t)
    chars)

end MkCompiler.Markup
