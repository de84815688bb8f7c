/-!
# Search in texts

The first place where a mark stands in a text, and replacement there.
-/

namespace MkCompiler.Text

/-- Cuts a text at the first place where a mark stands, into what is in front of the mark and what
is behind it. -/
def cut? (mark : List Char) : List Char → Option (List Char × List Char)
  | [] => none
  | c :: rest =>
    if mark.isPrefixOf (c :: rest) then some ([], (c :: rest).drop mark.length)
    else (cut? mark rest).map fun r => (c :: r.1, r.2)

/-- Replaces a mark at the first place where it stands. -/
def replaceFirst (mark replacement text : List Char) : List Char :=
  match cut? mark text with
  | some (front, behind) => front ++ replacement ++ behind
  | none => text

end MkCompiler.Text
