/-!
# Paths

A path is a text with slashes between its parts. The functions here look at the text alone.
-/

namespace MkCompiler.Path

/-- What stands behind the last slash. -/
def baseName (path : String) : List Char :=
  (path.toList.reverse.takeWhile (· ≠ '/')).reverse

/-- What stands in front of the base name, with the slash. -/
def directory (path : String) : List Char :=
  (path.toList.reverse.dropWhile (· ≠ '/')).reverse

/-- The base name from its last dot on, or nothing if it has no dot. -/
def extension (path : String) : String :=
  let name := baseName path
  if name.contains '.' then
    String.ofList ('.' :: (name.reverse.takeWhile (· ≠ '.')).reverse)
  else
    ""

/-- Adds a part to the parts of a path, the last one first. A part that leads upwards removes the
one before it; the root has nothing above it. -/
def addPart (rooted : Bool) (parts : List String) (part : String) : List String :=
  if part = "" ∨ part = "." then parts
  else if part = ".." then
    match parts with
    | [] => if rooted then [] else [".."]
    | last :: rest => if last = ".." then ".." :: parts else rest
  else part :: parts

/-- The shortest path with the same meaning, as far as the text tells. -/
def clean (path : String) : String :=
  let rooted := path.toList.head? = some '/'
  let parts := ((path.splitOn "/").foldl (addPart rooted) []).reverse
  let joined := "/".intercalate parts
  if rooted then "/" ++ joined else if parts = [] then "." else joined

/-- The path of a file in the directory of another one. -/
def sibling (path name : String) : String :=
  clean (String.ofList (directory path) ++ name)

end MkCompiler.Path
