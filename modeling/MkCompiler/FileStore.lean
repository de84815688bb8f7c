/-!
# Files

Programs that read and write files do so through a file store, so that they do not depend on where
the files are. A file tree is such a store: a working directory with all that is in it.
-/

namespace MkCompiler

/-- Why a file cannot be read or written. -/
inductive FileError where
  | notFound
  | isDirectory
  | notDirectory
  /-- The path, or a name in it, is longer than the system allows. -/
  | tooLong
  /-- The path holds a null character. -/
  | invalidPath
  | other (text : String)
  deriving DecidableEq, Repr

namespace FileError

def text : FileError → String
  | notFound => "no such file or directory"
  | isDirectory => "is a directory"
  | notDirectory => "not a directory"
  | tooLong => "file name too long"
  | invalidPath => "invalid argument"
  | other text => text

/-- Whether an error says that there is no file at a path. -/
def isAbsence : FileError → Bool
  | notFound => true
  | notDirectory => true
  | tooLong => true
  | invalidPath => true
  | _ => false

/-- The wording of an error met when a file is read. A directory can be opened, but not read. -/
def readMessage (path : String) (e : FileError) : String :=
  (if e = isDirectory then "read " else "open ") ++ path ++ ": " ++ e.text

/-- The wording of an error met when a file is written. -/
def writeMessage (path : String) (e : FileError) : String :=
  "open " ++ path ++ ": " ++ e.text

end FileError

class FileStore (m : Type → Type) where
  read : String → m (Except FileError String)
  write : String → String → m (Except FileError Unit)

/-- The longest name of a file, in bytes. -/
def nameLimit : Nat := 255

/-- The longest path, in bytes. -/
def pathLimit : Nat := 4095

/-- Refuses a path that no file can have. -/
def checkPath (path : String) : Except FileError Unit :=
  if path.toList.contains (Char.ofNat 0) then .error .invalidPath
  else if path = "" then .error .notFound
  else if pathLimit < path.utf8ByteSize then .error .tooLong
  else .ok ()

/-- What a name in a directory stands for. -/
inductive FileTree.Entry where
  | directory
  | file (text : String)
  deriving DecidableEq, Repr

/-- The entries of a working directory, each under the parts of its path. -/
structure FileTree where
  entries : List (List String × FileTree.Entry) := []
  deriving Repr

namespace FileTree

/-- The entry at a location. The directories above the working directory and the root, of which
nothing else is known, are directories. -/
def entry? (t : FileTree) (location : List String) : Option Entry :=
  if location.all fun part => part = ".." || part = "/" then some .directory
  else t.entries.lookup location

def put (t : FileTree) (location : List String) (e : Entry) : FileTree :=
  ⟨t.entries.filter (fun old => old.1 ≠ location) ++ [(location, e)]⟩

/-- Fails unless there is a directory at a location. -/
def enter (t : FileTree) (location : List String) : Except FileError Unit :=
  match t.entry? location with
  | some .directory => .ok ()
  | some (.file _) => .error .notDirectory
  | none => .error .notFound

/-- Refuses a name that no file can have. -/
def checkName (name : String) : Except FileError Unit :=
  if nameLimit < name.utf8ByteSize then .error .tooLong else .ok ()

/-- The location one part of a path further. -/
def step (location : List String) (part : String) : List String :=
  if part = "" ∨ part = "." then location
  else if part = ".." ∧ ¬(location.all fun part => part = ".." || part = "/") then location.dropLast
  else location ++ [part]

/-- Follows the parts of a path. Every part but the last has to lead to a directory. -/
def walk (t : FileTree) : List String → List String → Except FileError (List String)
  | location, [] => .ok location
  | location, part :: rest =>
    match (t.enter location).bind fun _ => checkName part with
    | .ok () => walk t (step location part) rest
    | .error e => .error e

/-- Where a path starts. -/
def start (path : String) : List String :=
  if path.toList.head? = some '/' then ["/"] else []

def read (t : FileTree) (path : String) : Except FileError String := do
  checkPath path
  let location ← t.walk (start path) (path.splitOn "/")
  match t.entry? location with
  | some (.file text) => return text
  | some .directory => throw .isDirectory
  | none => throw .notFound

/-- Writes a file, which is created if it does not exist. Its directory has to exist. -/
def write (t : FileTree) (path text : String) : Except FileError FileTree := do
  checkPath path
  let parts := path.splitOn "/"
  let named := (parts.reverse.dropWhile (· = "")).reverse
  let parent ← t.walk (start path) named.dropLast
  t.enter parent
  let name := named.getLast?.getD "."
  if named ≠ parts ∨ name = "." ∨ name = ".." then
    throw .isDirectory
  checkName name
  match t.entry? (parent ++ [name]) with
  | some .directory => throw .isDirectory
  | _ => return t.put (parent ++ [name]) (.file text)

/-- Adds a directory and those it is in. -/
def addDirectory (t : FileTree) (path : String) : FileTree :=
  let parts := (path.splitOn "/").filter (· ≠ "")
  (List.range parts.length).foldl
    (fun t n => if (t.entry? (parts.take (n + 1))).isSome then t
      else t.put (parts.take (n + 1)) .directory) t

/-- Adds a file and the directories it is in. -/
def addFile (t : FileTree) (path text : String) : FileTree :=
  let parts := (path.splitOn "/").filter (· ≠ "")
  (t.addDirectory ("/".intercalate parts.dropLast)).put parts (.file text)

/-- The files that are new or have changed since an earlier tree. -/
def changesSince (old new : FileTree) : List (String × String) :=
  new.entries.filterMap fun
    | (location, .file text) =>
      if old.entry? location = some (.file text) then none
      else some ("/".intercalate location, text)
    | (_, .directory) => none

end FileTree

instance : FileStore (StateM FileTree) where
  read path := do
    return (← get).read path
  write path text := do
    match (← get).write path text with
    | .ok t =>
      set t
      return .ok ()
    | .error e => return .error e

end MkCompiler
