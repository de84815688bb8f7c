import MkCompiler.CommandLine
import MkCompiler.Text.Utf8

/-!
# The command `mkc`

The command line run on the files of the system.
-/

namespace MkCompiler

/-- The cause of an error of the operating system. An argument that it refuses is a path with a name
that is too long: what else is wrong with a path is found before. -/
def FileError.ofSystem : IO.Error → FileError
  | .noFileOrDirectory _ _ _ => .notFound
  | .inappropriateType _ _ details =>
    if details.toLower = "is a directory" then .isDirectory else .notDirectory
  | .invalidArgument _ _ _ => .tooLong
  | .permissionDenied _ _ details => .other details.toLower
  | e => .other (toString e)

/-- Runs an action on the file at a path. -/
def withPath {α : Type} (path : String) (action : IO α) : IO (Except FileError α) := do
  match checkPath path with
  | .error e => return .error e
  | .ok () =>
    try
      return .ok (← action)
    catch e =>
      return .error (.ofSystem e)

instance : FileStore IO where
  read path := withPath path do
    return Utf8.decode (← IO.FS.readBinFile path).toList
  write path text := withPath path (IO.FS.writeFile path text)

end MkCompiler

def main (args : List String) : IO UInt32 := do
  let outcome : MkCompiler.CommandLine.Outcome ← MkCompiler.CommandLine.execute args
  (← IO.getStderr).putStr outcome.log
  (← IO.getStdout).putStr outcome.out
  return outcome.status.toUInt32
