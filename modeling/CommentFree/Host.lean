import CommentFree.Failure
import CommentFree.Path
import CommentFree.Text.Utf8

/-!
# Hosts

What the program needs from the world around it: files named by paths, a text output and lines of
input.  The workflows are written against this interface alone, so they run on the file system of
the machine as well as on the models of it in `CommentFree.Host.Memory` and `CommentFree.Host.Disk`.
-/

namespace CommentFree

/-- the operations of a host, in a monad that holds its state -/
class Host (m : Type → Type) where
  /-- whether a file (not a directory) is at the path -/
  fileExists : Path → m Bool
  /-- opens a file and reads it.  Failing to open is a failure of the host; if reading breaks off
  later the caller is told why. -/
  load : Path → ExceptT Failure m (Except IoError (List UInt8))
  /-- writes a file, in the place of any file that is there -/
  create : Path → List UInt8 → ExceptT Failure m Unit
  remove : Path → ExceptT Failure m Unit
  /-- moves a file, in the place of any file that is at the second path -/
  rename : Path → Path → ExceptT Failure m Unit
  /-- writes to the standard output, at once -/
  print : String → ExceptT Failure m Unit
  /-- a line of the standard input without its terminator, or nothing at its end -/
  readLine : ExceptT Failure m (Option String)
  /-- whether the standard output shows colours -/
  showsColor : m Bool

variable {m : Type → Type} [Monad m]

/-- notes the context in which a failure was met -/
def inContext {α : Type} (context : String) (x : ExceptT Failure m α) : ExceptT Failure m α :=
  x.adapt (·.withContext context)

def readBytes [Host m] (path : Path) : ExceptT Failure m (List UInt8) := do
  match ← Host.load path with
  | .ok bytes => return bytes
  | .error e => throw (.file path.text e)

/-- the text of a file, which has to be well-formed -/
def readText [Host m] (path : Path) : ExceptT Failure m String := do
  match Utf8.decode? (← readBytes path) with
  | some text => return text
  | none => throw (.message ("File is not valid UTF-8: " ++ path.text))

/-! ## lines of input -/

/-- a line without the marks at its end -/
def trimEnd (line : List Char) : List Char :=
  (line.reverse.dropWhile fun c => c = '\r' ∨ c = '\n').reverse

/-- the line of input that bytes stand for, which have to be well-formed; no bytes are the end of
the input -/
def lineOf (bytes : List UInt8) : Except Failure (Option String) :=
  if bytes = [] then .ok none
  else match Utf8.decode? bytes with
    | some text => .ok (some (String.ofList (trimEnd text.toList)))
    | none =>
      .error (.file "<stdin>" (.described .invalidData "stream did not contain valid UTF-8"))

end CommentFree
