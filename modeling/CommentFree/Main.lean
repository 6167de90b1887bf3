import CommentFree.Command.Program

/-!
# The command line

Runs the program on the machine: files are those of the file system, relative to the working
directory, and texts go through the standard streams.
-/

namespace CommentFree

abbrev Machine := ReaderT String IO

namespace Machine

def errorNumber : IO.Error → Option UInt32
  | .noFileOrDirectory _ n _ | .permissionDenied _ n _ | .inappropriateType _ n _
  | .alreadyExists _ n _ | .resourceBusy n _ | .resourceExhausted _ n _
  | .invalidArgument _ n _ | .unsatisfiedConstraints n _ | .otherError n _ => some n
  | _ => none

/-- a system error as the program tells it -/
def ioError (e : IO.Error) : IoError :=
  match (errorNumber e).bind fun n => Errno.ofNumber? n.toNat with
  | some errno => .system errno
  | none => .described .other (toString e)

def attempt {α : Type} (path : String) (x : IO α) : ExceptT Failure Machine α :=
  ExceptT.mk do
    match ← (x.toBaseIO : BaseIO _) with
    | .ok a => return .ok a
    | .error e => return .error (.file path (ioError e))

def place (p : Path) : ExceptT Failure Machine String := return p.under (← read)

/-- the bytes of an open file, if reading it does not break off -/
def contents (h : IO.FS.Handle) : IO (Except IoError (List UInt8)) := do
  match ← h.readBinToEnd.toBaseIO with
  | .ok bytes => return .ok bytes.toList
  | .error e => return .error (ioError e)

def load (p : Path) : ExceptT Failure Machine (Except IoError (List UInt8)) := do
  let full ← place p
  attempt full (do contents (← IO.FS.Handle.mk full .read))

def create (p : Path) (content : List UInt8) : ExceptT Failure Machine Unit := do
  let full ← place p
  attempt full (IO.FS.writeBinFile full ⟨content.toArray⟩)

def remove (p : Path) : ExceptT Failure Machine Unit := do
  let full ← place p
  attempt full (IO.FS.removeFile full)

def rename (source target : Path) : ExceptT Failure Machine Unit := do
  let old ← place source
  let new ← place target
  attempt old (IO.FS.rename old new)

def fileExists (p : Path) : Machine Bool := do
  match ← (load p).run with
  | .ok (.ok _) => return true
  | _ => return false

def print (text : String) : ExceptT Failure Machine Unit :=
  attempt "<stdout>" do
    let out ← IO.getStdout
    out.putStr text
    out.flush

/-- bytes of a stream up to a line end, which counts; `done` has the last one first -/
partial def lineBytes (input : IO.FS.Stream) (done : List UInt8) : IO (List UInt8) := do
  match (← input.read 1).toList with
  | [] => return done.reverse
  | b :: _ =>
    if b = '\n'.toUInt8 then return (b :: done).reverse else lineBytes input (b :: done)

def readLine : ExceptT Failure Machine (Option String) := do
  let line ← attempt "<stdin>" (do lineBytes (← IO.getStdin) [])
  ExceptT.mk (pure (lineOf line))

instance : Host Machine where
  fileExists := fileExists
  load := load
  create := create
  remove := remove
  rename := rename
  print := print
  readLine := readLine
  showsColor := do (← IO.getStdout).isTty

end Machine

end CommentFree

open CommentFree in
def main (args : List String) : IO UInt32 := do
  let base := (← IO.currentDir).toString
  let exit ← (program (m := Machine) (args.map Utf8.ofString)).run base
  (← IO.getStderr).putStr exit.complaint
  return exit.code.toUInt32
