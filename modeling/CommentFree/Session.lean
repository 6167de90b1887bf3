import CommentFree.Config
import CommentFree.Diff.Color
import CommentFree.Diff.Unified
import CommentFree.Host
import CommentFree.Scan
import CommentFree.Text.Blank

/-!
# Strip sessions

A session takes one file from source to decision: its language is detected, the text without
comments is written to a copy beside it, the difference is shown, and the user is asked whether to
replace the file.  Accepting renames the copy over the file, so that the file is never missing;
declining removes the copy.  A file without comments gets no copy.
-/

namespace CommentFree

/-- how a session ended -/
inductive Report where
  /-- the file now holds the stripped text -/
  | replaced (path : Path) (removed : Nat)
  /-- the copy was removed again -/
  | discarded (copy : Path)
  /-- there was nothing to strip -/
  | noComments
  deriving DecidableEq

/-- how a session is to be run -/
structure StripOptions where
  /-- replace without asking -/
  assumeYes : Bool
  color : Diff.ColorMode
  deriving DecidableEq

/-- reads the answer to the question: an empty line means yes, the end of the input no, and
anything else is told by its first character that is not blank -/
def acceptsReplacement : Option String → Bool
  | none => false
  | some line =>
    match line.toList.dropWhile isBlank with
    | [] => true
    | c :: _ => c = 'y' || c = 'Y'

def replaceQuestion : String := "\nReplace original file? [Y/n] "

variable {m : Type → Type} [Monad m] [Host m]

/-- whether the file is to be replaced: by option, or by asking -/
def decideReplacement (options : StripOptions) : ExceptT Failure m Bool := do
  if options.assumeYes then return true
  Host.print replaceQuestion
  return acceptsReplacement (← Host.readLine)

/-- puts the copy in the place of the file, or removes it -/
def concludeSession (path copy : Path) (removed : Nat) (accepted : Bool) :
    ExceptT Failure m Report := do
  if accepted then
    inContext "Error replacing original file" (Host.rename copy path)
    Host.print "File successfully replaced.\n"
    return .replaced path removed
  else
    inContext "Error removing temporary file" (Host.remove copy)
    Host.print ("Temporary file removed: " ++ copy.text ++ "\n")
    return .discarded copy

def showChange (config : Config) (color : Diff.ColorMode) (path copy : Path)
    (source stripped : String) : ExceptT Failure m Unit := do
  let diff := Diff.unified source stripped path.text copy.text config.contextLines
  let supported ← ExceptT.lift (Host.showsColor (m := m))
  Host.print (Diff.colorize supported color diff)

/-- runs a session for one file -/
def stripFile (config : Config) (path : Path) (options : StripOptions) :
    ExceptT Failure m Report := do
  let some language := Language.detect? config.registry path
    | throw (.of (.unsupported path.text))
  let source ← inContext "Error reading input file" (readText path)
  let stripped := strip source language
  if !stripped.found then
    Host.print "No comments found in the code.\n"
    return .noComments
  let copy := path.copyPath config.outputSuffix
  inContext "Error writing output file" (Host.create copy (Utf8.ofString stripped.text))
  showChange config options.color path copy source stripped.text
  concludeSession path copy stripped.removed (← decideReplacement options)

end CommentFree
