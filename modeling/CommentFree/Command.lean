import CommentFree.Config.Resolve
import CommentFree.Greeting
import CommentFree.Session

/-!
# Commands

What the program can be asked for.  Paths come from the command line as bytes, which need not be
text; they are turned into paths when the command runs.
-/

namespace CommentFree

/-- a request to the program -/
inductive Command where
  /-- prints a greeting -/
  | greet (name : String)
  /-- strips the comments of a file -/
  | strip (file : List UInt8) (config : Option (List UInt8)) (options : StripOptions)
  /-- lists the known languages -/
  | languages (config : Option (List UInt8))
  deriving DecidableEq

/-- a language with its extensions, on a line -/
def Language.entry (l : Language) : String := l.name ++ ": " ++ " ".intercalate l.extensions ++ "\n"

namespace Command

variable {m : Type → Type} [Monad m] [Host m]

def path (bytes : List UInt8) : ExceptT Failure m Path := ExceptT.mk (pure (Path.ofBytes bytes))

/-- the configuration for a command, by the bytes that name its file -/
def configuration (file : Option (List UInt8)) : ExceptT Failure m Config := do
  match file with
  | some bytes => Config.resolve (some (← path bytes))
  | none => Config.resolve none

/-- runs a command; the configuration is settled before the file to strip is looked at -/
def run : Command → ExceptT Failure m Unit
  | greet name => ExceptT.lift (CommentFree.greet name)
  | strip file config options => do
    let config ← configuration config
    let _ ← stripFile config (← path file) options
  | languages config => do
    let config ← configuration config
    Host.print (String.join (config.registry.map Language.entry))

end Command

end CommentFree
