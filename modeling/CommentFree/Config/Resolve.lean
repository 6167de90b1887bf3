import CommentFree.Config.Document
import CommentFree.Host

/-!
# Finding the configuration

A configuration file that is named must be there and be accepted.  Without one the default file is
used if it exists, and the default settings if not.
-/

namespace CommentFree.Config

variable {m : Type → Type} [Monad m] [Host m]

def load (path : Path) : ExceptT Failure m Config := do
  let document ← readText path
  inContext ("Failed to load config from " ++ path.text) (ExceptT.mk (pure (ofDocument document)))

/-- the configuration of a run, by the file named for it -/
def resolve : Option Path → ExceptT Failure m Config
  | some path => load path
  | none => do
    if ← ExceptT.lift (Host.fileExists (m := m) defaultFile) then load defaultFile
    else return default

end CommentFree.Config
