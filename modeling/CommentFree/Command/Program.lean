import CommentFree.Command.Line

/-!
# The program

From the words of a command line to an exit code.  A command that fails tells why on the standard
error and ends with code 1; a command line that is not understood ends with code 2.
-/

namespace CommentFree

def versionText : String := "decomment 0.1.0\n"

def helpText : String :=
  "Remove comments from source files\n\n" ++
  "Usage: decomment <COMMAND>\n\n" ++
  "Commands:\n" ++
  "  greet [NAME]                  Print a greeting\n" ++
  "  strip [-y] [--config CONFIG] [--color COLOR] FILE\n" ++
  "                                Strip comments from a source file\n" ++
  "  languages [--config CONFIG]   List supported languages and their extensions\n" ++
  "  help [COMMAND]                Print this message\n\n" ++
  "Options:\n" ++
  "  -y, --yes      Replace the file without asking\n" ++
  "      --config   Configuration file (defaults to ./decomment.toml when present)\n" ++
  "      --color    When to color the diff: auto, always or never\n" ++
  "  -h, --help     Print help\n" ++
  "  -V, --version  Print version\n"

/-- what is said about a command line that is not understood -/
def Rejection.message : Rejection → String
  | help => helpText
  | version => versionText
  | noCommand => helpText
  | unknownCommand => "error: unrecognized subcommand\n"
  | unknownArgument => "error: unexpected argument found\n"
  | repeated => "error: an argument cannot be used multiple times\n"
  | valueOfSwitch => "error: unexpected value for an argument\n"
  | missingFile => "error: the required argument <FILE> was not provided\n"
  | badValue => "error: invalid value for an argument\n"
  | notText => "error: invalid UTF-8 was detected in an argument\n"

structure Exit where
  code : Nat
  /-- what goes to the standard error -/
  complaint : String
  deriving DecidableEq

variable {m : Type → Type} [Monad m] [Host m]

/-- answers a command line that asks for no command; what the output refuses is lost -/
def Rejection.answer (r : Rejection) : m Exit := do
  if r.code = 0 then
    let _ ← (Host.print (m := m) r.message).run
    return ⟨0, ""⟩
  else return ⟨r.code, r.message⟩

/-- runs the program on a command line -/
def program (args : List Word) : m Exit := do
  match Command.parse args with
  | .error r => r.answer
  | .ok command =>
    match ← command.run.run with
    | .ok () => return ⟨0, ""⟩
    | .error f => return ⟨1, "Error: " ++ f.display ++ "\n"⟩

end CommentFree
