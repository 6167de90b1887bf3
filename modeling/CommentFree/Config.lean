import CommentFree.Failure
import CommentFree.Language

/-!
# Configuration

What a user can set: the suffix of the stripped copy, the number of unchanged lines shown around a
change, and further languages, which come after the built-in ones.  A configuration is accepted
only if it has a suffix and every language could strip something.
-/

namespace CommentFree

/-- the settings of the strip workflow -/
structure Config where
  /-- goes into the name of the stripped copy -/
  outputSuffix : String
  /-- unchanged lines shown around each change -/
  contextLines : Nat
  /-- consulted after the built-in languages -/
  languages : List Language
  deriving DecidableEq

namespace Config

/-- the settings without a configuration file -/
def default : Config := ⟨"_1", 3, []⟩

instance : Inhabited Config := ⟨default⟩

/-- the configuration file looked for when none is named -/
def defaultFile : Path := ⟨"decomment.toml"⟩

/-- all languages, the built-in ones first -/
def registry (c : Config) : List Language := Language.builtin ++ c.languages

/-! ## validation -/

/-- why a configuration is refused -/
inductive Defect where
  | emptySuffix
  | noExtension (language : String)
  | halfBlock (language : String)
  | noDelimiter (language : String)
  deriving DecidableEq

def Defect.message : Defect → String
  | emptySuffix => "output_suffix must not be empty"
  | noExtension name => "language '" ++ name ++ "' needs at least one extension"
  | halfBlock name => "language '" ++ name ++ "' must set both multi_start and multi_end, or neither"
  | noDelimiter name => "language '" ++ name ++ "' defines no comment delimiters"

def dotsOnly (ext : String) : Bool := ext.toList.all (· = '.')

def languageDefect? (l : Language) : Option Defect :=
  if l.extensions.all dotsOnly then some (.noExtension l.name)
  else if (l.blockStart = "") ≠ (l.blockEnd = "") then some (.halfBlock l.name)
  else if l.lineMark = "" ∧ l.blockStart = "" then some (.noDelimiter l.name)
  else none

def defect? (c : Config) : Option Defect :=
  if c.outputSuffix = "" then some .emptySuffix else c.languages.findSome? languageDefect?

def normalized (c : Config) : Config := { c with languages := c.languages.map Language.normalized }

/-- refuses a defective configuration and normalises any other -/
def accept (c : Config) : Except Defect Config :=
  match c.defect? with
  | some d => .error d
  | none => .ok c.normalized

end Config

end CommentFree
