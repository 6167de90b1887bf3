import CommentFree.Command

/-!
# Command lines

A command line is a list of words, each a list of bytes.  The first names the command; the others
are switches (`--yes`, `-y`), options with a value (`--config FILE`, `--config=FILE`) and at most
one word that stands for itself.  After the word `--` every word stands for itself.

The words are taken from left to right.  An option without an attached value waits for the next
word, and a value is looked at no sooner than the next argument: so a line with two faults is
refused for an argument that no command has, before a value that came earlier.

* `Form`             the arguments of a command;
* `Reading.words`    takes the words of a command in;
* `Command.parse`    from a command line to a command.
-/

namespace CommentFree

abbrev Word := List UInt8

/-- why a command line is not carried out; asking for help or for the version counts -/
inductive Rejection where
  | help
  | version
  /-- no command was given -/
  | noCommand
  | unknownCommand
  | unknownArgument
  /-- a switch or an option was given twice -/
  | repeated
  /-- a switch was given a value -/
  | valueOfSwitch
  | missingFile
  /-- a value is missing, empty, or none of those allowed -/
  | badValue
  /-- a value has to be text and is not -/
  | notText
  deriving DecidableEq

def Rejection.code : Rejection → Nat
  | help | version => 0
  | _ => 2

/-! ## words -/

/-- what a word can be before `--` -/
inductive Argument where
  /-- the word `--` -/
  | rest
  /-- two dashes and a name, and the value after an equals sign -/
  | long (name : Word) (value : Option Word)
  /-- a dash and letters -/
  | short (letters : Word)
  /-- any other word -/
  | plain
  deriving DecidableEq

/-- cuts a word at its first equals sign -/
def splitValue (w : Word) : Word × Option Word :=
  match w.span (· ≠ '='.toUInt8) with
  | (name, []) => (name, none)
  | (name, _ :: value) => (name, some value)

def Argument.ofWord (w : Word) : Argument :=
  match w with
  | [] | [_] => .plain
  | a :: b :: letters =>
    if a ≠ '-'.toUInt8 then .plain
    else if b ≠ '-'.toUInt8 then .short (b :: letters)
    else if letters = [] then .rest
    else .long (splitValue letters).1 (splitValue letters).2

/-! ## the arguments of commands -/

/-- an argument with a value -/
inductive Slot where
  | name
  | file
  | config
  | color
  deriving DecidableEq

/-- an argument without one -/
inductive Switch where
  | yes
  | help
  deriving DecidableEq

def Slot.longName : Slot → String
  | name => "name"
  | file => "file"
  | config => "config"
  | color => "color"

def Switch.longName : Switch → String
  | yes => "yes"
  | help => "help"

def Switch.letter : Switch → Char
  | yes => 'y'
  | help => 'h'

/-- the arguments of a command -/
structure Form where
  /-- the options -/
  options : List Slot
  switches : List Switch
  /-- what a word that stands for itself is -/
  positional : Option Slot

namespace Form

def greet : Form := ⟨[], [.help], some .name⟩
def strip : Form := ⟨[.config, .color], [.yes, .help], some .file⟩
def languages : Form := ⟨[.config], [.help], none⟩

def option? (f : Form) (name : Word) : Option Slot :=
  f.options.find? fun s => Utf8.ofString s.longName = name

def switch? (f : Form) (name : Word) : Option Switch :=
  f.switches.find? fun s => Utf8.ofString s.longName = name

def letter? (f : Form) (letter : UInt8) : Option Switch :=
  f.switches.find? fun s => s.letter.toUInt8 = letter

end Form

/-! ## reading -/

structure Given where
  name : Option String
  file : Option Word
  yes : Bool
  config : Option Word
  color : Option Diff.ColorMode
  deriving DecidableEq

def Given.nothing : Given := ⟨none, none, false, none, none⟩

def colorMode? (w : Word) : Option Diff.ColorMode :=
  if w = Utf8.ofString "auto" then some .auto
  else if w = Utf8.ofString "always" then some .always
  else if w = Utf8.ofString "never" then some .never
  else none

/-- the path of a word, which has to say something -/
def pathWord (w : Word) : Except Rejection Word := if w = [] then .error .badValue else .ok w

/-- gives an argument its value -/
def Given.put (g : Given) (slot : Slot) (w : Word) : Except Rejection Given :=
  match slot with
  | .name =>
    match Utf8.decode? w with
    | some text => .ok { g with name := some text }
    | none => .error .notText
  | .file => do return { g with file := some (← pathWord w) }
  | .config =>
    if g.config.isSome then .error .repeated
    else do return { g with config := some (← pathWord w) }
  | .color =>
    if g.color.isSome then .error .repeated
    else match colorMode? w with
      | some mode => .ok { g with color := some mode }
      | none => .error .badValue

/-- where the reading of a command's words stands -/
structure Reading where
  given : Given
  /-- an argument whose value is still to come, or was not looked at yet -/
  pending : Option (Slot × Option Word)
  /-- what the next word that stands for itself will be -/
  positional : Option Slot

namespace Reading

def start (f : Form) : Reading := ⟨.nothing, none, f.positional⟩

/-- looks at the value that is pending -/
def settle (r : Reading) : Except Rejection Reading :=
  match r.pending with
  | none => .ok r
  | some (_, none) => .error .badValue
  | some (slot, some w) => do return { r with given := ← r.given.put slot w, pending := none }

/-- takes in an option with the value attached to it, or waits for the value -/
def option (r : Reading) (slot : Slot) (value : Option Word) : Except Rejection Reading := do
  let r ← r.settle
  match value with
  | some w => return { r with given := ← r.given.put slot w }
  | none => return { r with pending := some (slot, none) }

def switch (r : Reading) (s : Switch) : Except Rejection Reading := do
  let r ← r.settle
  match s with
  | .help => .error .help
  | .yes => if r.given.yes then .error .repeated else return { r with given.yes := true }

def long (r : Reading) (f : Form) (name : Word) (value : Option Word) :
    Except Rejection Reading :=
  match f.option? name, f.switch? name with
  | some slot, _ => r.option slot value
  | none, some s => if value.isSome then .error .valueOfSwitch else r.switch s
  | none, none => .error .unknownArgument

def letter (f : Form) (r : Reading) (letter : UInt8) : Except Rejection Reading :=
  match f.letter? letter with
  | some s => r.switch s
  | none => .error .unknownArgument

def plain (r : Reading) (w : Word) : Except Rejection Reading :=
  match r.positional with
  | none => .error .unknownArgument
  | some slot => do return { ← r.settle with pending := some (slot, some w), positional := none }

/-- takes in a word that is no switch or option: an option may be waiting for it -/
def value (r : Reading) (w : Word) : Except Rejection Reading :=
  match r.pending with
  | some (slot, none) => .ok { r with pending := some (slot, some w) }
  | _ => r.plain w

def words (f : Form) (r : Reading) : List Word → Except Rejection Given
  | [] => do return (← r.settle).given
  | w :: ws =>
    match Argument.ofWord w with
    | .rest => do return (← (← ws.foldlM plain r).settle).given
    | .long name value => do words f (← r.long f name value) ws
    | .short letters => do words f (← letters.foldlM (letter f) r) ws
    | .plain => do words f (← r.value w) ws

end Reading

def Form.read (f : Form) (ws : List Word) : Except Rejection Given := (Reading.start f).words f ws

/-! ## commands -/

namespace Command

def defaultName : String := "World"

/-- the words that name commands; `help` explains one of them -/
def names : List String := ["greet", "strip", "languages", "help"]

def isName (w : Word) : Bool := names.any fun n => Utf8.ofString n = w

/-- help can be asked for with the name of a command, and nothing after it -/
def parseHelp : List Word → Rejection
  | [] => .help
  | [w] => if isName w then .help else .unknownCommand
  | _ => .unknownCommand

def parseNamed (name : Word) (ws : List Word) : Except Rejection Command :=
  if name = Utf8.ofString "greet" then do
    return .greet ((← Form.greet.read ws).name.getD defaultName)
  else if name = Utf8.ofString "strip" then do
    let g ← Form.strip.read ws
    match g.file with
    | some file => return .strip file g.config ⟨g.yes, g.color.getD .auto⟩
    | none => .error .missingFile
  else if name = Utf8.ofString "languages" then do
    return .languages (← Form.languages.read ws).config
  else if name = Utf8.ofString "help" then .error (parseHelp ws)
  else .error .unknownCommand

/-- what a switch before any command asks for -/
def parseLong (name : Word) (value : Option Word) : Rejection :=
  let asked : Option Rejection :=
    if name = Utf8.ofString "help" then some .help
    else if name = Utf8.ofString "version" then some .version
    else none
  match asked with
  | some r => if value.isSome then .valueOfSwitch else r
  | none => .unknownArgument

/-- what a letter before any command asks for -/
def parseLetter (letter : Option UInt8) : Rejection :=
  if letter = some 'h'.toUInt8 then .help
  else if letter = some 'V'.toUInt8 then .version
  else .unknownArgument

/-- after `--` no word is taken for a command: the name of one is out of place, and any other word
names none -/
def parseRest : List Word → Rejection
  | [] => .noCommand
  | w :: _ => if isName w then .unknownArgument else .unknownCommand

/-- the command of a command line -/
def parse : List Word → Except Rejection Command
  | [] => .error .noCommand
  | w :: ws =>
    match Argument.ofWord w with
    | .rest => .error (parseRest ws)
    | .long name value => .error (parseLong name value)
    | .short letters => .error (parseLetter letters.head?)
    | .plain => parseNamed w ws

end Command

end CommentFree
