/-!
# Failures

A failure is a kind (what went wrong) with the contexts it was met in, and below it the chain of
failures recorded as its causes.  The chain is a list of layers, the failure itself first.

* `Failure.display`     the contexts in order, then the text of the kind;
* `Failure.tree`        one line per kind and context, causes indented below;
* `Failure.rootCause`   where following sources ends.  A file failure has its own source, the refusal
                        it tells of, whatever causes were recorded for it; a refusal that carries
                        another error has that error's source.
-/

namespace CommentFree

/-! ## refusals of the system -/

/-- the errors of the operating system that file operations meet -/
inductive Errno where
  | noEntry
  | denied
  | busy
  | alreadyExists
  | notDirectory
  | isDirectory
  | invalidArgument
  | noSpace
  | nameTooLong
  | notEmpty
  deriving DecidableEq, Inhabited

namespace Errno

def number : Errno → Nat
  | noEntry => 2
  | denied => 13
  | busy => 16
  | alreadyExists => 17
  | notDirectory => 20
  | isDirectory => 21
  | invalidArgument => 22
  | noSpace => 28
  | nameTooLong => 36
  | notEmpty => 39

def description : Errno → String
  | noEntry => "No such file or directory"
  | denied => "Permission denied"
  | busy => "Device or resource busy"
  | alreadyExists => "File exists"
  | notDirectory => "Not a directory"
  | isDirectory => "Is a directory"
  | invalidArgument => "Invalid argument"
  | noSpace => "No space left on device"
  | nameTooLong => "File name too long"
  | notEmpty => "Directory not empty"

/-- the errors, for looking one up by its number -/
def all : List Errno :=
  [noEntry, denied, busy, alreadyExists, notDirectory, isDirectory, invalidArgument, noSpace,
   nameTooLong, notEmpty]

def ofNumber? (n : Nat) : Option Errno := all.find? (·.number = n)

end Errno

/-- classes of refusals -/
inductive Refusal where
  | notFound
  | permissionDenied
  | resourceBusy
  | alreadyExists
  | notADirectory
  | isADirectory
  | directoryNotEmpty
  | storageFull
  | invalidFilename
  | invalidInput
  | invalidData
  | other
  deriving DecidableEq, Inhabited

def Errno.refusal : Errno → Refusal
  | noEntry => .notFound
  | denied => .permissionDenied
  | busy => .resourceBusy
  | alreadyExists => .alreadyExists
  | notDirectory => .notADirectory
  | isDirectory => .isADirectory
  | invalidArgument => .invalidInput
  | noSpace => .storageFull
  | nameTooLong => .invalidFilename
  | notEmpty => .directoryNotEmpty

/-- an error of any kind, known by what it says; `sources` is what its source says, then the source
of that, and so on -/
structure Foreign where
  text : String
  sources : List String
  deriving DecidableEq, Inhabited

/-- why a file or a stream refused an operation -/
inductive IoError where
  | system (e : Errno)
  | described (refusal : Refusal) (text : String)
  /-- a refusal that carries the error it is due to, and speaks with its words -/
  | carrying (refusal : Refusal) (error : Foreign)
  deriving DecidableEq, Inhabited

def IoError.refusal : IoError → Refusal
  | system e => e.refusal
  | described r _ => r
  | carrying r _ => r

def IoError.text : IoError → String
  | system e => e.description ++ " (os error " ++ e.number.repr ++ ")"
  | described _ text => text
  | carrying _ error => error.text

/-- what the sources of a refusal say; the error it carries is not among them, only what is behind
that error -/
def IoError.sources : IoError → List String
  | carrying _ error => error.sources
  | _ => []

/-! ## layers -/

/-- what went wrong -/
inductive FailureKind where
  /-- a file or a standard stream refused -/
  | file (path : String) (error : IoError)
  /-- no language is known for the file -/
  | unsupported (path : String)
  /-- the configuration cannot be read or makes no sense -/
  | config (text : String)
  | message (text : String)
  deriving DecidableEq, Inhabited

def FailureKind.text : FailureKind → String
  | file path error => "File error at " ++ path ++ ": " ++ error.text
  | unsupported path => "Unsupported file type: " ++ path
  | config text => "Invalid configuration: " ++ text
  | message text => text

/-- a kind with the contexts it was met in, the innermost first -/
structure Layer where
  kind : FailureKind
  context : List String
  deriving DecidableEq, Inhabited

/-- the contexts, each followed by a colon, and the text of the kind -/
def Layer.text (l : Layer) : String :=
  String.join (l.context.map (· ++ ": ")) ++ l.kind.text

/-- a failure: its own layer and those of its causes -/
structure Failure where
  top : Layer
  causes : List Layer
  deriving DecidableEq, Inhabited

namespace Failure

def of (kind : FailureKind) : Failure := ⟨⟨kind, []⟩, []⟩

def file (path : String) (error : IoError) : Failure := of (.file path error)
def message (text : String) : Failure := of (.message text)

/-- adds a context, after those already there -/
def withContext (f : Failure) (context : String) : Failure :=
  { f with top := { f.top with context := f.top.context ++ [context] } }

/-- records what caused the failure, in the place of any earlier cause -/
def causedBy (f cause : Failure) : Failure := { f with causes := cause.top :: cause.causes }

def kind (f : Failure) : FailureKind := f.top.kind
def context (f : Failure) : List String := f.top.context

def cause? (f : Failure) : Option Failure :=
  match f.causes with
  | [] => none
  | l :: ls => some ⟨l, ls⟩

def display (f : Failure) : String := f.top.text

/-! ## where a failure comes from -/

/-- what a chain of sources can lead to -/
inductive Source where
  | io (error : IoError)
  | failure (f : Failure)
  | foreign (error : Foreign)
  deriving DecidableEq

def Source.text : Source → String
  | io error => error.text
  | failure f => f.display
  | foreign error => error.text

def source? (f : Failure) : Option Source :=
  match f.kind with
  | .file _ error => some (.io error)
  | _ => f.cause?.map .failure

/-- the first of errors that are known by what they say, with the others behind it -/
def Source.first? : List String → Option Source
  | [] => none
  | text :: sources => some (.foreign ⟨text, sources⟩)

def Source.source? : Source → Option Source
  | io error => first? error.sources
  | failure f => f.source?
  | foreign error => first? error.sources

/-- a bound on what following sources can still come to: failures, and behind these the errors that a
refusal leads to -/
def Source.reach : Source → Nat × Nat
  | io error => (0, error.sources.length)
  | failure f => (f.causes.length + 1, 0)
  | foreign error => (0, error.sources.length)

theorem Source.reach_lt_of_first? {texts : List String} {s : Source} (h : first? texts = some s) :
    Prod.Lex (· < ·) (· < ·) s.reach (0, texts.length) := by
  cases texts with
  | nil => exact nomatch h
  | cons text sources =>
    obtain rfl := Option.some.inj h
    exact .right _ (Nat.lt_succ_self _)

theorem reach_lt_of_source? {f : Failure} {s : Source} (h : f.source? = some s) :
    Prod.Lex (· < ·) (· < ·) s.reach (f.causes.length + 1, 0) := by
  obtain ⟨⟨kind, context⟩, causes⟩ := f
  cases kind with
  | file path error =>
    obtain rfl := Option.some.inj h
    exact .left _ _ (Nat.succ_pos _)
  | unsupported | config | message =>
    cases causes with
    | nil => exact nomatch h
    | cons l ls =>
      obtain rfl := Option.some.inj h
      exact .left _ _ (Nat.lt_succ_self _)

theorem Source.reach_lt {s t : Source} (h : s.source? = some t) :
    Prod.Lex (· < ·) (· < ·) t.reach s.reach := by
  cases s with
  | io error | foreign error => exact reach_lt_of_first? h
  | failure f => exact reach_lt_of_source? h

/-- the last thing reached by following sources -/
def Source.root (s : Source) : Source :=
  match _h : s.source? with
  | none => s
  | some t => t.root
termination_by s.reach
decreasing_by exact reach_lt _h

def rootCause (f : Failure) : Source := (Source.failure f).root

/-! ## the tree -/

/-- a context as a branch; the last child of its layer is drawn with a corner -/
def branch (indent : Nat) (last : Bool) (text : String) : String :=
  "".pushn ' ' indent ++ (if last then "└─ " else "├─ ") ++ text ++ "\n"

/-- the branches of a layer's contexts; `more` says that a cause follows them -/
def branches (indent : Nat) (more : Bool) : List String → String
  | [] => ""
  | c :: cs => branch indent (cs.isEmpty && !more) c ++ branches indent more cs

/-- a layer and its causes, each cause indented three columns further -/
def treeFrom (indent : Nat) (l : Layer) : List Layer → String
  | [] => l.kind.text ++ "\n" ++ branches indent false l.context
  | c :: cs =>
    l.kind.text ++ "\n" ++ branches indent true l.context ++
      "".pushn ' ' indent ++ "└─ cause: " ++ treeFrom (indent + 3) c cs

/-- the failure with all it carries, line by line -/
def tree (f : Failure) : String := treeFrom 0 f.top f.causes

end Failure

end CommentFree
