import CommentFree.Host
import CommentFree.Host.Tree

/-!
# A host with a disk

A model of the file system of a machine and of the standard streams of a process.  Paths are
relative to a base directory unless they begin with a slash, and messages show them so: the name of
the base directory comes first.  The input is read line by line from bytes, and the output may have
no room left.
-/

namespace CommentFree

inductive Output where
  | open
  /-- there is no room.  A text without a line break is still accepted into a buffer: `held` says
  that one waits there, and then no later text goes through either. -/
  | full (held : Bool)
  deriving DecidableEq

structure Disk where
  tree : Tree
  /-- the directory to which paths are relative -/
  base : Location
  /-- the base directory as messages name it -/
  baseName : String
  /-- the input not read yet -/
  input : List UInt8
  output : Output
  /-- all that was printed -/
  printed : String
  showsColor : Bool

namespace Disk

def empty (base : Location) (baseName : String) : Disk :=
  ⟨(Tree.pave [] (base.map .entry)).1, base, baseName, [], .open, "", false⟩

/-! ## paths -/

def fullText (d : Disk) (p : Path) : String := p.under d.baseName

def steps (d : Disk) (p : Path) : List Path.Component :=
  if p.fromRoot then p.components else d.base.map .entry ++ p.components

/-- a path as the system takes it; it takes none with a zero byte -/
def route (d : Disk) (p : Path) : Except IoError Tree.Route :=
  if '\x00' ∈ p.text.toList then
    .error (.described .invalidInput "file name contained an unexpected NUL byte")
  else
    let text := d.fullText p
    .ok ⟨d.steps p, text.toList.getLast? = some '/', (Utf8.ofString text).length⟩

/-! ## files -/

abbrev Run := StateM Disk

def find (d : Disk) (p : Path) : Except IoError Node := do
  (d.tree.find (← d.route p)).mapError .system

/-- carries a change of the tree out, or fails at a path -/
def change (p : Path) (f : Disk → Except IoError Tree) : ExceptT Failure Run Unit := do
  let d ← get
  match f d with
  | .ok tree => set { d with tree := tree }
  | .error e => throw (.file (d.fullText p) e)

/-- a directory can be opened, but reading it breaks off -/
def load (p : Path) : ExceptT Failure Run (Except IoError (List UInt8)) := do
  let d ← get
  match d.find p with
  | .ok (.file content) => return .ok content
  | .ok .directory => return .error (.system .isDirectory)
  | .error e => throw (.file (d.fullText p) e)

def create (p : Path) (content : List UInt8) : ExceptT Failure Run Unit :=
  change p fun d => do (d.tree.create (← d.route p) content).mapError .system

def remove (p : Path) : ExceptT Failure Run Unit :=
  change p fun d => do (d.tree.unlink (← d.route p)).mapError .system

def rename (source target : Path) : ExceptT Failure Run Unit :=
  change source fun d => do
    (d.tree.rename (← d.route source) (← d.route target)).mapError .system

/-! ## streams -/

/-- texts of so many bytes are never held back -/
def bufferSize : Nat := 1024

/-- whether a text is kept in the buffer when there is no room for it -/
def isHeld (text : String) : Bool :=
  text ≠ "" ∧ '\n' ∉ text.toList ∧ (Utf8.ofString text).length < bufferSize

def print (text : String) : ExceptT Failure Run Unit := do
  let d ← get
  match d.output with
  | .open => set { d with printed := d.printed ++ text }
  | .full held =>
    set { d with output := .full (held || isHeld text) }
    if held || text ≠ "" then throw (.file "<stdout>" (.system .noSpace))

/-- the next line of a list of bytes with its end, and the bytes after it -/
def cutLine : List UInt8 → List UInt8 × List UInt8
  | [] => ([], [])
  | b :: bs =>
    if b = '\n'.toUInt8 then ([b], bs)
    else
      let (line, rest) := cutLine bs
      (b :: line, rest)

def readLine : ExceptT Failure Run (Option String) := do
  let d ← get
  let (line, rest) := cutLine d.input
  set { d with input := rest }
  ExceptT.mk (pure (lineOf line))

instance : Host Run where
  fileExists p := do
    match (← get).find p with
    | .ok (.file _) => return true
    | _ => return false
  load := load
  create := create
  remove := remove
  rename := rename
  print := print
  readLine := readLine
  showsColor := return (← get).showsColor

/-! ## preparing and listing -/

/-- makes a directory at a path, with the directories on the way -/
def addDirectory (d : Disk) (p : Path) : Disk := { d with tree := (d.tree.pave (d.steps p)).1 }

def addFile (d : Disk) (p : Path) (content : List UInt8) : Disk :=
  let (tree, dir) := d.tree.pave (d.steps p).dropLast
  match (d.steps p).getLast? with
  | some (.entry name) => { d with tree := tree.put (dir ++ [name]) (.file content) }
  | _ => { d with tree := tree }

def locationText (loc : Location) : String := "/".intercalate (loc.map String.ofList)

/-- an entry of a listing: directories end in a slash and have no content -/
def listed (loc : Location) : Node → String × Option (List UInt8)
  | .file content => (locationText loc, some content)
  | .directory => (locationText loc ++ "/", none)

/-- all that is below the base directory -/
def listing (d : Disk) : List (String × Option (List UInt8)) :=
  d.tree.filterMap fun (loc, node) =>
    if d.base <+: loc ∧ loc ≠ d.base then some (listed (loc.drop d.base.length) node) else none

end Disk

end CommentFree
