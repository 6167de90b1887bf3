import CommentFree.Host

/-!
# A host in memory

Files are a map from paths to bytes in which paths that are the `Same` are one key.  The map
remembers each key as it was spelled when the entry came into being: writing to an entry that is
there keeps its spelling.  Printing, renaming and removing can be set to fail.
-/

namespace CommentFree

structure Memory where
  files : List (Path × List UInt8)
  /-- all that was printed -/
  printed : String
  /-- the lines still to be read -/
  input : List String
  failPrint : Bool
  failRename : Bool
  failRemove : Bool
  showsColor : Bool

namespace Memory

def empty : Memory := ⟨[], "", [], false, false, false, false⟩

/-! ## the map -/

def lookup? (files : List (Path × List UInt8)) (p : Path) : Option (List UInt8) :=
  (files.find? fun f => decide (f.1.Same p)).map (·.2)

/-- puts a content at a path; an entry that is there keeps its spelling -/
def bind : List (Path × List UInt8) → Path → List UInt8 → List (Path × List UInt8)
  | [], p, content => [(p, content)]
  | f :: fs, p, content => if f.1.Same p then (f.1, content) :: fs else f :: bind fs p content

def erase (files : List (Path × List UInt8)) (p : Path) : List (Path × List UInt8) :=
  files.filter fun f => !decide (f.1.Same p)

/-! ## failures -/

def notFound (p : Path) : Failure :=
  .file p.text (.described .notFound ("File not found: " ++ p.text))

/-- the failure of an operation that was set to fail -/
def injected (path : String) : Failure :=
  .file path (.described .permissionDenied "injected failure")

/-! ## the host -/

abbrev Run := StateM Memory

def load (p : Path) : ExceptT Failure Run (Except IoError (List UInt8)) := do
  match lookup? (← get).files p with
  | some content => return .ok content
  | none => throw (notFound p)

structure Writer where
  path : Path
  buffer : List UInt8

def Writer.write (w : Writer) (bytes : List UInt8) : Writer := { w with buffer := w.buffer ++ bytes }

/-- stores what was written, and only now -/
def Writer.close (w : Writer) : ExceptT Failure Run Unit :=
  modify fun s => { s with files := bind s.files w.path w.buffer }

def create (p : Path) (content : List UInt8) : ExceptT Failure Run Unit :=
  ((Writer.mk p []).write content).close

def remove (p : Path) : ExceptT Failure Run Unit := do
  let s ← get
  if s.failRemove then throw (injected p.text)
  match lookup? s.files p with
  | some _ => set { s with files := erase s.files p }
  | none => throw (notFound p)

def rename (source target : Path) : ExceptT Failure Run Unit := do
  let s ← get
  if s.failRename then throw (injected source.text)
  match lookup? s.files source with
  | some content => set { s with files := bind (erase s.files source) target content }
  | none => throw (notFound source)

def print (text : String) : ExceptT Failure Run Unit := do
  let s ← get
  if s.failPrint then throw (injected "<stdout>")
  set { s with printed := s.printed ++ text }

def readLine : ExceptT Failure Run (Option String) := do
  let s ← get
  match s.input with
  | [] => return none
  | line :: rest => set { s with input := rest }; return some line

instance : Host Run where
  fileExists p := return (lookup? (← get).files p).isSome
  load := load
  create := create
  remove := remove
  rename := rename
  print := print
  readLine := readLine
  showsColor := return (← get).showsColor

end Memory

end CommentFree
