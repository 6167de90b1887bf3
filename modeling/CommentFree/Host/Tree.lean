import CommentFree.Path

/-!
# Trees of files

A tree is a flat map from locations to files and directories.  A location is the list of names from
the root; the root itself is always a directory.  Paths are followed the way a Unix system does it:
step by step, each from a directory, so `d/../a` leads nowhere when there is no `d`.

* `Tree.node?`                         what stands at a location, the view on a tree;
* `Tree.walk`                          follows steps from the root, as far as they can be followed;
* `Tree.find`                          what a path leads to;
* `Tree.create`, `unlink`, `rename`    the changes a program can ask for, or why they are refused;
* `Tree.pave`                          makes the directories on a way, to prepare a tree.
-/

namespace CommentFree

/-- the names from the root to an entry -/
abbrev Location := List (List Char)

/-- what stands at a location -/
inductive Node where
  | file (content : List UInt8)
  | directory
  deriving DecidableEq

/-- all entries below the root -/
abbrev Tree := List (Location × Node)

namespace Tree

/-! ## the map -/

def node? (t : Tree) (loc : Location) : Option Node :=
  if loc = [] then some .directory else (t.find? (·.1 = loc)).map (·.2)

def erase (t : Tree) (loc : Location) : Tree := t.filter (·.1 ≠ loc)

/-- puts a node at a location, in the place of what is there -/
def put (t : Tree) (loc : Location) (n : Node) : Tree := (loc, n) :: t.erase loc

/-- moves the entry at a location, and all below it, in the place of what is at another -/
def move (t : Tree) (source target : Location) : Tree :=
  (t.erase target).map fun e =>
    if source <+: e.1 then (target ++ e.1.drop source.length, e.2) else e

/-- whether something stands below a location -/
def occupied (t : Tree) (loc : Location) : Bool := t.any fun e => loc <+: e.1 ∧ e.1 ≠ loc

/-! ## following paths -/

def maxName : Nat := 255

/-- the entry of a name in a directory, which need not be there yet -/
def enter (loc : Location) (name : List Char) : Except Errno Location :=
  if maxName < (Utf8.encode name).length then .error .nameTooLong else .ok (loc ++ [name])

def directory (t : Tree) (loc : Location) : Except Errno Location :=
  match t.node? loc with
  | none => .error .noEntry
  | some (.file _) => .error .notDirectory
  | some .directory => .ok loc

/-- one step from a directory -/
def step (t : Tree) (loc : Location) (c : Path.Component) : Except Errno Location := do
  let loc ← t.directory loc
  match c with
  | .current => return loc
  | .parent => return loc.dropLast
  | .entry name => enter loc name

/-- follows steps from the root; the last one may lead to a location that is free -/
def walk (t : Tree) (steps : List Path.Component) : Except Errno Location := steps.foldlM t.step []

/-- a path as the system follows it -/
structure Route where
  steps : List Path.Component
  /-- a slash at its end asks for a directory -/
  slash : Bool
  /-- the bytes of its text -/
  length : Nat

/-- paths of so many bytes are too long -/
def maxPath : Nat := 4096

/-- follows the given steps of a route, unless its text is too long -/
def follow (t : Tree) (r : Route) (steps : List Path.Component) : Except Errno Location :=
  if maxPath ≤ r.length then .error .nameTooLong else t.walk steps

def find (t : Tree) (r : Route) : Except Errno Node := do
  match t.node? (← t.follow r r.steps) with
  | none => .error .noEntry
  | some .directory => return .directory
  | some (.file content) => if r.slash then .error .notDirectory else return .file content

/-- the directory in which the last step of a route is taken -/
def parent (t : Tree) (r : Route) : Except Errno Location := do
  t.directory (← t.follow r r.steps.dropLast)

/-! ## changes -/

def create (t : Tree) (r : Route) (content : List UInt8) : Except Errno Tree := do
  let dir ← t.parent r
  match r.steps.getLast? with
  | some (.entry name) =>
    if r.slash then .error .isDirectory
    let loc ← enter dir name
    if t.node? loc = some .directory then .error .isDirectory
    return t.put loc (.file content)
  | _ => .error .isDirectory

def unlink (t : Tree) (r : Route) : Except Errno Tree := do
  let dir ← t.parent r
  match r.steps.getLast? with
  | some (.entry name) =>
    let loc ← enter dir name
    match t.node? loc with
    | none => .error .noEntry
    | some .directory => .error .isDirectory
    | some (.file _) => if r.slash then .error .notDirectory else return t.erase loc
  | _ => .error .isDirectory

/-- moves what is at a location to another; the flag says that a slash asked for a directory -/
def relocate (t : Tree) (source target : Location) (slash : Bool) : Except Errno Tree := do
  match t.node? source, t.node? target with
  | none, _ => .error .noEntry
  | some (.file _), there =>
    if slash then .error .notDirectory
    if target <+: source ∧ target ≠ source then .error .notEmpty
    if there = some .directory then .error .isDirectory
    return if source = target then t else t.move source target
  | some .directory, there =>
    if source = target then return t
    if source <+: target then .error .invalidArgument
    if target <+: source then .error .notEmpty
    if there ≠ none ∧ there ≠ some .directory then .error .notDirectory
    if t.occupied target then .error .notEmpty
    return t.move source target

def rename (t : Tree) (source target : Route) : Except Errno Tree := do
  let sourceDir ← t.parent source
  let targetDir ← t.parent target
  match source.steps.getLast?, target.steps.getLast? with
  | some (.entry old), some (.entry new) =>
    let oldLoc ← enter sourceDir old
    if t.node? oldLoc = none then .error .noEntry
    t.relocate oldLoc (← enter targetDir new) (source.slash || target.slash)
  | _, _ => .error .busy

/-! ## preparing -/

/-- where a step leads, whatever stands there -/
def onward (loc : Location) : Path.Component → Location
  | .current => loc
  | .parent => loc.dropLast
  | .entry name => loc ++ [name]

/-- makes a directory at a location, unless something is there -/
def ensure (t : Tree) (loc : Location) : Tree :=
  if t.node? loc = none then t.put loc .directory else t

/-- takes steps from the root and makes each directory that is missing on the way, also one that a
later step leaves again; gives the tree and the location reached -/
def pave (t : Tree) (steps : List Path.Component) : Tree × Location :=
  steps.foldl (fun (t, loc) c => (t.ensure (onward loc c), onward loc c)) (t, [])

end Tree

end CommentFree
