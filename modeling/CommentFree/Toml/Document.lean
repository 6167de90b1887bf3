import CommentFree.Toml.Number

/-!
# Documents

A document is a list of lines: a key with its value, or the header of a table to which the keys
after it belong.  `parse` reads the lines and puts the tables together.

A key is given once.  A table is opened once under its own header; one that came up as the front
part of longer headers may be opened later, and then counts as coming last.  Dotted keys add to
tables made by dotted keys only, and nothing is added to a value between brackets or braces.
-/

namespace CommentFree.Toml

open Reader

/-! ## tables -/

def lookup? (es : Entries) (k : String) : Option Value := (es.find? (·.1 = k)).map (·.2)

/-- puts another value in the place of a key's value -/
def replace (es : Entries) (k : String) (v : Value) : Entries :=
  es.map fun e => if e.1 = k then (k, v) else e

/-- changes the table at the end of a path of keys.  Keys on the way that are missing become tables:
by a dotted key if `dotted`, else as part of a header. -/
def descend (dotted : Bool) (f : TableStyle → Entries → Option Entries) :
    List String → TableStyle → Entries → Option Entries
  | [], style, es => f style es
  | k :: ks, _, es =>
    match lookup? es k with
    | none => do
      let style : TableStyle := if dotted then .dotted else .parent
      return es ++ [(k, .table style (← descend dotted f ks style []))]
    | some (.table style inner) =>
      if style = .inline ∨ (dotted ∧ style = .header) then none
      else do return replace es k (.table style (← descend dotted f ks style inner))
    | some (.tables items) =>
      match items.reverse with
      | last :: front => do
        return replace es k (.tables (front.reverse ++ [← descend dotted f ks .header last]))
      | [] => none
    | some _ => none

/-- adds a key to a table; `path` is the part of the key before its last dot -/
def addPair (es : Entries) (path : List String) (k : String) (v : Value) (style : TableStyle) :
    Option Entries :=
  descend true
    (fun found es =>
      if (found = .dotted) = (path = []) then none
      else if (lookup? es k).isSome then none
      else some (es ++ [(k, v)]))
    path style es

structure Pair where
  path : List String
  key : String
  value : Value

def addPairs (style : TableStyle) (es : Entries) (ps : List Pair) : Option Entries :=
  ps.foldlM (fun es p => addPair es p.path p.key p.value style) es

/-! ## values -/

def splitKey (parts : List String) : List String × String :=
  (parts.dropLast, parts.getLast?.getD "")

def pair (value : Reader Value) : Reader Pair := do
  let (path, k) := splitKey (← key)
  char '='
  spaces
  return ⟨path, k, ← value⟩

/-- a value without brackets or braces around it -/
def scalar : Reader Value := do
  match ← peek with
  | some c =>
    if c = '"' ∨ c = '\'' then .string <$> string
    else if c = 't' then text "true"; return .bool true
    else if c = 'f' then text "false"; return .bool false
    else (do moment; return .moment) <|> (.float <$> float) <|> (.integer <$> integer)
  | none => failure

/-- an item of an array, with the comma after it; `none` before the closing bracket -/
def arrayItem (value : Reader Value) : Reader (Option (Value × Bool)) := do
  gap
  if (← peek) = some ']' then return none
  let v ← value
  gap
  let comma ← optional (char ',')
  return some (v, comma.isSome)

/-- items of an array: each but the last is followed by a comma -/
def itemsOk (items : List (Value × Bool)) : Bool := items.dropLast.all (·.2)

def array (value : Reader Value) : Reader Value := do
  char '['
  let items ← repeatUntilNone (arrayItem value)
  char ']'
  if itemsOk items then return .array (items.map (·.1)) else failure

/-- a comma and the pair after it; `none` if no comma follows -/
def nextPair (value : Reader Value) : Reader (Option Pair) := do
  if (← peek) = some ',' then
    char ','
    let p ← pair value
    spaces
    return some p
  else return none

/-- the pairs of a table between braces -/
def bracedPairs (value : Reader Value) : Reader (List Pair) := do
  spaces
  if (← peek) = some '\x7d' then return []
  let first ← pair value
  spaces
  return first :: (← repeatUntilNone (nextPair value))

def inlineTable (value : Reader Value) : Reader Value := do
  char '\x7b'
  let ps ← bracedPairs value
  char '\x7d'
  match addPairs .inline [] ps with
  | some es => return .table .inline es
  | none => failure

/-- a value, with room for so many levels of brackets and braces -/
def value : Nat → Reader Value
  | 0 => scalar
  | room + 1 => do
    match ← peek with
    | some '[' => array (value room)
    | some '\x7b' => inlineTable (value room)
    | _ => scalar

/-! ## lines -/

/-- a line of a document that says something -/
inductive Line where
  | pair (p : Pair)
  | table (path : List String)
  | tableItem (path : List String)

def line : Reader (Option (Option Line)) := do
  spaces
  let cs ← get
  match cs with
  | [] => return none
  | c :: _ =>
    if c = '\n' ∨ c = '\r' ∨ c = '#' then restOfLine; return some none
    else if "[[".toList.isPrefixOf cs then
      text "[["
      let path ← key
      text "]]"
      restOfLine
      return some (some (.tableItem path))
    else if c = '[' then
      char '['
      let path ← key
      char ']'
      restOfLine
      return some (some (.table path))
    else
      let p ← pair (value (depthLimit - 1))
      restOfLine
      return some (some (.pair p))

/-! ## putting a document together -/

/-- a table under a header, or the pairs before the first one -/
structure Section where
  /-- the path of the header, and whether it had double brackets -/
  header : Option (List String × Bool)
  pairs : List Pair

/-- cuts lines into sections; `pairs` of the section under work stand in reverse -/
def sections (header : Option (List String × Bool)) (pairs : List Pair) :
    List Line → List Section
  | [] => [⟨header, pairs.reverse⟩]
  | .pair p :: ls => sections header (p :: pairs) ls
  | .table path :: ls => ⟨header, pairs.reverse⟩ :: sections (some (path, false)) [] ls
  | .tableItem path :: ls => ⟨header, pairs.reverse⟩ :: sections (some (path, true)) [] ls

/-- the entries at the end of a path -/
def entriesAt : List String → Entries → Entries
  | [], es => es
  | k :: ks, es =>
    match lookup? es k with
    | some (.table _ inner) => entriesAt ks inner
    | some (.tables items) => entriesAt ks (items.getLast?.getD [])
    | _ => []

/-- what the table of a header holds already -/
def heldEntries (root : Entries) (path : List String) (k : String) : Entries :=
  match lookup? (entriesAt path root) k with
  | some (.table .parent inner) => inner
  | _ => []

/-- the document without the table that a header opens; a table opened before is refused -/
def withoutTable (root : Entries) (path : List String) (k : String) : Option Entries :=
  descend false
    (fun _ es =>
      match lookup? es k with
      | none => some es
      | some (.table .parent _) => some (es.filter (·.1 ≠ k))
      | some _ => none)
    path .header root

def addSection (root : Entries) (s : Section) : Option Entries :=
  match s.header with
  | none => addPairs .header root s.pairs
  | some (parts, false) => do
    let (path, k) := splitKey parts
    let outer ← withoutTable root path k
    let es ← addPairs .header (heldEntries root path k) s.pairs
    descend false (fun _ outer => some (outer ++ [(k, .table .header es)])) path .header outer
  | some (parts, true) => do
    let (path, k) := splitKey parts
    let es ← addPairs .header [] s.pairs
    descend false
      (fun _ outer =>
        match lookup? outer k with
        | none => some (outer ++ [(k, .tables [es])])
        | some (.tables items) => some (replace outer k (.tables (items ++ [es])))
        | some _ => none)
      path .header root

/-- the table of a document, if it is well-formed; a byte order mark at its start is skipped -/
def parse (document : String) : Option Entries := do
  let cs := document.toList
  let cs := if cs.head? = some '\uFEFF' then cs.tail else cs
  let (lines, _) ← (repeatUntilNone line).run cs
  (sections none [] (lines.filterMap id)).foldlM addSection []

end CommentFree.Toml
