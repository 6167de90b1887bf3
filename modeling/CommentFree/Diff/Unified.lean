import CommentFree.Diff.Hunk
import CommentFree.Text.Lines

/-!
# The unified diff

A diff is a list of rows: the two file headers, then for each hunk its header and its lines.  Each
row has a role, and its text begins with the mark of that role.  A line without terminator is
followed by a note that says so.  Texts that do not differ have no rows at all.
-/

namespace CommentFree.Diff

/-- a row of a diff -/
inductive Row where
  | oldFile (label : List Char)
  | newFile (label : List Char)
  /-- where a hunk stands: start and end in the old lines, start and end in the new ones -/
  | hunk (oldFrom oldTo newFrom newTo : Nat)
  | context (line : List Char)
  | removed (line : List Char)
  | added (line : List Char)
  /-- the line above has no terminator -/
  | note
  deriving DecidableEq

/-- a range of lines: start and length, counted from one.  A length of one is not written, and an
empty range is named by the line before it. -/
def rangeText (start stop : Nat) : List Char :=
  let length := stop - start
  if length = 1 then (start + 1).repr.toList
  else (if length = 0 then start else start + 1).repr.toList ++ ',' :: length.repr.toList

def terminated (line : List Char) : Bool :=
  line.getLast? == some '\n' || line.getLast? == some '\r'

/-- a line as a row: a missing terminator is made good -/
def lineText (line : List Char) : List Char := if terminated line then line else line ++ ['\n']

def Row.text : Row → List Char
  | oldFile label => "--- ".toList ++ label ++ ['\n']
  | newFile label => "+++ ".toList ++ label ++ ['\n']
  | hunk a b c d =>
    "@@ -".toList ++ rangeText a b ++ " +".toList ++ rangeText c d ++ " @@\n".toList
  | context line => ' ' :: lineText line
  | removed line => '-' :: lineText line
  | added line => '+' :: lineText line
  | note => "\\ No newline at end of file\n".toList

/-- the rows of a line in the given role -/
def lineRows (role : List Char → Row) (line : List Char) : List Row :=
  if terminated line then [role line] else [role line, .note]

def Block.rows : Block (List Char) → List Row
  | keep _ _ lines => lines.flatMap (lineRows .context)
  | change _ _ removed added =>
    removed.flatMap (lineRows .removed) ++ added.flatMap (lineRows .added)

/-- the header of a hunk: from where its first block starts to where its last one ends -/
def hunkHeader (first last : Block (List Char)) : Row :=
  .hunk first.oldAt (last.oldAt + last.old.length) first.newAt (last.newAt + last.new.length)

def hunkRows (bs : List (Block (List Char))) : List Row :=
  match bs.head?, bs.getLast? with
  | some first, some last => hunkHeader first last :: bs.flatMap Block.rows
  | _, _ => []

def textLines (text : String) : List (List Char) := Lines.cut Lines.endsAny text.toList

def rows (old new oldLabel newLabel : String) (context : Nat) : List Row :=
  match hunksBetween context (textLines old) (textLines new) with
  | [] => []
  | hs => .oldFile oldLabel.toList :: .newFile newLabel.toList :: hs.flatMap hunkRows

/-- the diff between two texts, with `context` unchanged lines around each change -/
def unified (old new oldLabel newLabel : String) (context : Nat) : String :=
  String.ofList ((rows old new oldLabel newLabel context).flatMap Row.text)

end CommentFree.Diff
