import CommentFree.Text.Lines

/-!
# Colours

A diff is coloured line by line after the fact: file headers bold, hunk headers cyan, removals red,
additions green.  A line's role is read off its first characters; only the first two lines can be
file headers, so a removed line that begins with `--` stays a removal.  Each style is switched on
at the start of its line and off before the newline.  The lines are taken apart and put together
again in every mode, also where no style is put on.
-/

namespace CommentFree.Diff

inductive ColorMode where
  /-- only if the standard output shows colours -/
  | auto
  | always
  | never
  deriving DecidableEq, Inhabited

inductive Style where
  | bold
  | cyan
  | red
  | green
  deriving DecidableEq

def Style.on : Style → List Char
  | bold => "\x1b[1m".toList
  | cyan => "\x1b[36m".toList
  | red => "\x1b[31m".toList
  | green => "\x1b[32m".toList

def Style.off : Style → List Char
  | bold => "\x1b[0m".toList
  | _ => "\x1b[39m".toList

/-- the style of the line with the given number, counted from zero -/
def styleOf? (index : Nat) (line : List Char) : Option Style :=
  if index < 2 ∧ ("---".toList.isPrefixOf line ∨ "+++".toList.isPrefixOf line) then some .bold
  else if "@@".toList.isPrefixOf line then some .cyan
  else match line with
    | '-' :: _ => some .red
    | '+' :: _ => some .green
    | _ => none

/-- a text between the codes of a style -/
def styled (style : Option Style) (text : List Char) : List Char :=
  match style with
  | some s => s.on ++ text ++ s.off
  | none => text

section
variable (supported : Bool) (mode : ColorMode)

/-- a text in a style if the mode asks for it; `supported` says that the standard output shows
colours -/
def paint (style : Option Style) (text : List Char) : List Char :=
  match mode with
  | .auto => if supported then styled style text else text
  | .always => styled style text
  | .never => text

/-- a line with its number, painted; its newline stays outside -/
def paintLine (index : Nat) (line : List Char) : List Char :=
  if line.getLast? = some '\n' then
    paint supported mode (styleOf? index line.dropLast) line.dropLast ++ ['\n']
  else paint supported mode (styleOf? index line) line

def paintAll (text : List Char) : List Char :=
  ((Lines.cut Lines.endsFeed text).mapIdx (paintLine supported mode)).flatten

/-- a diff, line by line in the colours that the mode asks for -/
def colorize (diff : String) : String := String.ofList (paintAll supported mode diff.toList)

end

end CommentFree.Diff
