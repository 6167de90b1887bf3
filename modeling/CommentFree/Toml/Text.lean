import CommentFree.Toml.Reader

/-!
# Blanks, strings and keys

The parts of a document that are read character by character.  Strings come in four forms: between
double quotes with escapes or between single quotes without, on one line or, with the quotes
tripled, on several.
-/

namespace CommentFree.Toml

open Reader

def isSpace (c : Char) : Bool := c = ' ' || c = '\t'

/-- characters that may stand in strings and comments: no controls but the tab -/
def isOpen (c : Char) : Bool := c = '\t' || (' ' ≤ c && c ≠ '\x7f')

def spaces : Reader Unit := do let _ ← takeWhile isSpace

def lineEnd : Reader Unit := char '\n' <|> text "\r\n"

def comment : Reader Unit := do
  char '#'
  let _ ← takeWhile isOpen

/-- what may follow on a line after the last thing on it -/
def restOfLine : Reader Unit := do
  spaces
  let _ ← optional comment
  if (← get).isEmpty then return
  lineEnd

/-- a blank, or a comment with its line end, or a line end; `none` when there is no more -/
def gapPart : Reader (Option Unit) := do
  match ← peek with
  | some c =>
    if isSpace c then some <$> spaces
    else if c = '\n' ∨ c = '\r' then some <$> lineEnd
    else if c = '#' then some <$> (do comment; lineEnd)
    else return none
  | none => return none

def gap : Reader Unit := do let _ ← repeatUntilNone gapPart

/-! ## strings -/

def isHexDigit (c : Char) : Bool :=
  c.isDigit || ('a' ≤ c && c ≤ 'f') || ('A' ≤ c && c ≤ 'F')

/-- the value of a digit in a base up to sixteen -/
def digitValue (c : Char) : Nat :=
  if c.isDigit then c.toNat - 48 else if 'a' ≤ c then c.toNat - 87 else c.toNat - 55

/-- the value of digits in a base -/
def digitsValue (base : Nat) (digits : List Char) : Nat :=
  digits.foldl (fun n c => n * base + digitValue c) 0

/-- the character with the code point in `n` hexadecimal digits -/
def codePoint (n : Nat) : Reader Char := do
  let value := digitsValue 16 (← exactly n isHexDigit)
  if value.isValidChar then return Char.ofNat value else failure

def escape : Reader Char := do
  match ← satisfy fun _ => true with
  | 'b' => return '\x08'
  | 'f' => return '\x0c'
  | 'n' => return '\n'
  | 'r' => return '\r'
  | 't' => return '\t'
  | '"' => return '"'
  | '\\' => return '\\'
  | 'u' => codePoint 4
  | 'U' => codePoint 8
  | _ => failure

/-- a character between double quotes; `none` at the closing quote -/
def basicPart : Reader (Option Char) := do
  match ← peek with
  | some '"' => return none
  | some '\\' => char '\\'; some <$> escape
  | _ => some <$> satisfy isOpen

def basicString : Reader String := do
  char '"'
  let cs ← repeatUntilNone basicPart
  char '"'
  return String.ofList cs

def literalString : Reader String := do
  char '\''
  let cs ← takeWhile fun c => isOpen c && c ≠ '\''
  char '\''
  return String.ofList cs

/-- a run of quotes inside a string of several lines: one or two belong to the text; three close it,
and up to two before them belong to the text -/
def quoteRun (q : Char) : Reader (List Char × Bool) := do
  let run ← takeWhile (· = q)
  if run.length ≤ 2 then return (run, false)
  else if run.length ≤ 5 then return (run.drop 3, true)
  else failure

/-- a backslash at the end of a line takes the line end and all blanks after it away -/
def lineContinuation : Reader Unit := do
  char '\\'
  spaces
  lineEnd
  let _ ← repeatUntilNone (do
    match ← peek with
    | some c =>
      if isSpace c then some <$> spaces
      else optional lineEnd
    | none => return none)

/-- a part of a string of several lines, and whether it was the last one -/
def longPart (q : Char) : Reader (List Char × Bool) := do
  match ← peek with
  | some '\\' =>
    if q = '"' then
      (do lineContinuation; return ([], false)) <|> (do char '\\'; return ([← escape], false))
    else char '\\'; return (['\\'], false)
  | some c =>
    if c = q then quoteRun q
    else if c = '\n' ∨ c = '\r' then lineEnd; return (['\n'], false)
    else return ([← satisfy isOpen], false)
  | none => failure

/-- the parts of a string of several lines up to the closing quotes, at most `n` of them -/
def longParts (q : Char) (done : List (List Char)) : Nat → Reader (List Char)
  | 0 => failure
  | n + 1 => do
    match ← longPart q with
    | (part, true) => return (part :: done).reverse.flatten
    | (part, false) => longParts q (part :: done) n

/-- a string of several lines; a line end right after the opening quotes is no part of it -/
def longString (q : Char) : Reader String := do
  text (String.ofList [q, q, q])
  let _ ← optional lineEnd
  return String.ofList (← longParts q [] ((← get).length + 1))

def string : Reader String := do
  let cs ← get
  if "\"\"\"".toList.isPrefixOf cs then longString '"'
  else if "'''".toList.isPrefixOf cs then longString '\''
  else if cs.head? = some '"' then basicString
  else literalString

/-! ## keys -/

/-- characters of a key without quotes -/
def isBare (c : Char) : Bool :=
  c.isDigit || ('a' ≤ c && c ≤ 'z') || ('A' ≤ c && c ≤ 'Z') || c = '_' || c = '-'

/-- one part of a key -/
def simpleKey : Reader String := do
  match ← peek with
  | some '"' => basicString
  | some '\'' => literalString
  | _ => return String.ofList (← takeWhile1 isBare)

/-- a dot and the part of a key after it; `none` if no dot follows -/
def nextKey : Reader (Option String) := do
  match ← peek with
  | some '.' => do
    char '.'
    spaces
    let k ← simpleKey
    spaces
    return some k
  | _ => return none

/-- nesting stops one short of this depth, and so do the parts of a key -/
def depthLimit : Nat := 80

def key : Reader (List String) := do
  spaces
  let first ← simpleKey
  spaces
  let parts := first :: (← repeatUntilNone nextKey)
  if parts.length < depthLimit then return parts else failure

end CommentFree.Toml
