import CommentFree.Language
import CommentFree.Text.Utf8

/-!
# The comment scanner

The scanner walks over the bytes of a source and is always in one of three modes: plain code, a
block comment, or a literal between two equal quotes, where a backslash takes the next byte's
meaning away.  Comment delimiters are looked for in code only, so `"// text"` survives.

* A line comment goes up to its newline, which stays: lines keep their numbers.
* A block comment goes with both of its delimiters, or to the end of the source.
* Every other byte is copied.

`step` takes the scanner over one delimiter, one comment to the end of its line, or one byte;
`step_length` says that it never stands still, which is why `run` ends.
-/

namespace CommentFree

/-- the quotes that delimit literals -/
inductive Quote where
  | double
  | single
  deriving DecidableEq, Inhabited

def Quote.byte : Quote → UInt8
  | .double => 34
  | .single => 39

def Quote.ofByte? (b : UInt8) : Option Quote :=
  if b = 34 then some .double else if b = 39 then some .single else none

def newline : UInt8 := 10

/-- the byte that escapes the next one inside a literal -/
def backslash : UInt8 := 92

/-- the comment delimiters of a language as bytes -/
structure Delimiters where
  lineMark : List UInt8
  blockStart : List UInt8
  blockEnd : List UInt8

def Language.delimiters (l : Language) : Delimiters :=
  ⟨Utf8.ofString l.lineMark, Utf8.ofString l.blockStart, Utf8.ofString l.blockEnd⟩

/-- whether a delimiter stands at the front of the input; an empty one never does -/
def Delimiters.opens (delimiter input : List UInt8) : Bool :=
  !delimiter.isEmpty && delimiter.isPrefixOf input

/-- where the scanner is -/
inductive Mode where
  | code
  | comment
  /-- between two quotes; `escaped` says that the last byte was a backslash in force -/
  | literal (quote : Quote) (escaped : Bool)
  deriving DecidableEq, Inhabited

/-- the scanner between two steps -/
structure Scanner where
  mode : Mode
  /-- comments met so far -/
  removed : Nat
  /-- bytes copied so far, the last one first -/
  kept : List UInt8
  deriving DecidableEq, Inhabited

namespace Scanner

def start : Scanner := ⟨.code, 0, []⟩

/-- the mode after a byte that is copied -/
def modeAfter (b : UInt8) : Mode → Mode
  | .code => match Quote.ofByte? b with
    | some q => .literal q false
    | none => .code
  | .comment => .comment
  | .literal q true => .literal q false
  | .literal q false =>
    if b = q.byte then .code else .literal q (b = backslash)

/-- one step at the byte `b` with `bs` after it: the new state and the bytes still to scan -/
def step (d : Delimiters) (s : Scanner) (b : UInt8) (bs : List UInt8) : Scanner × List UInt8 :=
  match s.mode with
  | .code =>
    if Delimiters.opens d.blockStart (b :: bs) then
      (⟨.comment, s.removed + 1, s.kept⟩, (b :: bs).drop d.blockStart.length)
    else if Delimiters.opens d.lineMark (b :: bs) then
      match (b :: bs).dropWhile (· ≠ newline) with
      | [] => (⟨.code, s.removed + 1, s.kept⟩, [])
      | nl :: rest => (⟨.code, s.removed + 1, nl :: s.kept⟩, rest)
    else (⟨modeAfter b .code, s.removed, b :: s.kept⟩, bs)
  | .comment =>
    if Delimiters.opens d.blockEnd (b :: bs) then
      (⟨.code, s.removed, s.kept⟩, (b :: bs).drop d.blockEnd.length)
    else (s, bs)
  | .literal q e => (⟨modeAfter b (.literal q e), s.removed, b :: s.kept⟩, bs)

theorem drop_length_lt {delimiter : List UInt8} {b : UInt8} {bs : List UInt8}
    (h : Delimiters.opens delimiter (b :: bs) = true) :
    ((b :: bs).drop delimiter.length).length < (b :: bs).length := by
  cases delimiter with
  | nil => simp [Delimiters.opens] at h
  | cons c cs => simp only [List.length_drop, List.length_cons]; omega

/-- a step leaves fewer bytes to scan -/
theorem step_length (d : Delimiters) (s : Scanner) (b : UInt8) (bs : List UInt8) :
    (step d s b bs).2.length < (b :: bs).length := by
  unfold step
  split
  · split
    · next h => exact drop_length_lt h
    · split
      · have hle := Path.dropWhile_length_le (· ≠ newline) (b :: bs)
        split
        · exact Nat.succ_pos _
        · next heq => rw [heq] at hle; exact hle
      · exact Nat.lt_succ_self _
  · split
    · next h => exact drop_length_lt h
    · exact Nat.lt_succ_self _
  · exact Nat.lt_succ_self _

def run (d : Delimiters) (s : Scanner) : List UInt8 → Scanner
  | [] => s
  | b :: bs => run d (step d s b bs).1 (step d s b bs).2
termination_by bytes => bytes.length
decreasing_by exact step_length d s b bs

def output (s : Scanner) : List UInt8 := s.kept.reverse

end Scanner

/-- a source without its comments -/
structure Stripped where
  text : String
  /-- how many comments were taken out -/
  removed : Nat
  deriving DecidableEq, Inhabited

def Stripped.found (s : Stripped) : Bool := 0 < s.removed

def scan (source : String) (l : Language) : Scanner :=
  Scanner.run l.delimiters .start (Utf8.ofString source)

/-- removes the comments of a language from a source -/
def strip (source : String) (l : Language) : Stripped :=
  let s := scan source l
  ⟨Utf8.decodeLossy s.output, s.removed⟩

end CommentFree
