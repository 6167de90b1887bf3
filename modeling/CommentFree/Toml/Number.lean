import CommentFree.Toml.Text
import CommentFree.Toml.Value

/-!
# Numbers and moments

Integers in four bases, floating point numbers, dates and times.  A single underscore may stand
between two digits.
-/

namespace CommentFree.Toml

open Reader

/-- digits with single underscores between them; the digits without the underscores -/
def digitRun (isDigit : Char → Bool) : Reader (List Char) := do
  let run ← takeWhile1 fun c => isDigit c || c = '_'
  let parts := run.splitOn '_'
  if parts.all (!·.isEmpty) then return parts.flatten else failure

def sign : Reader Bool :=
  (do char '-'; return true) <|> (do char '+'; return false) <|> pure false

/-- the digits of a decimal integer, which has no leading zeros -/
def wholeDigits : Reader (List Char) := do
  let digits ← digitRun Char.isDigit
  if digits.head? = some '0' ∧ digits ≠ ['0'] then failure else return digits

/-! ## integers -/

/-- integers have 64 bits -/
def inRange (n : Int) : Bool := -(Int.pow 2 63) ≤ n && n < Int.pow 2 63

/-- an integer after the mark of its base -/
def basedInteger (mark : String) (base : Nat) (isDigit : Char → Bool) : Reader Int := do
  text mark
  return (digitsValue base (← digitRun isDigit) : Int)

def decimalInteger : Reader Int := do
  let negative ← sign
  let n : Int := digitsValue 10 (← wholeDigits)
  return if negative then -n else n

def integer : Reader Int := do
  let n ← basedInteger "0x" 16 isHexDigit <|> basedInteger "0o" 8 (fun c => '0' ≤ c && c ≤ '7')
    <|> basedInteger "0b" 2 (fun c => c = '0' || c = '1') <|> decimalInteger
  if inRange n then return n else failure

/-! ## floating point numbers -/

def fraction : Reader (List Char) := do
  char '.'
  digitRun Char.isDigit

def exponent : Reader Int := do
  char 'e' <|> char 'E'
  let negative ← sign
  let n : Int := digitsValue 10 (← digitRun Char.isDigit)
  return if negative then -n else n

def finiteFloat : Reader Decimal.Binary := do
  let negative ← sign
  let whole ← wholeDigits
  let places ← optional fraction
  let power ← optional exponent
  if places.isNone ∧ power.isNone then failure
  let places := places.getD []
  return Decimal.nearest negative (digitsValue 10 (whole ++ places)) (power.getD 0 - places.length)

/-- `inf` or `nan` with or without a sign -/
def specialFloat : Reader Decimal.Binary := do
  let negative ← sign
  (do text "inf"; return .infinite negative) <|> (do text "nan"; return .nan)

/-- a floating point number; one too large to be held is refused unless it is negative -/
def float : Reader Decimal.Binary :=
  (do
    let x ← finiteFloat
    if x = .infinite false then failure else return x) <|> specialFloat

/-! ## moments -/

/-- a number of `count` digits between two bounds -/
def field (count low high : Nat) : Reader Nat := do
  let n := digitsValue 10 (← exactly count Char.isDigit)
  if low ≤ n ∧ n ≤ high then return n else failure

/-- how many days a month has -/
def daysIn (year month : Nat) : Nat :=
  if month = 2 then
    if year % 4 = 0 ∧ (year % 100 ≠ 0 ∨ year % 400 = 0) then 29 else 28
  else if month = 4 ∨ month = 6 ∨ month = 9 ∨ month = 11 then 30
  else 31

def date : Reader Unit := do
  let year ← field 4 0 9999
  char '-'
  let month ← field 2 1 12
  char '-'
  let day ← field 2 1 31
  if daysIn year month < day then failure

def timeOfDay : Reader Unit := do
  let _ ← field 2 0 23
  char ':'
  let _ ← field 2 0 59
  char ':'
  let _ ← field 2 0 60
  let _ ← optional (do char '.'; takeWhile1 Char.isDigit)

def offset : Reader Unit :=
  char 'Z' <|> char 'z' <|> (do
    char '+' <|> char '-'
    let _ ← field 2 0 23
    char ':'
    let _ ← field 2 0 59)

def moment : Reader Unit :=
  (do
    date
    let _ ← optional (do
      char 'T' <|> char 't' <|> char ' '
      timeOfDay
      optional offset)) <|> timeOfDay

end CommentFree.Toml
