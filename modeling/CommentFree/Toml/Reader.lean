/-!
# Reading characters

A reader takes characters off the front of a text and gives a result, or refuses the text.  A
reader that refuses takes nothing, so another can be tried in its place.
-/

namespace CommentFree.Toml

/-- reads from the front of a text, or refuses it -/
abbrev Reader := StateT (List Char) Option

namespace Reader

def peek : Reader (Option Char) := do return (← get).head?

def satisfy (p : Char → Bool) : Reader Char := do
  match ← get with
  | c :: cs => if p c then set cs; return c else failure
  | [] => failure

def char (c : Char) : Reader Unit := do let _ ← satisfy (· = c)

def text (s : String) : Reader Unit := do
  let cs ← get
  if s.toList.isPrefixOf cs then set (cs.drop s.toList.length) else failure

/-- all characters up to the first that does not satisfy `p` -/
def takeWhile (p : Char → Bool) : Reader (List Char) := do
  let cs ← get
  set (cs.dropWhile p)
  return cs.takeWhile p

/-- as `takeWhile`, but at least one -/
def takeWhile1 (p : Char → Bool) : Reader (List Char) := do
  let cs ← takeWhile p
  if cs.isEmpty then failure else return cs

def exactly (n : Nat) (p : Char → Bool) : Reader (List Char) := do
  let cs ← get
  let taken := cs.take n
  if taken.length = n ∧ taken.all p then set (cs.drop n); return taken else failure

/-- repeats a reader until it says stop, at most `n` times; `done` stands in reverse -/
def repeatOnto {α : Type} (r : Reader (Option α)) (done : List α) : Nat → Reader (List α)
  | 0 => failure
  | n + 1 => do
    match ← r with
    | some a => repeatOnto r (a :: done) n
    | none => return done.reverse

/-- repeats a reader until it says stop.  It takes a character each time, so the length of the text
bounds the repetitions. -/
def repeatUntilNone {α : Type} (r : Reader (Option α)) : Reader (List α) := do
  repeatOnto r [] ((← get).length + 1)

end Reader

end CommentFree.Toml
