/-!
# Cutting a text into lines

A text is cut after each character that ends a line, so every line keeps its terminator and the
lines put together give the text back (`cut_flatten`).  What ends a line is a parameter: it is
told the character and what follows, since `\r` ends a line only if no `\n` follows.
-/

namespace CommentFree.Lines

/-- cuts after each character at which `ends` holds; `done` and `current` stand in reverse -/
def cutOnto (ends : Char → List Char → Bool) (done : List (List Char)) (current : List Char) :
    List Char → List (List Char)
  | [] => if current = [] then done.reverse else (current.reverse :: done).reverse
  | c :: cs =>
    if ends c cs then cutOnto ends ((c :: current).reverse :: done) [] cs
    else cutOnto ends done (c :: current) cs

/-- the lines of a text; a last one without terminator counts if it is not empty -/
def cut (ends : Char → List Char → Bool) (text : List Char) : List (List Char) :=
  cutOnto ends [] [] text

theorem cutOnto_flatten (ends : Char → List Char → Bool) (done : List (List Char))
    (current text : List Char) :
    (cutOnto ends done current text).flatten = done.reverse.flatten ++ current.reverse ++ text := by
  induction text generalizing done current with
  | nil =>
    unfold cutOnto
    split
    · next h => simp [h]
    · simp
  | cons c cs ih =>
    unfold cutOnto
    split
    · rw [ih]; simp
    · rw [ih]; simp

/-- nothing of the text is lost -/
theorem cut_flatten (ends : Char → List Char → Bool) (text : List Char) :
    (cut ends text).flatten = text := by
  simp [cut, cutOnto_flatten]

/-- a line ends with `\n`, or with `\r` when no `\n` follows -/
def endsAny (c : Char) (rest : List Char) : Bool :=
  c = '\n' || (c = '\r' && rest.head? != some '\n')

/-- a line ends with `\n` only -/
def endsFeed (c : Char) (_ : List Char) : Bool := c = '\n'

end CommentFree.Lines
