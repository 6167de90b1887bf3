import CommentFree.Failure
import CommentFree.Text.Utf8

/-!
# Paths

A path is kept as the text it was given as, because that text is printed back.  What it *names* is
its list of components: the text is cut at every `/`, empty parts vanish, `.` and `..` are
components of their own.  Two paths are the same when their components agree (`Path.Same`), so
`a//b.c` and `/a/b.c` are one path and `./a.c` is another than `a.c`.

* `fileName?`, `extension?`   read the last component that is not `.`;
* `withFileName`              puts another name in its place, working on the text;
* `copyPath`                  the path of the stripped copy beside a file: a suffix goes before the
                              last dot of the name.
-/

namespace CommentFree

/-- the path of a file, as written -/
structure Path where
  text : String
  deriving DecidableEq, Inhabited

namespace Path

/-- one step of a path -/
inductive Component where
  /-- the step `.` -/
  | current
  /-- the step `..` -/
  | parent
  /-- the step to an entry of that name -/
  | entry (name : List Char)
  deriving DecidableEq

/-- the path spelled by bytes, which have to be well-formed -/
def ofBytes (bytes : List UInt8) : Except Failure Path :=
  match Utf8.decode? bytes with
  | some text => .ok ⟨text⟩
  | none => .error (.message ("Path is not valid UTF-8: " ++ Utf8.decodeLossy bytes))

/-! ## components -/

/-- the parts between slashes, empty ones included -/
def segments : List Char → List (List Char)
  | [] => [[]]
  | c :: cs =>
    if c = '/' then [] :: segments cs
    else match segments cs with
      | [] => [[c]]
      | s :: ss => (c :: s) :: ss

/-- the step a non-empty part stands for -/
def Component.ofSegment (s : List Char) : Component :=
  if s = ['.'] then .current else if s = ['.', '.'] then .parent else .entry s

/-- the steps of a text -/
def componentsOf (text : List Char) : List Component :=
  ((segments text).filter (· ≠ [])).map .ofSegment

def components (p : Path) : List Component := componentsOf p.text.toList

/-- paths name the same file when their steps agree -/
def Same (p q : Path) : Prop := p.components = q.components

instance (p q : Path) : Decidable (Same p q) := inferInstanceAs (Decidable (_ = _))

theorem Same.refl (p : Path) : p.Same p := rfl
theorem Same.symm {p q : Path} (h : p.Same q) : q.Same p := Eq.symm h
theorem Same.trans {p q r : Path} (h : p.Same q) (k : q.Same r) : p.Same r := Eq.trans h k

/-! ## base directories -/

def fromRoot (p : Path) : Bool := p.text.toList.head? = some '/'

/-- the text of a path seen from a base directory, which does not matter to a path from the root -/
def under (p : Path) (base : String) : String :=
  if p.fromRoot then p.text
  else if base = "" ∨ base.toList.getLast? = some '/' then base ++ p.text
  else base ++ "/" ++ p.text

/-! ## the file name -/

/-- the name at the end of a list of steps, steps `.` after it aside -/
def lastEntry? (steps : List Component) : Option (List Char) :=
  match steps.reverse.dropWhile (· = .current) with
  | .entry name :: _ => some name
  | _ => none

/-- the last component that is not `.`, if it is a name -/
def fileName? (p : Path) : Option (List Char) := lastEntry? p.components

/-- cuts a name at its last dot, unless that dot is the first character -/
def splitExtension? (name : List Char) : Option (List Char × List Char) :=
  match name.reverse.dropWhile (· ≠ '.') with
  | _ :: c :: cs => some ((c :: cs).reverse, (name.reverse.takeWhile (· ≠ '.')).reverse)
  | _ => none

def extension? (p : Path) : Option (List Char) :=
  p.fileName?.bind fun name => (splitExtension? name).map (·.2)

/-! ## siblings -/

/-- the last part of a reversed text and what stands before it, without the slashes between -/
def cutLast (rev : List Char) : List Char × List Char :=
  let r := rev.dropWhile (· = '/')
  (r.takeWhile (· ≠ '/'), (r.dropWhile (· ≠ '/')).dropWhile (· = '/'))

theorem dropWhile_length_le {α : Type} (f : α → Bool) (l : List α) :
    (l.dropWhile f).length ≤ l.length := (l.dropWhile_suffix f).length_le

theorem cutLast_length (rev : List Char) (h : (cutLast rev).1 ≠ []) :
    (cutLast rev).2.length < rev.length := by
  have h1 := dropWhile_length_le (· = '/') ((rev.dropWhile (· = '/')).dropWhile (· ≠ '/'))
  have h2 := dropWhile_length_le (· = '/') rev
  have h3 := congrArg List.length
    (List.takeWhile_append_dropWhile (p := (· ≠ '/')) (l := rev.dropWhile (· = '/')))
  have h4 : 0 < ((rev.dropWhile (· = '/')).takeWhile (· ≠ '/')).length :=
    List.length_pos_iff.mpr h
  simp only [List.length_append, cutLast] at *
  omega

/-- the reversed text before the last component; steps `.` at the end go with it -/
def parentRev (rev : List Char) : List Char :=
  if (cutLast rev).1 = ['.'] then parentRev (cutLast rev).2 else (cutLast rev).2
termination_by rev.length
decreasing_by exact cutLast_length rev (by simp [*])

def parentText (text : List Char) : List Char := (parentRev text.reverse).reverse

/-- appends a text to the text of a directory: one leading slash of it is dropped -/
def push (dir name : List Char) : List Char :=
  let name := if name.head? = some '/' then name.tail else name
  if dir = [] ∨ dir.getLast? = some '/' then dir ++ name else dir ++ '/' :: name

/-- the path with another text in the place of its file name -/
def withFileName (p : Path) (name : List Char) : Path :=
  let dir := if p.fileName?.isSome then parentText p.text.toList else p.text.toList
  ⟨String.ofList (push dir name)⟩

/-- a name with a suffix before its last dot, or at its end when there is nothing to cut -/
def suffixed (name suffix : List Char) : List Char :=
  match splitExtension? name with
  | some (stem, ext) => stem ++ suffix ++ '.' :: ext
  | none => name ++ suffix

/-- the path of the stripped copy: beside the file, with the suffix in its name -/
def copyPath (p : Path) (suffix : String) : Path :=
  p.withFileName (suffixed (p.fileName?.getD []) suffix.toList)

end Path

end CommentFree
