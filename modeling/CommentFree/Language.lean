import CommentFree.Path

/-!
# Languages

A language is a set of comment delimiters with the file extensions it goes by; an empty delimiter
means that the language has no comment of that form.  A file's language is read off the extension
of its path: the first entry of a registry that lists it, with or without a leading dot and in any
ASCII case.
-/

namespace CommentFree

/-- the comment delimiters of one family of languages -/
structure Language where
  name : String
  /-- opens a comment that runs to the end of its line -/
  lineMark : String
  /-- opens a comment that runs to `blockEnd` -/
  blockStart : String
  blockEnd : String
  extensions : List String
  deriving DecidableEq, Inhabited

namespace Language

/-- the extension with a leading dot -/
def dotted (ext : String) : String :=
  if ext.toList.head? = some '.' then ext else "." ++ ext

/-- one leading dot is no part of an extension -/
def undotted (ext : List Char) : List Char :=
  if ext.head? = some '.' then ext.tail else ext

def normalized (l : Language) : Language := { l with extensions := l.extensions.map dotted }

/-- whether an extension belongs to the language; one leading dot and ASCII case do not count -/
def matchesExtension (l : Language) (ext : List Char) : Bool :=
  l.extensions.any fun known =>
    (undotted known.toList).map Char.toLower == (undotted ext).map Char.toLower

def handles (l : Language) (p : Path) : Bool :=
  match p.extension? with
  | some ext => l.matchesExtension ext
  | none => false

/-- the languages known without any configuration, in order of priority -/
def builtin : List Language :=
  [⟨"c", "//", "/*", "*/", [".c", ".h", ".cpp", ".hpp", ".cs", ".java", ".js"]⟩,
   ⟨"python", "#", "", "", [".py"]⟩,
   ⟨"shell", "#", "", "", [".sh", ".bash"]⟩,
   ⟨"ruby", "#", "=begin", "=end", [".rb"]⟩,
   ⟨"perl", "#", "=pod", "=cut", [".pl"]⟩,
   ⟨"markup", "", "<!--", "-->", [".html", ".htm", ".xml", ".xhtml"]⟩,
   ⟨"css", "", "/*", "*/", [".css"]⟩,
   ⟨"php", "//", "/*", "*/", [".php"]⟩]

/-- the first language of a registry that handles the path -/
def detect? (registry : List Language) (p : Path) : Option Language :=
  registry.find? (·.handles p)

/-- the place in the registry of the language that `detect?` finds -/
def detectIndex? (registry : List Language) (p : Path) : Option Nat :=
  registry.findIdx? (·.handles p)

end Language

end CommentFree
