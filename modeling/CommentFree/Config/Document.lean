import CommentFree.Config
import CommentFree.Text.Quoted
import CommentFree.Toml.Document

/-!
# Configuration documents

A configuration is written as a TOML document with the keys `output_suffix`, `context_lines` and
`language`.  The entries are looked at in the order of the document and the first fault ends the
reading; a key that must be there is missed after the entries of its table.  A language is a table,
or the list of its five values in the order of its keys.

* `Config.Fault`    what can be wrong with a document, with its wording;
* `Config.decode`   from the entries of a document to the settings as they were written;
* `Config.read`     from a text to an accepted configuration.
-/

namespace CommentFree.Config

open Toml (Value Entries)

/-! ## faults -/

/-- what a value was expected to be -/
inductive Wanted where
  | string
  | count
  | list
  | language
  deriving DecidableEq

def Wanted.text : Wanted → String
  | string => "a string"
  | count => "usize"
  | list => "a sequence"
  | language => "struct LanguageRules"

def described : Value → String
  | .string text => "string " ++ Quoted.quote text
  | .integer n => "integer `" ++ toString n ++ "`"
  | .float x => "floating point `" ++ x.text ++ "`"
  | .bool b => "boolean `" ++ (if b then "true" else "false") ++ "`"
  | .array _ | .tables _ => "sequence"
  | .moment | .table .. => "map"

/-- what is wrong with a document -/
inductive Fault where
  /-- it is no TOML document -/
  | malformed
  | unknownKey (key : String) (known : List String)
  | missingKey (key : String)
  | wrongType (found : Value) (wanted : Wanted)
  /-- a count below zero -/
  | negative (n : Int)
  /-- a language as a list that ends too early -/
  | shortList (length : Nat)
  /-- the settings make no sense -/
  | defect (d : Defect)

def keys : List String := ["output_suffix", "context_lines", "language"]

def languageKeys : List String := ["name", "single_line", "multi_start", "multi_end", "extensions"]

/-- keys as messages list them -/
def listed (known : List String) : String :=
  ", ".intercalate (known.map fun k => "`" ++ k ++ "`")

/-- what is told of a fault.  The reader's own words on a document that is not well formed are left
out: `<toml syntax>` stands in their place. -/
def Fault.message : Fault → String
  | malformed => "<toml syntax>"
  | unknownKey key known => "unknown field `" ++ key ++ "`, expected one of " ++ listed known
  | missingKey key => "missing field `" ++ key ++ "`"
  | wrongType found wanted => "invalid type: " ++ described found ++ ", expected " ++ wanted.text
  | negative n => "invalid value: integer `" ++ toString n ++ "`, expected " ++ Wanted.count.text
  | shortList length =>
    "invalid length " ++ length.repr ++ ", expected " ++ Wanted.language.text ++ " with " ++
      languageKeys.length.repr ++ " elements"
  | defect d => d.message

/-! ## plain values -/

def string : Value → Except Fault String
  | .string text => .ok text
  | v => .error (.wrongType v .string)

def count : Value → Except Fault Nat
  | .integer n => if n < 0 then .error (.negative n) else .ok n.toNat
  | v => .error (.wrongType v .count)

/-- the items of a list; tables under double brackets are a list too -/
def list : Value → Except Fault (List Value)
  | .array items => .ok items
  | .tables items => .ok (items.map (.table .header))
  | v => .error (.wrongType v .list)

def strings (v : Value) : Except Fault (List String) := do (← list v).mapM string

/-! ## languages -/

/-- a language of which not all keys were seen yet -/
structure Draft where
  name : Option String
  lineMark : String
  blockStart : String
  blockEnd : String
  extensions : Option (List String)

/-- no key was seen; delimiters that are never given are empty -/
def Draft.empty : Draft := ⟨none, "", "", "", none⟩

/-- takes in an entry of a language -/
def Draft.put (d : Draft) (entry : String × Value) : Except Fault Draft :=
  match entry with
  | ("name", v) => do return { d with name := some (← string v) }
  | ("single_line", v) => do return { d with lineMark := ← string v }
  | ("multi_start", v) => do return { d with blockStart := ← string v }
  | ("multi_end", v) => do return { d with blockEnd := ← string v }
  | ("extensions", v) => do return { d with extensions := some (← strings v) }
  | (key, _) => .error (.unknownKey key languageKeys)

/-- the language of a draft; the faults are for a missing name and for missing extensions -/
def Draft.finish (d : Draft) (noName noExtensions : Fault) : Except Fault Language :=
  match d.name, d.extensions with
  | none, _ => .error noName
  | _, none => .error noExtensions
  | some name, some exts => .ok ⟨name, d.lineMark, d.blockStart, d.blockEnd, exts⟩

def languageOfTable (entries : Entries) : Except Fault Language := do
  (← entries.foldlM Draft.put .empty).finish (.missingKey "name") (.missingKey "extensions")

def languageOfList (items : List Value) : Except Fault Language := do
  (← (languageKeys.zip items).foldlM Draft.put .empty).finish (.shortList 0) (.shortList 4)

/-- the key under which a date or a time appears as a table -/
def momentKey : String := "$__toml_private_datetime"

def language : Value → Except Fault Language
  | .table _ entries => languageOfTable entries
  | .array items => languageOfList items
  | .tables items => languageOfList (items.map (.table .header))
  | .moment => .error (.unknownKey momentKey languageKeys)
  | v => .error (.wrongType v .language)

/-! ## documents -/

def put (c : Config) (entry : String × Value) : Except Fault Config :=
  match entry with
  | ("output_suffix", v) => do return { c with outputSuffix := ← string v }
  | ("context_lines", v) => do return { c with contextLines := ← count v }
  | ("language", v) => do return { c with languages := ← (← list v).mapM language }
  | (key, _) => .error (.unknownKey key keys)

/-- the settings of a document as they were written -/
def decode (entries : Entries) : Except Fault Config := entries.foldlM put default

def read (document : String) : Except Fault Config :=
  match Toml.parse document with
  | none => .error .malformed
  | some entries => do (accept (← decode entries)).mapError .defect

/-- the configuration of a text, a fault told as a failure -/
def ofDocument (document : String) : Except Failure Config :=
  (read document).mapError fun fault => .of (.config fault.message)

end CommentFree.Config
