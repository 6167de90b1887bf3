import CommentFree.Decimal

/-!
# Values of a configuration document

A TOML document is a table: keys with values, in the order in which they came up.  Tables remember
how they were written, because that decides what may still be added to them.
-/

namespace CommentFree.Toml

/-- how a table was written -/
inductive TableStyle where
  /-- under a header of its own -/
  | header
  /-- only as part of a longer header -/
  | parent
  /-- as the front part of a dotted key -/
  | dotted
  /-- between braces -/
  | inline
  deriving DecidableEq, Inhabited

inductive Value where
  | string (text : String)
  | integer (n : Int)
  | float (x : Decimal.Binary)
  | bool (b : Bool)
  /-- a date, a time, or both -/
  | moment
  | array (items : List Value)
  | table (style : TableStyle) (entries : List (String × Value))
  /-- tables under headers in double brackets, the last one at the end -/
  | tables (items : List (List (String × Value)))
  deriving Inhabited

abbrev Entries := List (String × Value)

end CommentFree.Toml
