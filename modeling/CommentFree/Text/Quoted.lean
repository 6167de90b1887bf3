import CommentFree.Text.Shapeless

/-!
# Quoted text

A text in a message stands between double quotes.  Quotes and backslashes in it get a backslash,
the common controls their letter, and every other character without a shape of its own its code
point in hexadecimal.
-/

namespace CommentFree.Quoted

def encodeChar (c : Char) : List Char :=
  if c = '"' then "\\\"".toList
  else if c = '\\' then "\\\\".toList
  else if c = '\n' then "\\n".toList
  else if c = '\r' then "\\r".toList
  else if c = '\t' then "\\t".toList
  else if c = '\x00' then "\\0".toList
  else if isShapeless c then "\\u\x7b".toList ++ Nat.toDigits 16 c.toNat ++ ['\x7d']
  else [c]

def quote (text : String) : String :=
  String.ofList ('"' :: (text.toList.flatMap encodeChar ++ ['"']))

end CommentFree.Quoted
