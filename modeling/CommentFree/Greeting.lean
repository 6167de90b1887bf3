import CommentFree.Host

/-!
# Greetings

A greeting is printed on a line of its own.  It never fails: if the output refuses it, it is lost.
-/

namespace CommentFree

def greeting (name : String) : String := "Hello, " ++ name ++ "!"

/-- prints the greeting for a name, if that is possible -/
def greet {m : Type → Type} [Monad m] [Host m] (name : String) : m Unit := do
  let _ ← (Host.print (greeting name ++ "\n")).run

end CommentFree
