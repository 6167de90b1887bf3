import CommentFree.Diff.Compact
import CommentFree.Diff.Script

/-!
# Hunks

A script is read as blocks that alternate: lines kept, and a change, which takes away some lines
and puts others in their place.  Hunks are the changes with up to `context` kept lines around them:
the kept lines at either end of the script are cut down to `context`, and a run of more than
`2 * context` kept lines ends one hunk and begins the next.
-/

namespace CommentFree.Diff

variable {α : Type}

/-- a part of a script: kept lines, or a change -/
inductive Block (α : Type) where
  | keep (oldAt newAt : Nat) (lines : List α)
  | change (oldAt newAt : Nat) (removed added : List α)
  deriving Inhabited

namespace Block

def oldAt : Block α → Nat
  | keep i _ _ => i
  | change i _ _ _ => i

def newAt : Block α → Nat
  | keep _ j _ => j
  | change _ j _ _ => j

def old : Block α → List α
  | keep _ _ ls => ls
  | change _ _ removed _ => removed

def new : Block α → List α
  | keep _ _ ls => ls
  | change _ _ _ added => added

def isKeep : Block α → Bool
  | keep _ _ _ => true
  | change _ _ _ _ => false

/-- the last `n` lines of a kept block; changes stay whole -/
def lastLines (n : Nat) : Block α → Block α
  | keep i j ls => keep (i + (ls.length - n)) (j + (ls.length - n)) (ls.drop (ls.length - n))
  | b => b

/-- the first `n` lines of a kept block; changes stay whole -/
def firstLines (n : Nat) : Block α → Block α
  | keep i j ls => keep i j (ls.take n)
  | b => b

end Block

/-! ## blocks of a script -/

/-- puts an edit in front of the blocks that follow it.  A change stands where its first removal
stands in the old lines and where its first addition stands in the new ones. -/
def addEdit (e : Edit α) (bs : List (Block α)) : List (Block α) :=
  match e.kind, bs with
  | .keep, .keep _ _ ls :: rest => .keep e.oldAt e.newAt (e.lines ++ ls) :: rest
  | .keep, _ => .keep e.oldAt e.newAt e.lines :: bs
  | .remove, .change _ j removed added :: rest =>
    .change e.oldAt (if added.isEmpty then e.newAt else j) (e.lines ++ removed) added :: rest
  | .remove, _ => .change e.oldAt e.newAt e.lines [] :: bs
  | .add, .change i _ removed added :: rest =>
    .change (if removed.isEmpty then e.oldAt else i) e.newAt removed (e.lines ++ added) :: rest
  | .add, _ => .change e.oldAt e.newAt [] e.lines :: bs

def blocks (es : List (Edit α)) : List (Block α) := es.foldr addEdit []

/-! ## hunks of the blocks -/

/-- blocks of which the first is `f` of what it was -/
def mapFirst (f : Block α → Block α) : List (Block α) → List (Block α)
  | [] => []
  | b :: bs => f b :: bs

/-- blocks of which the last is `f` of what it was -/
def mapLast (f : Block α → Block α) (bs : List (Block α)) : List (Block α) :=
  (mapFirst f bs.reverse).reverse

/-- a hunk that is nothing but kept lines is none; `pending` has its last block first -/
def closeHunk : List (Block α) → List (List (Block α))
  | [] => []
  | [.keep _ _ _] => []
  | pending => [pending.reverse]

/-- parts blocks at each long run of kept lines -/
def splitHunks (context : Nat) (pending : List (Block α)) :
    List (Block α) → List (List (Block α))
  | [] => closeHunk pending
  | b :: bs =>
    if b.isKeep ∧ 2 * context < b.old.length then
      (b.firstLines context :: pending).reverse :: splitHunks context [b.lastLines context] bs
    else splitHunks context (b :: pending) bs

/-- the hunks of a list of blocks -/
def hunks (context : Nat) (bs : List (Block α)) : List (List (Block α)) :=
  splitHunks context [] (mapLast (·.firstLines context) (mapFirst (·.lastLines context) bs))

def hunksBetween [DecidableEq α] (context : Nat) (old new : List α) : List (List (Block α)) :=
  hunks context (blocks (compact (script old new)))

end CommentFree.Diff
