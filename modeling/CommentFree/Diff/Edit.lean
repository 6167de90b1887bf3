/-!
# Edits

A script turns a list of old lines into a list of new ones.  Each edit carries the lines it keeps,
removes or adds, so the two sides of a script (`oldSide`, `newSide`) are read off it directly.
Beside its lines an edit records where it stands on both sides; these positions are what hunk
headers print.
-/

namespace CommentFree.Diff

/-- what an edit does with its lines -/
inductive Kind where
  | keep
  | remove
  | add
  deriving DecidableEq, Inhabited

/-- a run of lines that share their fate -/
structure Edit (α : Type) where
  kind : Kind
  /-- old lines before it -/
  oldAt : Nat
  /-- new lines before it -/
  newAt : Nat
  lines : List α
  deriving Inhabited

variable {α : Type}

def Edit.old (e : Edit α) : List α :=
  match e.kind with
  | .add => []
  | _ => e.lines

def Edit.new (e : Edit α) : List α :=
  match e.kind with
  | .remove => []
  | _ => e.lines

/-- the lines a script starts from -/
def oldSide (es : List (Edit α)) : List α := es.flatMap Edit.old

/-- the lines a script ends with -/
def newSide (es : List (Edit α)) : List α := es.flatMap Edit.new

theorem oldSide_nil : oldSide ([] : List (Edit α)) = [] := rfl
theorem oldSide_cons (e : Edit α) (es : List (Edit α)) : oldSide (e :: es) = e.old ++ oldSide es := rfl
theorem oldSide_append (a b : List (Edit α)) : oldSide (a ++ b) = oldSide a ++ oldSide b := by
  simp [oldSide, List.flatMap_append]
theorem newSide_nil : newSide ([] : List (Edit α)) = [] := rfl
theorem newSide_cons (e : Edit α) (es : List (Edit α)) : newSide (e :: es) = e.new ++ newSide es := rfl
theorem newSide_append (a b : List (Edit α)) : newSide (a ++ b) = newSide a ++ newSide b := by
  simp [newSide, List.flatMap_append]

/-! ## what two lists have in common -/

variable [DecidableEq α]

/-- how many elements two lists share at the front -/
def sharedFront : List α → List α → Nat
  | a :: as, b :: bs => if a = b then sharedFront as bs + 1 else 0
  | _, _ => 0

/-- how many elements two lists share at the back -/
def sharedBack (a b : List α) : Nat := sharedFront a.reverse b.reverse

theorem take_sharedFront (a b : List α) : a.take (sharedFront a b) = b.take (sharedFront a b) := by
  induction a generalizing b with
  | nil => cases b <;> simp [sharedFront]
  | cons x xs ih =>
    cases b with
    | nil => simp [sharedFront]
    | cons y ys =>
      rw [sharedFront]
      by_cases h : x = y
      · rw [if_pos h, List.take_succ_cons, List.take_succ_cons, ih ys, h]
      · rw [if_neg h, List.take_zero, List.take_zero]

theorem drop_sharedBack (a b : List α) :
    a.drop (a.length - sharedBack a b) = b.drop (b.length - sharedBack a b) := by
  have h := take_sharedFront a.reverse b.reverse
  rw [List.take_reverse, List.take_reverse] at h
  exact List.reverse_inj.mp h

theorem head?_ne_of_sharedFront {a b : List α} (ha : a ≠ []) (h : sharedFront a b = 0) :
    b.head? ≠ a.head? := by
  obtain ⟨x, xs, rfl⟩ := List.exists_cons_of_ne_nil ha
  intro hhead
  obtain ⟨ys, rfl⟩ := List.head?_eq_some_iff.mp hhead
  rw [sharedFront, if_pos rfl] at h
  exact nomatch h

theorem sharedFront_le_left (a b : List α) : sharedFront a b ≤ a.length := by
  induction a generalizing b with
  | nil => simp [sharedFront]
  | cons x xs ih =>
    cases b with
    | nil => simp [sharedFront]
    | cons y ys =>
      simp only [sharedFront]
      split
      · exact Nat.succ_le_succ (ih ys)
      · exact Nat.zero_le _

theorem sharedBack_le_left (a b : List α) : sharedBack a b ≤ a.length := by
  simpa [sharedBack] using sharedFront_le_left a.reverse b.reverse

end CommentFree.Diff
