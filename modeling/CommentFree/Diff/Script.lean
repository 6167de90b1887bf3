import CommentFree.Diff.Edit
import CommentFree.Diff.Midpoint

/-!
# From two lists to a script

`script` keeps what both lists share at the front and at the back.  If one of the rests is empty
the other is removed or added whole; otherwise both rests are cut at a midpoint and the halves are
compared on their own.  A cut that leaves all lines on one side is refused, so the halves are
always smaller.
-/

namespace CommentFree.Diff

variable {α : Type} [DecidableEq α]

/-- an edit, unless it has no lines -/
def single (kind : Kind) (oldAt newAt : Nat) (lines : List α) : List (Edit α) :=
  if lines = [] then [] else [⟨kind, oldAt, newAt, lines⟩]

/-- two lists less what they share at both ends -/
structure Trimmed (α : Type) where
  front : List α
  old : List α
  new : List α
  back : List α

/-- takes off what two lists share, first at the front, then at the back -/
def trim (old new : List α) : Trimmed α :=
  let p := sharedFront old new
  let old' := old.drop p
  let new' := new.drop p
  let s := sharedBack old' new'
  ⟨old.take p, old'.take (old'.length - s), new'.take (new'.length - s), old'.drop (old'.length - s)⟩

theorem trim_old_length (old new : List α) : (trim old new).old.length ≤ old.length := by
  simp only [trim, List.length_take, List.length_drop]; omega

theorem trim_new_length (old new : List α) : (trim old new).new.length ≤ new.length := by
  simp only [trim, List.length_take, List.length_drop]; omega

/-- a cut leaves lines on both sides of it -/
def ProperCut (old new : List α) (x y : Nat) : Prop :=
  0 < x + y ∧ x ≤ old.length ∧ y ≤ new.length ∧ x + y < old.length + new.length

instance (old new : List α) (x y : Nat) : Decidable (ProperCut old new x y) :=
  inferInstanceAs (Decidable (_ ∧ _))

/-- the script from `old` to `new`, where `i` old and `j` new lines stand before them -/
def scriptAt (old new : List α) (i j : Nat) : List (Edit α) :=
  let t := trim old new
  let i' := i + t.front.length
  let j' := j + t.front.length
  let middle :=
    if t.old = [] ∨ t.new = [] then single .remove i' j' t.old ++ single .add i' j' t.new
    else match midpoint? t.old.toArray t.new.toArray with
      | some (x, y) =>
        if ProperCut t.old t.new x y then
          scriptAt (t.old.take x) (t.new.take y) i' j' ++
            scriptAt (t.old.drop x) (t.new.drop y) (i' + x) (j' + y)
        else single .remove i' j' t.old ++ single .add i' j' t.new
      | none => single .remove i' j' t.old ++ single .add i' j' t.new
  single .keep i j t.front ++ middle ++
    single .keep (i' + t.old.length) (j' + t.new.length) t.back
termination_by old.length + new.length
decreasing_by
  all_goals
    have ho := trim_old_length old new
    have hn := trim_new_length old new
    rename_i hcut
    obtain ⟨_, hx, hy, _⟩ := hcut
    simp only [List.length_take, List.length_drop, t] at *
    omega

def script (old new : List α) : List (Edit α) := scriptAt old new 0 0

end CommentFree.Diff
