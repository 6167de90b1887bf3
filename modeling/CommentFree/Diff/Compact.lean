import CommentFree.Diff.Shift

/-!
# Compaction of a script

Each removal, and after that each addition, is moved up as far as it goes and then down as far as it
goes.  This brings runs of one kind together, which are then merged.

The next edit to be looked at is the one behind the place where the last one came to rest.  That may
be above the place it was taken from, if it has swallowed another edit on the way: lines that have
been passed are then passed once more.  What comes to an end is the number of edits of the kind,
and as long as that stays, what is left of the script (`settle_progress`).
-/

namespace CommentFree.Diff

variable {α : Type} [DecidableEq α]

theorem settle_progress (before : List (Edit α)) (e : Edit α) (after : List (Edit α)) :
    let up := shiftUp before e after
    let down := shiftDown up.before up.edit up.after
    Prod.Lex (· < ·) (· < ·)
      (tally e.kind (down.edit :: down.before) + tally e.kind down.after, weight down.after)
      (tally e.kind before + tally e.kind (e :: after), weight (e :: after)) := by
  intro up down
  have hkind : down.edit.kind = e.kind := (kind_shiftDown ..).trans (kind_shiftUp ..)
  have hself : tally e.kind (down.edit :: down.before) = tally e.kind down.before + 1 := by
    rw [← hkind, tally_cons_self]
  have hprogress : tally e.kind down.before + tally e.kind down.after <
        tally e.kind before + tally e.kind after ∨
      tally e.kind down.before + tally e.kind down.after ≤
        tally e.kind before + tally e.kind after ∧ weight down.after ≤ weight after :=
    shift_progress before e after
  rw [Prod.lex_def, hself, tally_cons_self, weight_cons]
  dsimp only
  omega

/-- settles the edits of one kind in turn -/
def settle (kind : Kind) (before after : List (Edit α)) : List (Edit α) :=
  match after with
  | [] => before.reverse
  | e :: after =>
    if _he : e.kind = kind then
      let up := shiftUp before e after
      let down := shiftDown up.before up.edit up.after
      settle kind (down.edit :: down.before) down.after
    else settle kind (e :: before) after
termination_by (tally kind before + tally kind after, weight after)
decreasing_by
  · exact _he ▸ settle_progress before e after
  · rw [tally_cons_of_ne _he, tally_cons_of_ne _he]
    exact .right _ (by rw [weight_cons]; omega)

/-- settles the removals of a script, then its additions -/
def compact (es : List (Edit α)) : List (Edit α) :=
  settle .add [] (settle .remove [] es)

end CommentFree.Diff
