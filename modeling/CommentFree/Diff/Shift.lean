import CommentFree.Diff.Edit

/-!
# Moving one edit

A run of added lines can often slide over the kept lines beside it without changing either side of
the script: keeping `k ++ s` and adding `a ++ s` gives the same two lists as keeping `k`, adding
`s ++ a` and keeping `s`.  `shiftUp` and `shiftDown` move a removal or an addition as far as it
goes.  Edits of the other kind are passed, edits of the same kind swallowed.  Kept lines are passed
by additions only.  An edit that passes another keeps the positions it recorded, so that after a
swap they need not be exact any more.

The script under work is a list with a focus: `before` has the nearest edit first.

An edit that has been moved up and then down again is not above the place where it was, unless it
has swallowed another one: a slide can be undone, and so can a swap.  To say so, `remaining` moves
an edit down one line at a time and tells how much of the script is left behind it.

* `weight_shiftDown`      `shiftDown` leaves as much behind it;
* `shiftUp_progress`      `shiftUp` changes nothing about that, or leaves one edit of the kind less.
-/

namespace CommentFree.Diff

variable {α : Type}

/-- a script with one edit in focus -/
structure Focus (α : Type) where
  before : List (Edit α)
  edit : Edit α
  after : List (Edit α)

/-- the edits and lines in front of the focus or behind it, as a bound on its moves -/
def weight : List (Edit α) → Nat
  | [] => 0
  | e :: es => e.lines.length + 1 + weight es

theorem weight_cons (e : Edit α) (es : List (Edit α)) :
    weight (e :: es) = e.lines.length + 1 + weight es := rfl

/-- lines given to the kept run at the front of a list: they join it, or form a run of their own -/
def giveFront (lines : List α) (oldAt newAt : Nat) : List (Edit α) → List (Edit α)
  | e :: es =>
    if e.kind = .keep then
      ⟨.keep, e.oldAt - lines.length, e.newAt - lines.length, lines ++ e.lines⟩ :: es
    else ⟨.keep, oldAt, newAt, lines⟩ :: e :: es
  | [] => [⟨.keep, oldAt, newAt, lines⟩]

/-- lines given to the kept run that ends the part before the focus -/
def giveBack (lines : List α) (oldAt newAt : Nat) : List (Edit α) → List (Edit α)
  | e :: es =>
    if e.kind = .keep then { e with lines := e.lines ++ lines } :: es
    else ⟨.keep, oldAt, newAt, lines⟩ :: e :: es
  | [] => [⟨.keep, oldAt, newAt, lines⟩]

/-- how many edits of a kind a list has -/
def tally (kind : Kind) (es : List (Edit α)) : Nat := es.countP (·.kind = kind)

theorem tally_cons_self (e : Edit α) (es : List (Edit α)) :
    tally e.kind (e :: es) = tally e.kind es + 1 :=
  List.countP_cons_of_pos (decide_eq_true rfl)

theorem tally_cons_of_ne {e : Edit α} {kind : Kind} (he : e.kind ≠ kind) (es : List (Edit α)) :
    tally kind (e :: es) = tally kind es :=
  List.countP_cons_of_neg (by simpa using he)

section
variable {kind : Kind} (hkind : kind ≠ .keep) (lines : List α) (i j : Nat) (es : List (Edit α))
include hkind

theorem tally_giveFront : tally kind (giveFront lines i j es) = tally kind es := by
  cases es with
  | nil => exact tally_cons_of_ne hkind.symm []
  | cons e es =>
    rw [giveFront]
    by_cases he : e.kind = .keep
    · rw [if_pos he, tally_cons_of_ne hkind.symm, tally_cons_of_ne (he ▸ hkind.symm)]
    · rw [if_neg he, tally_cons_of_ne hkind.symm]

theorem tally_giveBack : tally kind (giveBack lines i j es) = tally kind es := by
  cases es with
  | nil => exact tally_cons_of_ne hkind.symm []
  | cons e es =>
    rw [giveBack]
    by_cases he : e.kind = .keep
    · have hne (k : List α) : Edit.kind { e with lines := k } ≠ kind := he ▸ hkind.symm
      rw [if_pos he, tally_cons_of_ne (hne _), tally_cons_of_ne (hne e.lines)]
    · rw [if_neg he, tally_cons_of_ne hkind.symm]

end

variable [DecidableEq α]

/-- moves the edit in focus up as far as it goes -/
def shiftUp (before : List (Edit α)) (e : Edit α) (after : List (Edit α)) : Focus α :=
  match before with
  | [] => ⟨[], e, after⟩
  | prev :: rest =>
    match e.kind, prev.kind with
    | .add, .keep =>
      let s := sharedBack prev.lines e.lines
      if s = 0 then
        if prev.lines.isEmpty then shiftUp rest e after else ⟨prev :: rest, e, after⟩
      else
        let cutAt := prev.lines.length - s
        let moved := prev.lines.drop cutAt
        let after := giveFront moved (prev.oldAt + cutAt) (e.newAt + e.lines.length - s) after
        let e := { e with
          oldAt := e.oldAt - s
          newAt := e.newAt - s
          lines := moved ++ e.lines.take (e.lines.length - s) }
        if cutAt = 0 then shiftUp rest e after
        else shiftUp ({ prev with lines := prev.lines.take cutAt } :: rest) e after
    | .remove, .keep => if prev.lines.isEmpty then shiftUp rest e after else ⟨prev :: rest, e, after⟩
    | .add, .remove => shiftUp rest e (prev :: after)
    | .remove, .add => shiftUp rest e (prev :: after)
    | .add, .add => shiftUp rest { prev with lines := prev.lines ++ e.lines } after
    | .remove, .remove => shiftUp rest { prev with lines := prev.lines ++ e.lines } after
    | .keep, _ => ⟨prev :: rest, e, after⟩
termination_by weight before
decreasing_by
  all_goals simp only [weight_cons, List.length_take]
  all_goals omega

/-- moves the edit in focus down as far as it goes -/
def shiftDown (before : List (Edit α)) (e : Edit α) (after : List (Edit α)) : Focus α :=
  match after with
  | [] => ⟨before, e, []⟩
  | next :: rest =>
    match e.kind, next.kind with
    | .add, .keep =>
      let s := sharedFront next.lines e.lines
      if s = 0 then
        if next.lines.isEmpty then shiftDown before e rest else ⟨before, e, next :: rest⟩
      else
        let moved := next.lines.take s
        let before := giveBack moved next.oldAt e.newAt before
        let e := { e with
          oldAt := e.oldAt + s
          newAt := e.newAt + s
          lines := e.lines.drop s ++ moved }
        if next.lines.length ≤ s then shiftDown before e rest
        else
          shiftDown before e
            (⟨.keep, next.oldAt + s, next.newAt + s, next.lines.drop s⟩ :: rest)
    | .remove, .keep => if next.lines.isEmpty then shiftDown before e rest else ⟨before, e, next :: rest⟩
    | .add, .remove => shiftDown (next :: before) e rest
    | .remove, .add => shiftDown (next :: before) e rest
    | .add, .add => shiftDown before { e with lines := e.lines ++ next.lines } rest
    | .remove, .remove => shiftDown before { e with lines := e.lines ++ next.lines } rest
    | .keep, _ => ⟨before, e, next :: rest⟩
termination_by weight after
decreasing_by
  all_goals simp only [weight_cons, List.length_drop]
  all_goals omega

/-! ## how far an edit goes -/

/-- what is left behind an edit once it has moved down, one line at a time: `kept` are the kept lines
right behind it, `after` are the edits behind these -/
def remaining (kind : Kind) : (lines kept : List α) → (after : List (Edit α)) → Nat
  | lines, a :: kept, after =>
    if kind = .add ∧ lines.head? = some a then remaining kind (lines.tail ++ [a]) kept after
    else kept.length + 2 + weight after
  | _, [], [] => 0
  | lines, [], e :: after =>
    if e.kind = .keep then remaining kind lines e.lines after
    else if e.kind = kind then remaining kind (lines ++ e.lines) [] after
    else remaining kind lines [] after
termination_by _ kept after => kept.length + weight after
decreasing_by
  all_goals simp only [weight_cons, List.length_cons, List.length_nil]
  all_goals omega

theorem remaining_keep {e : Edit α} (he : e.kind = .keep) (kind : Kind) (lines : List α)
    (after : List (Edit α)) :
    remaining kind lines [] (e :: after) = remaining kind lines e.lines after := by
  rw [remaining, if_pos he]

theorem remaining_swallow {e : Edit α} (he : e.kind ≠ .keep) (lines : List α)
    (after : List (Edit α)) :
    remaining e.kind lines [] (e :: after) = remaining e.kind (lines ++ e.lines) [] after := by
  rw [remaining, if_neg he, if_pos rfl]

theorem remaining_pass {e : Edit α} {kind : Kind} (he : e.kind ≠ .keep) (hne : e.kind ≠ kind)
    (lines : List α) (after : List (Edit α)) :
    remaining kind lines [] (e :: after) = remaining kind lines [] after := by
  rw [remaining, if_neg he, if_neg hne]

theorem remaining_stop {kind : Kind} {lines kept : List α} (hkept : kept ≠ [])
    (h : kind = .add → lines.head? ≠ kept.head?) (after : List (Edit α)) :
    remaining kind lines kept after = kept.length + 1 + weight after := by
  obtain ⟨a, kept, rfl⟩ := List.exists_cons_of_ne_nil hkept
  rw [remaining, if_neg fun hadd => h hadd.1 hadd.2, List.length_cons]

/-- sliding over lines in common is sliding over them one by one -/
theorem remaining_slide (m l k : List α) (after : List (Edit α)) :
    remaining .add (m ++ l) (m ++ k) after = remaining .add (l ++ m) k after := by
  induction m generalizing l with
  | nil => rw [List.nil_append, List.nil_append, List.append_nil]
  | cons a m ih =>
    rw [List.cons_append, List.cons_append, remaining, if_pos ⟨rfl, rfl⟩, List.tail_cons,
      List.append_assoc, ih (l ++ [a]), List.append_assoc, List.singleton_append]

theorem remaining_le (kind : Kind) (lines kept : List α) (after : List (Edit α)) :
    remaining kind lines kept after ≤ kept.length + min 1 kept.length + weight after := by
  fun_induction remaining kind lines kept after with
  | case1 lines a kept after h ih =>
    rw [List.length_cons]
    omega
  | case2 lines a kept after h =>
    rw [List.length_cons]
    omega
  | case3 => exact Nat.zero_le _
  | case4 lines e after h ih =>
    rw [weight_cons]
    omega
  | case5 lines e after h h' ih | case6 lines e after h h' ih =>
    rw [List.length_nil] at ih ⊢
    rw [weight_cons]
    omega

theorem remaining_nil_le (kind : Kind) (lines : List α) (after : List (Edit α)) :
    remaining kind lines [] after ≤ weight after := by
  simpa using remaining_le kind lines [] after

/-- what has slid up slides down again -/
theorem remaining_giveFront (m l : List α) (i j : Nat) (after : List (Edit α)) :
    remaining .add (m ++ l) [] (giveFront m i j after) = remaining .add (l ++ m) [] after := by
  have hself : remaining .add (m ++ l) [] (⟨.keep, i, j, m⟩ :: after) =
      remaining .add (l ++ m) [] after := by
    have hslide := remaining_slide m l [] after
    rw [List.append_nil] at hslide
    rw [remaining_keep rfl, hslide]
  cases after with
  | nil => exact hself
  | cons e rest =>
    rw [giveFront]
    by_cases he : e.kind = .keep
    · rw [if_pos he, remaining_keep rfl, remaining_slide, remaining_keep he]
    · rw [if_neg he, hself]

theorem remaining_sharedFront (lines kept : List α) (after : List (Edit α)) :
    let s := sharedFront kept lines
    remaining .add lines kept after =
      remaining .add (lines.drop s ++ kept.take s) (kept.drop s) after := by
  intro s
  have hlines : lines = kept.take s ++ lines.drop s := by
    rw [take_sharedFront, List.take_append_drop]
  calc remaining .add lines kept after
      = remaining .add (kept.take s ++ lines.drop s) (kept.take s ++ kept.drop s) after := by
        rw [← hlines, List.take_append_drop]
    _ = remaining .add (lines.drop s ++ kept.take s) (kept.drop s) after := remaining_slide ..

theorem remaining_sharedBack (kept lines : List α) (i j : Nat) (after : List (Edit α)) :
    let s := sharedBack kept lines
    let moved := kept.drop (kept.length - s)
    remaining .add (moved ++ lines.take (lines.length - s)) [] (giveFront moved i j after) =
      remaining .add lines [] after := by
  intro s moved
  have hmoved : moved = lines.drop (lines.length - s) := drop_sharedBack kept lines
  rw [remaining_giveFront, hmoved, List.take_append_drop]

/-! ## moving down -/

theorem kind_shiftDown (before : List (Edit α)) (e : Edit α) (after : List (Edit α)) :
    (shiftDown before e after).edit.kind = e.kind := by
  fun_induction shiftDown before e after with
  | case1 | case3 | case7 | case12 => rfl
  | case2 | case4 | case5 | case6 | case8 | case9 | case10 | case11 => assumption

theorem weight_shiftDown (before : List (Edit α)) {e : Edit α} (after : List (Edit α))
    (h : e.kind ≠ .keep) :
    weight (shiftDown before e after).after = remaining e.kind e.lines [] after := by
  fun_induction shiftDown before e after with
  | case1 => rw [remaining]; rfl
  | case2 before e next rest hnext he s hs hempty ih
  | case6 before e next rest hnext he hempty ih =>
    rw [ih h, remaining_keep hnext, List.isEmpty_iff.mp hempty]
  | case3 before e next rest hnext he s hs hempty =>
    have hkept : next.lines ≠ [] := fun hnil => hempty (List.isEmpty_iff.mpr hnil)
    rw [remaining_keep hnext, remaining_stop hkept fun _ => head?_ne_of_sharedFront hkept hs]
    rfl
  | case7 before e next rest hnext he hempty =>
    have hkept : next.lines ≠ [] := fun hnil => hempty (List.isEmpty_iff.mpr hnil)
    rw [remaining_keep hnext, remaining_stop hkept fun hadd => absurd (he.symm.trans hadd) nofun]
    rfl
  | case4 before e next rest hnext he s hs moved before' e' hle ih =>
    have hdrop : next.lines.drop (sharedFront next.lines e.lines) = [] :=
      List.drop_eq_nil_of_le hle
    rw [ih h, remaining_keep hnext, he, remaining_sharedFront e.lines, hdrop]
  | case5 before e next rest hnext he s hs moved before' e' hle ih =>
    rw [ih h, remaining_keep hnext, he, remaining_sharedFront e.lines, remaining_keep rfl]
  | case8 before e next rest hnext he ih
  | case9 before e next rest hnext he ih =>
    rw [ih h, remaining_pass (by simp [hnext]) (by simp [hnext, he])]
  | case10 before e next rest hnext he ih
  | case11 before e next rest hnext he ih =>
    have hkind : e.kind = next.kind := he.trans hnext.symm
    rw [ih h, hkind, remaining_swallow (hkind ▸ h)]
  | case12 before e next rest he => exact absurd he h

/-- moving down makes no new edit of the kind -/
theorem tally_shiftDown (before : List (Edit α)) {e : Edit α} (after : List (Edit α))
    (h : e.kind ≠ .keep) :
    tally e.kind (shiftDown before e after).before + tally e.kind (shiftDown before e after).after ≤
      tally e.kind before + tally e.kind after := by
  fun_induction shiftDown before e after with
  | case1 | case3 | case7 | case12 => exact Nat.le_refl _
  | case2 before e next rest hnext he s hs hempty ih
  | case6 before e next rest hnext he hempty ih =>
    rw [tally_cons_of_ne (hnext ▸ h.symm)]
    exact ih h
  | case4 before e next rest hnext he s hs moved before' e' hle ih =>
    have hbefore : tally e.kind before' = tally e.kind before := tally_giveBack h ..
    rw [tally_cons_of_ne (hnext ▸ h.symm), ← hbefore]
    exact ih h
  | case5 before e next rest hnext he s hs moved before' e' hle ih =>
    have hbefore : tally e.kind before' = tally e.kind before := tally_giveBack h ..
    rw [tally_cons_of_ne h.symm] at ih
    rw [tally_cons_of_ne (hnext ▸ h.symm), ← hbefore]
    exact ih h
  | case8 before e next rest hnext he ih
  | case9 before e next rest hnext he ih =>
    have hne : next.kind ≠ e.kind := by simp [hnext, he]
    rw [tally_cons_of_ne hne] at ih ⊢
    exact ih h
  | case10 before e next rest hnext he ih
  | case11 before e next rest hnext he ih =>
    have hkind : e.kind = next.kind := he.trans hnext.symm
    have hle := ih h
    rw [hkind, tally_cons_self, ← hkind]
    exact Nat.le_succ_of_le hle

/-! ## moving up -/

theorem kind_shiftUp (before : List (Edit α)) (e : Edit α) (after : List (Edit α)) :
    (shiftUp before e after).edit.kind = e.kind := by
  fun_induction shiftUp before e after with
  | case1 | case3 | case7 | case12 => rfl
  | case2 | case4 | case5 | case6 | case8 | case9 => assumption
  | case10 e after prev rest hprev he ih | case11 e after prev rest hprev he ih =>
    exact ih.trans (hprev.trans he.symm)

/-- Moving up either swallows an edit of the kind, or leaves as much behind the edit, once it has
come down again, as there would be without. -/
theorem shiftUp_progress (before : List (Edit α)) {e : Edit α} (after : List (Edit α))
    (h : e.kind ≠ .keep) :
    let f := shiftUp before e after
    tally e.kind f.before + tally e.kind f.after < tally e.kind before + tally e.kind after ∨
    tally e.kind f.before + tally e.kind f.after = tally e.kind before + tally e.kind after ∧
      remaining e.kind f.edit.lines [] f.after = remaining e.kind e.lines [] after := by
  fun_induction shiftUp before e after with
  | case1 | case3 | case7 | case12 => exact .inr ⟨rfl, rfl⟩
  | case2 e after prev rest hprev he s hs hempty ih
  | case6 e after prev rest hprev he hempty ih =>
    rw [tally_cons_of_ne (hprev ▸ h.symm)]
    exact ih h
  | case4 e after prev rest hprev he s hs cutAt moved after' e' hcut ih =>
    have hafter : tally e.kind after' = tally e.kind after := tally_giveFront h ..
    have hremaining : remaining e.kind e'.lines [] after' = remaining e.kind e.lines [] after := by
      rw [he]
      exact remaining_sharedBack ..
    rw [tally_cons_of_ne (hprev ▸ h.symm), ← hafter, ← hremaining]
    exact ih h
  | case5 e after prev rest hprev he s hs cutAt moved after' e' hcut ih =>
    have hafter : tally e.kind after' = tally e.kind after := tally_giveFront h ..
    have hremaining : remaining e.kind e'.lines [] after' = remaining e.kind e.lines [] after := by
      rw [he]
      exact remaining_sharedBack ..
    rw [tally_cons_of_ne (hprev ▸ h.symm)] at ih
    rw [tally_cons_of_ne (hprev ▸ h.symm), ← hafter, ← hremaining]
    exact ih h
  | case8 e after prev rest hprev he ih
  | case9 e after prev rest hprev he ih =>
    have hne : prev.kind ≠ e.kind := by simp [hprev, he]
    have hkeep : prev.kind ≠ .keep := by simp [hprev]
    rw [tally_cons_of_ne hne, remaining_pass hkeep hne] at ih
    rw [tally_cons_of_ne hne]
    exact ih h
  | case10 e after prev rest hprev he ih
  | case11 e after prev rest hprev he ih =>
    have hkind : e.kind = prev.kind := he.trans hprev.symm
    have hle := (ih (hkind ▸ h)).elim Nat.le_of_lt fun hsame => Nat.le_of_eq hsame.1
    rw [hkind, tally_cons_self, Nat.add_right_comm]
    exact .inl (Nat.lt_succ_of_le hle)

/-! ## up and down again -/

theorem shiftUp_keep {e : Edit α} (h : e.kind = .keep) (before after : List (Edit α)) :
    shiftUp before e after = ⟨before, e, after⟩ := by
  cases before with
  | nil => rw [shiftUp]
  | cons prev rest => rw [shiftUp, h]

theorem shiftDown_keep {e : Edit α} (h : e.kind = .keep) (before after : List (Edit α)) :
    shiftDown before e after = ⟨before, e, after⟩ := by
  cases after with
  | nil => rw [shiftDown]
  | cons next rest => rw [shiftDown, h]

/-- An edit that has been moved up and down has swallowed another one, or has no more behind it than
before. -/
theorem shift_progress (before : List (Edit α)) (e : Edit α) (after : List (Edit α)) :
    let up := shiftUp before e after
    let down := shiftDown up.before up.edit up.after
    tally e.kind down.before + tally e.kind down.after < tally e.kind before + tally e.kind after ∨
    tally e.kind down.before + tally e.kind down.after ≤ tally e.kind before + tally e.kind after ∧
      weight down.after ≤ weight after := by
  intro up down
  by_cases h : e.kind = .keep
  · have hup : up = ⟨before, e, after⟩ := shiftUp_keep h before after
    have hdown : down = ⟨before, e, after⟩ := by
      unfold down
      rw [hup, shiftDown_keep h]
    rw [hdown]
    exact .inr ⟨Nat.le_refl _, Nat.le_refl _⟩
  · have hkind : up.edit.kind = e.kind := kind_shiftUp before e after
    have htally := tally_shiftDown up.before up.after (hkind ▸ h)
    have hweight := weight_shiftDown up.before up.after (hkind ▸ h)
    rw [hkind] at htally hweight
    rcases shiftUp_progress before after h with hless | ⟨hsame, hremaining⟩
    · exact .inl (Nat.lt_of_le_of_lt htally hless)
    · refine .inr ⟨Nat.le_trans htally (Nat.le_of_eq hsame), ?_⟩
      calc weight down.after
          = remaining e.kind up.edit.lines [] up.after := hweight
        _ = remaining e.kind e.lines [] after := hremaining
        _ ≤ weight after := remaining_nil_le ..

end CommentFree.Diff
