import CommentFree.Proofs.Script

/-!
# Where the edits of a script stand

An edit records how many old and how many new lines stand before it.  When a removal and an addition
pass each other, and when an addition slides along kept lines, these numbers are not brought up to
date on the side on which an edit has no lines.  On the other side they are:

* `Edit.StandsAt`   an edit stands where it says on each side on which it has lines;
* `Placed`          so do all edits of a script, one behind the other;
* `placed_script`   a script is placed when it is made;
* `placed_swap`, `placed_merge`, `placed_slideUp`, `placed_slideDown`   and stays so whatever is done
                    to it, hence in the end (`placed_compact`).
-/

namespace CommentFree.Diff

variable {α : Type}

/-- an edit has lines, and on the sides of these it stands where it says -/
structure Edit.StandsAt (e : Edit α) (i j : Nat) : Prop where
  lines : e.lines ≠ []
  old : e.kind ≠ .add → e.oldAt = i
  new : e.kind ≠ .remove → e.newAt = j

/-- the elements of a list stand one behind the other, the first of them behind `i` old and `j` new
lines -/
def InTurn {β : Type} (old new : β → List α) (stands : β → Nat → Nat → Prop) :
    Nat → Nat → List β → Prop
  | _, _, [] => True
  | i, j, b :: bs => stands b i j ∧ InTurn old new stands (i + (old b).length) (j + (new b).length) bs

theorem inTurn_append {β : Type} {old new : β → List α} {stands : β → Nat → Nat → Prop}
    {a b : List β} {i j : Nat} : InTurn old new stands i j (a ++ b) ↔
      InTurn old new stands i j a ∧
      InTurn old new stands (i + (a.flatMap old).length) (j + (a.flatMap new).length) b := by
  induction a generalizing i j with
  | nil => simp [InTurn]
  | cons e a ih =>
    rw [List.cons_append, InTurn, InTurn, ih, List.flatMap_cons, List.flatMap_cons,
      List.length_append, List.length_append, and_assoc, Nat.add_assoc, Nat.add_assoc]

def Placed : Nat → Nat → List (Edit α) → Prop := InTurn Edit.old Edit.new Edit.StandsAt

theorem placed_append {a b : List (Edit α)} {i j : Nat} : Placed i j (a ++ b) ↔
    Placed i j a ∧ Placed (i + (oldSide a).length) (j + (newSide a).length) b := inTurn_append

/-- what may stand at the end of a script may do so behind any other edits -/
theorem Placed.mono {a b c : List (Edit α)} {i j : Nat} (h : Placed i j (a ++ b))
    (hbc : ∀ i j, Placed i j b → Placed i j c) : Placed i j (a ++ c) := by
  rw [placed_append] at h ⊢
  exact ⟨h.1, hbc _ _ h.2⟩

/-! ## the script -/

theorem placed_single (kind : Kind) (i j : Nat) (lines : List α) :
    Placed i j (single kind i j lines) := by
  unfold single
  by_cases h : lines = []
  · rw [if_pos h]
    trivial
  · rw [if_neg h]
    exact ⟨⟨h, fun _ => rfl, fun _ => rfl⟩, trivial⟩

theorem placed_replace (i j : Nat) (old new : List α) :
    Placed i j (single .remove i j old ++ single .add i j new) := by
  rw [placed_append, oldSide_single, newSide_single]
  refine ⟨placed_single .remove i j old, ?_⟩
  unfold single
  by_cases h : new = []
  · rw [if_pos h]
    trivial
  · rw [if_neg h]
    exact ⟨⟨h, fun hadd => absurd rfl hadd, fun _ => rfl⟩, trivial⟩

section
variable [DecidableEq α]

theorem placed_scriptAt (old new : List α) (i j : Nat) : Placed i j (scriptAt old new i j) := by
  fun_induction scriptAt old new i j with
  | case1 old new i j t i' j' middle ihfront ihback =>
    have hmiddle : Leads t.old t.new middle ∧ Placed i' j' middle := by
      unfold middle
      split
      · exact ⟨leads_replace i' j' t.old t.new, placed_replace i' j' t.old t.new⟩
      · split
        · next x y _ =>
          split
          · next hcut =>
            have hfront := leads_scriptAt (t.old.take x) (t.new.take y) i' j'
            have hback := leads_scriptAt (t.old.drop x) (t.new.drop y) (i' + x) (j' + y)
            obtain ⟨-, hx, hy, -⟩ := id hcut
            refine ⟨?_, placed_append.mpr ⟨ihfront x y hcut, ?_⟩⟩
            · have h := hfront.append hback
              rwa [List.take_append_drop, List.take_append_drop] at h
            · rw [hfront.old, hfront.new, List.length_take, List.length_take, Nat.min_eq_left hx,
                Nat.min_eq_left hy]
              exact ihback x y hcut
          · exact ⟨leads_replace i' j' t.old t.new, placed_replace i' j' t.old t.new⟩
        · exact ⟨leads_replace i' j' t.old t.new, placed_replace i' j' t.old t.new⟩
    obtain ⟨hleads, hplaced⟩ := hmiddle
    have hkeep := leads_keep i j t.front
    rw [placed_append, placed_append, oldSide_append, newSide_append, hkeep.old, hkeep.new,
      hleads.old, hleads.new, List.length_append, List.length_append, ← Nat.add_assoc,
      ← Nat.add_assoc]
    exact ⟨⟨placed_single .keep i j t.front, hplaced⟩, placed_single .keep _ _ t.back⟩

theorem placed_script (old new : List α) : Placed 0 0 (script old new) :=
  placed_scriptAt old new 0 0

end

/-! ## compaction, step by step -/

section
variable {p q e : Edit α} {es : List (Edit α)} {i j : Nat}

theorem placed_swap (h : Placed i j (p :: q :: es)) (hp : p.kind = .remove) (hq : q.kind = .add) :
    Placed i j (q :: p :: es) := by
  obtain ⟨hstandsp, hstandsq, hes⟩ := h
  simp only [Edit.old, Edit.new, hp, hq, List.length_nil, Nat.add_zero] at hstandsq hes
  refine ⟨⟨hstandsq.lines, by simp [hq], hstandsq.new⟩, ⟨hstandsp.lines, ?_, by simp [hp]⟩, ?_⟩
  · simpa [Edit.old, hq] using hstandsp.old
  · simpa [Edit.old, Edit.new, hp, hq] using hes

theorem placed_swap_symm (h : Placed i j (p :: q :: es)) (hp : p.kind = .add)
    (hq : q.kind = .remove) : Placed i j (q :: p :: es) := by
  obtain ⟨hstandsp, hstandsq, hes⟩ := h
  simp only [Edit.old, Edit.new, hp, hq, List.length_nil, Nat.add_zero] at hstandsq hes
  refine ⟨⟨hstandsq.lines, hstandsq.old, by simp [hq]⟩, ⟨hstandsp.lines, by simp [hp], ?_⟩, ?_⟩
  · simpa [Edit.new, hq] using hstandsp.new
  · simpa [Edit.old, Edit.new, hp, hq] using hes

theorem placed_merge (h : Placed i j (p :: q :: es)) (hpq : p.kind = q.kind) :
    Placed i j ({ p with lines := p.lines ++ q.lines } :: es) := by
  obtain ⟨hstandsp, hstandsq, hes⟩ := h
  refine ⟨⟨by simp [hstandsp.lines], hstandsp.old, hstandsp.new⟩, ?_⟩
  cases hkind : q.kind with
  | keep | remove | add =>
    rw [hkind] at hpq
    simpa [Edit.old, Edit.new, hpq, hkind, Nat.add_assoc] using hes

theorem placed_giveFront {m : List α} (hm : m ≠ []) {after : List (Edit α)}
    (h : Placed (i + m.length) (j + m.length) after) : Placed i j (giveFront m i j after) := by
  have hself : Placed i j (⟨.keep, i, j, m⟩ :: after) := ⟨⟨hm, fun _ => rfl, fun _ => rfl⟩, h⟩
  cases after with
  | nil => exact hself
  | cons q rest =>
    rw [giveFront]
    by_cases hq : q.kind = .keep
    · rw [if_pos hq]
      obtain ⟨hstands, hrest⟩ := h
      have hold := hstands.old (by simp [hq])
      have hnew := hstands.new (by simp [hq])
      refine ⟨⟨by simp [hm], fun _ => ?_, fun _ => ?_⟩, ?_⟩
      · show q.oldAt - m.length = i
        omega
      · show q.newAt - m.length = j
        omega
      · simpa [Edit.old, Edit.new, hq, Nat.add_assoc] using hrest
    · rw [if_neg hq]
      exact hself

theorem placed_giveBack {m : List α} (hm : m ≠ []) {before : List (Edit α)}
    (h : Placed i j before.reverse) :
    Placed i j (giveBack m (i + (oldSide before.reverse).length)
      (j + (newSide before.reverse).length) before).reverse := by
  have hself : ∀ {es : List (Edit α)}, Placed i j es →
      Placed i j (es ++ [⟨.keep, i + (oldSide es).length, j + (newSide es).length, m⟩]) := by
    intro es hes
    exact placed_append.mpr ⟨hes, ⟨hm, fun _ => rfl, fun _ => rfl⟩, trivial⟩
  cases before with
  | nil => exact hself h
  | cons q rest =>
    rw [giveBack]
    by_cases hq : q.kind = .keep
    · rw [if_pos hq]
      rw [List.reverse_cons] at h ⊢
      refine h.mono ?_
      rintro i j ⟨hstands, -⟩
      exact ⟨⟨by simp [hm], hstands.old, hstands.new⟩, trivial⟩
    · rw [if_neg hq, List.reverse_cons]
      exact hself h

end

section
variable [DecidableEq α]

theorem sharedBack_le_right (a b : List α) : sharedBack a b ≤ b.length := by
  have hlength := congrArg List.length (drop_sharedBack a b)
  have hle := sharedBack_le_left a b
  rw [List.length_drop, List.length_drop] at hlength
  omega

theorem sharedFront_le_right (a b : List α) : sharedFront a b ≤ b.length := by
  have hlength := congrArg List.length (take_sharedFront a b)
  have hle := sharedFront_le_left a b
  rw [List.length_take, List.length_take] at hlength
  omega

/-- an addition that slid up, with the kept lines it passed behind it and what is left of them, if
anything, in front of it -/
theorem placed_slideUp {prev e : Edit α} {after : List (Edit α)} {i j : Nat}
    (h : Placed i j (prev :: e :: after)) (hprev : prev.kind = .keep) (he : e.kind = .add)
    (hs : sharedBack prev.lines e.lines ≠ 0) :
    let s := sharedBack prev.lines e.lines
    let cutAt := prev.lines.length - s
    let moved := prev.lines.drop cutAt
    let e' : Edit α := ⟨e.kind, e.oldAt - s, e.newAt - s, moved ++ e.lines.take (e.lines.length - s)⟩
    let after' := giveFront moved (prev.oldAt + cutAt) (e.newAt + e.lines.length - s) after
    Placed i j (if cutAt = 0 then e' :: after'
      else { prev with lines := prev.lines.take cutAt } :: e' :: after') := by
  intro s cutAt moved e' after'
  have hleft : s ≤ prev.lines.length := sharedBack_le_left prev.lines e.lines
  have hright : s ≤ e.lines.length := sharedBack_le_right prev.lines e.lines
  have hcut : cutAt + s = prev.lines.length := Nat.sub_add_cancel hleft
  have hmoved : moved.length = s := by
    show (prev.lines.drop cutAt).length = s
    rw [List.length_drop]
    omega
  have hne : moved ≠ [] := by
    apply List.ne_nil_of_length_pos
    omega
  have hlength : (moved ++ e.lines.take (e.lines.length - s)).length = e.lines.length := by
    rw [List.length_append, hmoved, List.length_take]
    omega
  obtain ⟨hstandsprev, hstandse, hafter⟩ := h
  have hold := hstandsprev.old (by simp [hprev])
  have hnew := hstandse.new (by simp [he])
  simp only [Edit.old, Edit.new, hprev, he, List.length_nil, Nat.add_zero] at hnew hafter
  have hbehind : Placed (i + cutAt) (j + cutAt) (e' :: after') := by
    refine ⟨⟨by simp [e', hne], by simp [e', he], fun _ => ?_⟩, ?_⟩
    · show e.newAt - s = j + cutAt
      omega
    · have hi : prev.oldAt + cutAt = i + cutAt := by rw [hold]
      have hj : e.newAt + e.lines.length - s = j + cutAt + e.lines.length := by omega
      simp only [Edit.old, Edit.new, e', after', he, hlength, hi, hj, List.length_nil, Nat.add_zero]
      apply placed_giveFront hne
      have hi' : i + cutAt + moved.length = i + prev.lines.length := by omega
      have hj' : j + cutAt + e.lines.length + moved.length =
          j + prev.lines.length + e.lines.length := by omega
      rw [hi', hj']
      exact hafter
  split
  · next hall =>
    rw [hall] at hbehind
    exact hbehind
  · next hsome =>
    have htake : (prev.lines.take cutAt).length = cutAt := by
      rw [List.length_take]
      omega
    refine ⟨⟨?_, hstandsprev.old, hstandsprev.new⟩, ?_⟩
    · show prev.lines.take cutAt ≠ []
      apply List.ne_nil_of_length_pos
      omega
    · simp only [Edit.old, Edit.new, hprev, htake]
      exact hbehind

/-- an addition that slid down, with the kept lines it passed in front of it and what is left of
them, if anything, behind it -/
theorem placed_slideDown {next e : Edit α} {before rest : List (Edit α)} {i j : Nat}
    (h : Placed i j (before.reverse ++ e :: next :: rest)) (hnext : next.kind = .keep)
    (he : e.kind = .add) (hs : sharedFront next.lines e.lines ≠ 0) :
    let s := sharedFront next.lines e.lines
    let moved := next.lines.take s
    Placed i j ((giveBack moved next.oldAt e.newAt before).reverse ++
      ⟨e.kind, e.oldAt + s, e.newAt + s, e.lines.drop s ++ moved⟩ ::
        if next.lines.length ≤ s then rest
        else ⟨.keep, next.oldAt + s, next.newAt + s, next.lines.drop s⟩ :: rest) := by
  intro s moved
  have hleft : s ≤ next.lines.length := sharedFront_le_left next.lines e.lines
  have hright : s ≤ e.lines.length := sharedFront_le_right next.lines e.lines
  have hmoved : moved.length = s := by
    show (next.lines.take s).length = s
    rw [List.length_take]
    omega
  have hne : moved ≠ [] := by
    apply List.ne_nil_of_length_pos
    omega
  obtain ⟨hbefore, hstandse, hstandsnext, hrest⟩ := placed_append.mp h
  have hnew := hstandse.new (by simp [he])
  have holdnext := hstandsnext.old (by simp [hnext])
  have hnewnext := hstandsnext.new (by simp [hnext])
  simp only [Edit.old, Edit.new, hnext, he, List.length_nil, Nat.add_zero] at holdnext hnewnext hrest
  have hgive : Rewrites (before.reverse ++ [⟨.keep, 0, 0, moved⟩])
      (giveBack moved next.oldAt e.newAt before).reverse := .giveBack ⟨rfl, rfl⟩ _ _ before
  have hgiveOld : (oldSide (giveBack moved next.oldAt e.newAt before).reverse).length =
      (oldSide before.reverse).length + s := by
    rw [hgive.old, oldSide_append, List.length_append, ← hmoved]
    simp [oldSide, Edit.old]
  have hgiveNew : (newSide (giveBack moved next.oldAt e.newAt before).reverse).length =
      (newSide before.reverse).length + s := by
    rw [hgive.new, newSide_append, List.length_append, ← hmoved]
    simp [newSide, Edit.new]
  have hlength : (e.lines.drop s ++ moved).length = e.lines.length := by
    rw [List.length_append, List.length_drop, hmoved]
    omega
  rw [placed_append, hgiveOld, hgiveNew]
  refine ⟨?_, ⟨by simp [hne], by simp [he], fun _ => ?_⟩, ?_⟩
  · rw [holdnext, hnew]
    exact placed_giveBack hne hbefore
  · show e.newAt + s = _
    omega
  · simp only [Edit.old, Edit.new, he, hlength, List.length_nil, Nat.add_zero]
    have hi : i + (oldSide before.reverse).length + next.lines.length =
        i + ((oldSide before.reverse).length + s) + (next.lines.length - s) := by omega
    have hj : j + (newSide before.reverse).length + e.lines.length + next.lines.length =
        j + ((newSide before.reverse).length + s) + e.lines.length + (next.lines.length - s) := by
      omega
    rw [hi, hj] at hrest
    split
    · next hall =>
      rw [Nat.sub_eq_zero_of_le hall] at hrest
      exact hrest
    · next hsome =>
      refine ⟨⟨?_, fun _ => ?_, fun _ => ?_⟩, ?_⟩
      · show next.lines.drop s ≠ []
        rw [Ne, List.drop_eq_nil_iff]
        exact hsome
      · show next.oldAt + s = _
        omega
      · show next.newAt + s = _
        omega
      · simp only [Edit.old, Edit.new, List.length_drop]
        exact hrest

theorem placed_shiftUp {before : List (Edit α)} {e : Edit α} {after : List (Edit α)} {i j : Nat}
    (h : Placed i j (before.reverse ++ e :: after)) :
    Placed i j (shiftUp before e after).edits := by
  fun_induction shiftUp before e after with
  | case1 | case3 | case7 | case12 => exact h
  | case2 e after prev rest hprev he s hs hempty ih
  | case6 e after prev rest hprev he hempty ih =>
    rw [List.reverse_cons, ← List.append_cons, placed_append] at h
    exact absurd (List.isEmpty_iff.mp hempty) h.2.1.lines
  | case4 e after prev rest hprev he s hs cutAt moved after' e' hcut ih =>
    rw [List.reverse_cons, ← List.append_cons] at h
    refine ih (h.mono fun i j hslide => ?_)
    have hup := placed_slideUp hslide hprev he hs
    dsimp only at hup
    rw [if_pos hcut] at hup
    exact hup
  | case5 e after prev rest hprev he s hs cutAt moved after' e' hcut ih =>
    rw [List.reverse_cons, ← List.append_cons] at h
    apply ih
    rw [List.reverse_cons, ← List.append_cons]
    refine h.mono fun i j hslide => ?_
    have hup := placed_slideUp hslide hprev he hs
    dsimp only at hup
    rw [if_neg hcut] at hup
    exact hup
  | case8 e after prev rest hprev he ih =>
    rw [List.reverse_cons, ← List.append_cons] at h
    exact ih (h.mono fun i j hswap => placed_swap hswap hprev he)
  | case9 e after prev rest hprev he ih =>
    rw [List.reverse_cons, ← List.append_cons] at h
    exact ih (h.mono fun i j hswap => placed_swap_symm hswap hprev he)
  | case10 e after prev rest hprev he ih
  | case11 e after prev rest hprev he ih =>
    rw [List.reverse_cons, ← List.append_cons] at h
    exact ih (h.mono fun i j hmerge => placed_merge hmerge (hprev.trans he.symm))

theorem placed_shiftDown {before : List (Edit α)} {e : Edit α} {after : List (Edit α)} {i j : Nat}
    (h : Placed i j (before.reverse ++ e :: after)) :
    Placed i j (shiftDown before e after).edits := by
  fun_induction shiftDown before e after with
  | case1 | case3 | case7 | case12 => exact h
  | case2 before e next rest hnext he s hs hempty ih
  | case6 before e next rest hnext he hempty ih =>
    exact absurd (List.isEmpty_iff.mp hempty) (placed_append.mp h).2.2.1.lines
  | case4 before e next rest hnext he s hs moved before' e' hle ih =>
    have hdown := placed_slideDown h hnext he hs
    dsimp only at hdown
    rw [if_pos hle] at hdown
    exact ih hdown
  | case5 before e next rest hnext he s hs moved before' e' hle ih =>
    have hdown := placed_slideDown h hnext he hs
    dsimp only at hdown
    rw [if_neg hle] at hdown
    exact ih hdown
  | case8 before e next rest hnext he ih =>
    apply ih
    rw [List.reverse_cons, ← List.append_cons]
    exact h.mono fun i j hswap => placed_swap_symm hswap he hnext
  | case9 before e next rest hnext he ih =>
    apply ih
    rw [List.reverse_cons, ← List.append_cons]
    exact h.mono fun i j hswap => placed_swap hswap he hnext
  | case10 before e next rest hnext he ih
  | case11 before e next rest hnext he ih =>
    exact ih (h.mono fun i j hmerge => placed_merge hmerge (he.trans hnext.symm))

theorem placed_settle (kind : Kind) {before after : List (Edit α)} {i j : Nat}
    (h : Placed i j (before.reverse ++ after)) : Placed i j (settle kind before after) := by
  fun_induction settle kind before after with
  | case1 before => rwa [List.append_nil] at h
  | case2 before e after he up down ih =>
    apply ih
    rw [List.reverse_cons, ← List.append_cons]
    exact placed_shiftDown (placed_shiftUp h)
  | case3 before e after he ih =>
    apply ih
    rwa [List.reverse_cons, ← List.append_cons]

theorem placed_compact {es : List (Edit α)} {i j : Nat} (h : Placed i j es) :
    Placed i j (compact es) := by
  have hremoved : Placed i j (settle .remove [] es) := placed_settle _ h
  exact placed_settle _ hremoved

/-- the edits of the script that is shown stand where they say -/
theorem placed_compact_script (old new : List α) : Placed 0 0 (compact (script old new)) :=
  placed_compact (placed_script old new)

end

end CommentFree.Diff
