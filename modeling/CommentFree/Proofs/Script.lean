import CommentFree.Diff.Compact
import CommentFree.Diff.Script

/-!
# Scripts lead from the old lines to the new ones

Nothing that is done to a script between two lists may change where it starts and where it ends.
The search for a midpoint is not looked at here: wherever a pair of lists is cut, the scripts of the
halves put together are a script of the whole.

* `trim_old`, `trim_new`     what is taken off at both ends is common to both lists;
* `leads_script`             a script starts from `old`, ends with `new`, and no removal or addition
                             in it is empty;
* `Rewrites`                 one part of a script may stand in the place of another: swapping,
                             merging and sliding are of this form (`swap`, `merge`, `slideUp`,
                             `slideDown`), in any surroundings (`left`, `right`);
* `rewrites_shiftUp`, `rewrites_shiftDown`, `rewrites_settle`, `rewrites_compact`.
-/

namespace CommentFree.Diff

variable {α : Type}

def Solid (es : List (Edit α)) : Prop := ∀ e ∈ es, e.kind ≠ .keep → e.lines ≠ []

theorem solid_nil : Solid ([] : List (Edit α)) := by
  intro e he
  cases he

theorem solid_append {a b : List (Edit α)} : Solid (a ++ b) ↔ Solid a ∧ Solid b :=
  List.forall_mem_append

theorem solid_cons {e : Edit α} {es : List (Edit α)} :
    Solid (e :: es) ↔ (e.kind ≠ .keep → e.lines ≠ []) ∧ Solid es :=
  List.forall_mem_cons

/-! ## what two lists have in common -/

section
variable [DecidableEq α]

theorem trim_old (old new : List α) :
    (trim old new).front ++ ((trim old new).old ++ (trim old new).back) = old := by
  simp only [trim, List.take_append_drop]

theorem trim_new (old new : List α) :
    (trim old new).front ++ ((trim old new).new ++ (trim old new).back) = new := by
  simp only [trim]
  rw [drop_sharedBack, take_sharedFront, List.take_append_drop, List.take_append_drop]

end

/-! ## the script -/

theorem oldSide_single (kind : Kind) (i j : Nat) (lines : List α) :
    oldSide (single kind i j lines) = if kind = .add then [] else lines := by
  unfold single
  by_cases h : lines = []
  · simp [h, oldSide]
  · cases kind <;> simp [h, oldSide, Edit.old]

theorem newSide_single (kind : Kind) (i j : Nat) (lines : List α) :
    newSide (single kind i j lines) = if kind = .remove then [] else lines := by
  unfold single
  by_cases h : lines = []
  · simp [h, newSide]
  · cases kind <;> simp [h, newSide, Edit.new]

theorem solid_single (kind : Kind) (i j : Nat) (lines : List α) :
    Solid (single kind i j lines) := by
  unfold single
  by_cases h : lines = []
  · rw [if_pos h]
    exact solid_nil
  · rw [if_neg h]
    exact solid_cons.mpr ⟨fun _ => h, solid_nil⟩

/-- a script from `old` to `new` in which removals and additions have lines -/
structure Leads (old new : List α) (es : List (Edit α)) : Prop where
  old : oldSide es = old
  new : newSide es = new
  solid : Solid es

theorem Leads.append {a b c d : List α} {es fs : List (Edit α)} (h : Leads a b es)
    (k : Leads c d fs) : Leads (a ++ c) (b ++ d) (es ++ fs) where
  old := by rw [oldSide_append, h.old, k.old]
  new := by rw [newSide_append, h.new, k.new]
  solid := solid_append.mpr ⟨h.solid, k.solid⟩

theorem leads_keep (i j : Nat) (lines : List α) : Leads lines lines (single .keep i j lines) :=
  ⟨oldSide_single .keep i j lines, newSide_single .keep i j lines, solid_single .keep i j lines⟩

/-- all of one list goes and all of the other comes -/
theorem leads_replace (i j : Nat) (old new : List α) :
    Leads old new (single .remove i j old ++ single .add i j new) where
  old := by rw [oldSide_append, oldSide_single, oldSide_single]; simp
  new := by rw [newSide_append, newSide_single, newSide_single]; simp
  solid := solid_append.mpr ⟨solid_single .remove i j old, solid_single .add i j new⟩

section
variable [DecidableEq α]

theorem leads_scriptAt (old new : List α) (i j : Nat) : Leads old new (scriptAt old new i j) := by
  fun_induction scriptAt old new i j with
  | case1 old new i j t i' j' middle ihfront ihback =>
    have hmiddle : Leads t.old t.new middle := by
      unfold middle
      split
      · exact leads_replace i' j' t.old t.new
      · split
        · next x y _ =>
          split
          · next hcut =>
            have h := (ihfront x y hcut).append (ihback x y hcut)
            rwa [List.take_append_drop, List.take_append_drop] at h
          · exact leads_replace i' j' t.old t.new
        · exact leads_replace i' j' t.old t.new
    have h := ((leads_keep i j t.front).append hmiddle).append
      (leads_keep (i' + t.old.length) (j' + t.new.length) t.back)
    rwa [List.append_assoc, List.append_assoc t.front, trim_old, trim_new] at h

theorem leads_script (old new : List α) : Leads old new (script old new) :=
  leads_scriptAt old new 0 0

end

/-! ## rewriting a part of a script -/

/-- `fs` may stand where `es` stood -/
structure Rewrites (es fs : List (Edit α)) : Prop where
  old : oldSide fs = oldSide es
  new : newSide fs = newSide es
  solid : Solid es → Solid fs

namespace Rewrites

variable {es fs gs : List (Edit α)}

theorem refl (es : List (Edit α)) : Rewrites es es := ⟨rfl, rfl, id⟩

theorem trans (h : Rewrites es fs) (k : Rewrites fs gs) : Rewrites es gs :=
  ⟨k.old.trans h.old, k.new.trans h.new, k.solid ∘ h.solid⟩

theorem left (h : Rewrites es fs) (a : List (Edit α)) : Rewrites (a ++ es) (a ++ fs) where
  old := by simp only [oldSide_append, h.old]
  new := by simp only [newSide_append, h.new]
  solid := by
    simp only [solid_append]
    exact fun ⟨ha, hes⟩ => ⟨ha, h.solid hes⟩

theorem right (h : Rewrites es fs) (b : List (Edit α)) : Rewrites (es ++ b) (fs ++ b) where
  old := by simp only [oldSide_append, h.old]
  new := by simp only [newSide_append, h.new]
  solid := by
    simp only [solid_append]
    exact fun ⟨hes, hb⟩ => ⟨h.solid hes, hb⟩

/-- behind edits that stand in reverse -/
theorem behind {p : Edit α} (h : Rewrites (p :: es) fs) (rest : List (Edit α)) :
    Rewrites ((p :: rest).reverse ++ es) (rest.reverse ++ fs) := by
  have h' := h.left rest.reverse
  rwa [List.append_cons, ← List.reverse_cons] at h'

theorem leads {old new : List α} (h : Rewrites es fs) (k : Leads old new es) : Leads old new fs :=
  ⟨h.old.trans k.old, h.new.trans k.new, h.solid k.solid⟩

end Rewrites

/-- what an edit does, wherever it says it stands -/
def Edit.Is (e : Edit α) (kind : Kind) (lines : List α) : Prop := e.kind = kind ∧ e.lines = lines

theorem Edit.Is.old {e : Edit α} {kind : Kind} {lines : List α} (h : e.Is kind lines) :
    e.old = if kind = .add then [] else lines := by
  unfold Edit.old
  rw [h.1, h.2]
  cases kind <;> simp

theorem Edit.Is.new {e : Edit α} {kind : Kind} {lines : List α} (h : e.Is kind lines) :
    e.new = if kind = .remove then [] else lines := by
  unfold Edit.new
  rw [h.1, h.2]
  cases kind <;> simp

namespace Rewrites

variable {p q e f g : Edit α} {k l m : List α}

theorem dropEmpty (hp : p.Is .keep []) : Rewrites [p] [] where
  old := by simp [oldSide, hp.old]
  new := by simp [newSide, hp.new]
  solid _ := solid_nil

/-- a removal and an addition can pass each other -/
theorem swap (hp : p.Is .remove k) (hq : q.Is .add l) : Rewrites [p, q] [q, p] where
  old := by simp [oldSide, hp.old, hq.old]
  new := by simp [newSide, hp.new, hq.new]
  solid := by
    simp only [solid_cons]
    rintro ⟨h, h', hnil⟩
    exact ⟨h', h, hnil⟩

theorem swap_symm (hp : p.Is .add k) (hq : q.Is .remove l) : Rewrites [p, q] [q, p] where
  old := (swap hq hp).old.symm
  new := (swap hq hp).new.symm
  solid := by
    simp only [solid_cons]
    rintro ⟨h, h', hnil⟩
    exact ⟨h', h, hnil⟩

theorem merge {kind : Kind} (hp : p.Is kind k) (hq : q.Is kind l) (he : e.Is kind (k ++ l)) :
    Rewrites [p, q] [e] where
  old := by
    by_cases h : kind = .add
    · simp [oldSide, hp.old, hq.old, he.old, h]
    · simp [oldSide, hp.old, hq.old, he.old, h]
  new := by
    by_cases h : kind = .remove
    · simp [newSide, hp.new, hq.new, he.new, h]
    · simp [newSide, hp.new, hq.new, he.new, h]
  solid := by
    simp only [solid_cons, hp.1, hp.2, he.1, he.2]
    rintro ⟨h, -⟩
    refine ⟨fun hkind => ?_, solid_nil⟩
    simp [h hkind]

/-- keeping `k ++ m` and adding `l ++ m` is keeping `k`, adding `m ++ l` and keeping `m` -/
theorem slideUp (hp : p.Is .keep (k ++ m)) (hq : q.Is .add (l ++ m)) (he : e.Is .keep k)
    (hf : f.Is .add (m ++ l)) (hg : g.Is .keep m) : Rewrites [p, q] [e, f, g] where
  old := by simp [oldSide, hp.old, hq.old, he.old, hf.old, hg.old]
  new := by simp [newSide, hp.new, hq.new, he.new, hf.new, hg.new]
  solid := by
    simp only [solid_cons, he.1, hf.1, hf.2, hg.1, hq.1, hq.2]
    rintro ⟨-, h, -⟩
    have hlm := h (by decide)
    refine ⟨by simp, fun _ => ?_, by simp, solid_nil⟩
    simpa [and_comm] using hlm

/-- the same with the lines in common at the front -/
theorem slideDown (hp : p.Is .add (m ++ l)) (hq : q.Is .keep (m ++ k)) (he : e.Is .keep m)
    (hf : f.Is .add (l ++ m)) (hg : g.Is .keep k) : Rewrites [p, q] [e, f, g] where
  old := by simp [oldSide, hp.old, hq.old, he.old, hf.old, hg.old]
  new := by simp [newSide, hp.new, hq.new, he.new, hf.new, hg.new]
  solid := by
    simp only [solid_cons, he.1, hf.1, hf.2, hg.1, hp.1, hp.2]
    rintro ⟨h, -⟩
    have hml := h (by decide)
    refine ⟨by simp, fun _ => ?_, by simp, solid_nil⟩
    simpa [and_comm] using hml

theorem give (hg : g.Is .keep m) (i j : Nat) : Rewrites [g] [⟨.keep, i, j, m⟩] := by
  have hself : Edit.Is (⟨.keep, i, j, m⟩ : Edit α) .keep m := ⟨rfl, rfl⟩
  refine ⟨?_, ?_, fun _ => solid_cons.mpr ⟨by simp, solid_nil⟩⟩
  · simp [oldSide, hg.old, hself.old]
  · simp [newSide, hg.new, hself.new]

theorem giveFront (hg : g.Is .keep m) (i j : Nat) (after : List (Edit α)) :
    Rewrites (g :: after) (giveFront m i j after) := by
  have hself : Rewrites (g :: after) (⟨.keep, i, j, m⟩ :: after) := (give hg i j).right after
  cases after with
  | nil => exact hself
  | cons q rest =>
    rw [Diff.giveFront]
    by_cases hq : q.kind = .keep
    · rw [if_pos hq]
      have hmerge : Rewrites [g, q] [⟨.keep, q.oldAt - m.length, q.newAt - m.length, m ++ q.lines⟩] :=
        merge hg ⟨hq, rfl⟩ ⟨rfl, rfl⟩
      exact hmerge.right rest
    · rw [if_neg hq]
      exact hself

theorem giveBack (hg : g.Is .keep m) (i j : Nat) (before : List (Edit α)) :
    Rewrites (before.reverse ++ [g]) (giveBack m i j before).reverse := by
  have hself : Rewrites (before.reverse ++ [g]) (before.reverse ++ [⟨.keep, i, j, m⟩]) :=
    (give hg i j).left before.reverse
  cases before with
  | nil => exact hself
  | cons q rest =>
    rw [Diff.giveBack]
    by_cases hq : q.kind = .keep
    · have hmerge : Rewrites [q, g] [{ q with lines := q.lines ++ m }] :=
        merge ⟨hq, rfl⟩ hg ⟨hq, rfl⟩
      rw [if_pos hq]
      simpa using hmerge.behind rest
    · rw [if_neg hq]
      simpa using hself

end Rewrites

/-! ## compaction -/

def Focus.edits (f : Focus α) : List (Edit α) := f.before.reverse ++ f.edit :: f.after

section
variable [DecidableEq α]

/-- an addition slides up over the lines it shares with the kept run before it -/
theorem rewrites_slideUp {prev e : Edit α} (hprev : prev.kind = .keep) (he : e.kind = .add)
    (i j i' j' : Nat) (after : List (Edit α)) :
    let s := sharedBack prev.lines e.lines
    let moved := prev.lines.drop (prev.lines.length - s)
    Rewrites (prev :: e :: after)
      ({ prev with lines := prev.lines.take (prev.lines.length - s) } ::
        ⟨e.kind, i, j, moved ++ e.lines.take (e.lines.length - s)⟩ :: giveFront moved i' j' after) := by
  intro s moved
  have hmoved : moved = e.lines.drop (e.lines.length - s) := drop_sharedBack prev.lines e.lines
  have hlines : e.lines = e.lines.take (e.lines.length - s) ++ moved := by
    rw [hmoved, List.take_append_drop]
  have hslide : Rewrites [prev, e]
      [{ prev with lines := prev.lines.take (prev.lines.length - s) },
        ⟨e.kind, i, j, moved ++ e.lines.take (e.lines.length - s)⟩, ⟨.keep, i', j', moved⟩] :=
    .slideUp ⟨hprev, (List.take_append_drop _ _).symm⟩ ⟨he, hlines⟩ ⟨hprev, rfl⟩ ⟨he, rfl⟩ ⟨rfl, rfl⟩
  have hgive : Rewrites (⟨.keep, i', j', moved⟩ :: after) (giveFront moved i' j' after) :=
    .giveFront ⟨rfl, rfl⟩ i' j' after
  exact (hslide.right after).trans (hgive.left [_, _])

/-- an addition slides down over the lines it shares with the kept run after it -/
theorem rewrites_slideDown {next e : Edit α} (hnext : next.kind = .keep) (he : e.kind = .add)
    (i j i' j' i'' j'' : Nat) (before rest : List (Edit α)) :
    let s := sharedFront next.lines e.lines
    let moved := next.lines.take s
    Rewrites (before.reverse ++ e :: next :: rest)
      ((giveBack moved i' j' before).reverse ++ ⟨e.kind, i, j, e.lines.drop s ++ moved⟩ ::
        ⟨.keep, i'', j'', next.lines.drop s⟩ :: rest) := by
  intro s moved
  have hmoved : moved = e.lines.take s := take_sharedFront next.lines e.lines
  have hlines : e.lines = moved ++ e.lines.drop s := by
    rw [hmoved, List.take_append_drop]
  have hslide : Rewrites [e, next] [⟨.keep, i', j', moved⟩,
      ⟨e.kind, i, j, e.lines.drop s ++ moved⟩, ⟨.keep, i'', j'', next.lines.drop s⟩] :=
    .slideDown ⟨he, hlines⟩ ⟨hnext, (List.take_append_drop _ _).symm⟩ ⟨rfl, rfl⟩ ⟨he, rfl⟩ ⟨rfl, rfl⟩
  have hgive : Rewrites (before.reverse ++ [⟨.keep, i', j', moved⟩])
      (giveBack moved i' j' before).reverse := .giveBack ⟨rfl, rfl⟩ i' j' before
  have hback := hgive.right (⟨e.kind, i, j, e.lines.drop s ++ moved⟩ ::
    ⟨.keep, i'', j'', next.lines.drop s⟩ :: rest)
  rw [← List.append_cons] at hback
  exact ((hslide.right rest).left before.reverse).trans hback

theorem rewrites_shiftUp (before : List (Edit α)) (e : Edit α) (after : List (Edit α)) :
    Rewrites (before.reverse ++ e :: after) (shiftUp before e after).edits := by
  fun_induction shiftUp before e after with
  | case1 | case3 | case7 | case12 => exact .refl _
  | case2 e after prev rest hprev he s hs hempty ih
  | case6 e after prev rest hprev he hempty ih =>
    have hdrop : Rewrites [prev] [] := .dropEmpty ⟨hprev, List.isEmpty_iff.mp hempty⟩
    exact ((hdrop.right (e :: after)).behind rest).trans ih
  | case4 e after prev rest hprev he s hs cutAt moved after' e' hcut ih =>
    have hslide := rewrites_slideUp hprev he e'.oldAt e'.newAt (prev.oldAt + cutAt)
      (e.newAt + e.lines.length - s) after
    -- the whole run before has been passed
    have hdrop : Rewrites [{ prev with lines := prev.lines.take cutAt }] [] :=
      .dropEmpty ⟨hprev, by rw [hcut, List.take_zero]⟩
    exact ((hslide.trans (hdrop.right (e' :: after'))).behind rest).trans ih
  | case5 e after prev rest hprev he s hs cutAt moved after' e' hcut ih =>
    have hslide := rewrites_slideUp hprev he e'.oldAt e'.newAt (prev.oldAt + cutAt)
      (e.newAt + e.lines.length - s) after
    rw [List.reverse_cons, ← List.append_cons] at ih
    exact (hslide.behind rest).trans ih
  | case8 e after prev rest hprev he ih =>
    have hswap : Rewrites [prev, e] [e, prev] := .swap ⟨hprev, rfl⟩ ⟨he, rfl⟩
    exact ((hswap.right after).behind rest).trans ih
  | case9 e after prev rest hprev he ih =>
    have hswap : Rewrites [prev, e] [e, prev] := .swap_symm ⟨hprev, rfl⟩ ⟨he, rfl⟩
    exact ((hswap.right after).behind rest).trans ih
  | case10 e after prev rest hprev he ih
  | case11 e after prev rest hprev he ih =>
    have hmerge : Rewrites [prev, e] [{ prev with lines := prev.lines ++ e.lines }] :=
      .merge ⟨hprev, rfl⟩ ⟨he, rfl⟩ ⟨hprev, rfl⟩
    exact ((hmerge.right after).behind rest).trans ih

theorem rewrites_shiftDown (before : List (Edit α)) (e : Edit α) (after : List (Edit α)) :
    Rewrites (before.reverse ++ e :: after) (shiftDown before e after).edits := by
  fun_induction shiftDown before e after with
  | case1 | case3 | case7 | case12 => exact .refl _
  | case2 before e next rest hnext he s hs hempty ih
  | case6 before e next rest hnext he hempty ih =>
    have hdrop : Rewrites [next] [] := .dropEmpty ⟨hnext, List.isEmpty_iff.mp hempty⟩
    exact (((hdrop.right rest).left [e]).left before.reverse).trans ih
  | case4 before e next rest hnext he s hs moved before' e' hle ih =>
    have hslide := rewrites_slideDown hnext he e'.oldAt e'.newAt next.oldAt e.newAt 0 0 before rest
    -- the whole run after has been passed
    have hdrop : Rewrites [⟨.keep, 0, 0, next.lines.drop s⟩] [] :=
      .dropEmpty ⟨rfl, List.drop_eq_nil_of_le hle⟩
    exact (hslide.trans (((hdrop.right rest).left [e']).left before'.reverse)).trans ih
  | case5 before e next rest hnext he s hs moved before' e' hle ih =>
    exact (rewrites_slideDown hnext he _ _ _ _ _ _ before rest).trans ih
  | case8 before e next rest hnext he ih =>
    have hswap : Rewrites [e, next] [next, e] := .swap_symm ⟨he, rfl⟩ ⟨hnext, rfl⟩
    rw [List.reverse_cons, ← List.append_cons] at ih
    exact ((hswap.right rest).left before.reverse).trans ih
  | case9 before e next rest hnext he ih =>
    have hswap : Rewrites [e, next] [next, e] := .swap ⟨he, rfl⟩ ⟨hnext, rfl⟩
    rw [List.reverse_cons, ← List.append_cons] at ih
    exact ((hswap.right rest).left before.reverse).trans ih
  | case10 before e next rest hnext he ih
  | case11 before e next rest hnext he ih =>
    have hmerge : Rewrites [e, next] [{ e with lines := e.lines ++ next.lines }] :=
      .merge ⟨he, rfl⟩ ⟨hnext, rfl⟩ ⟨he, rfl⟩
    exact ((hmerge.right rest).left before.reverse).trans ih

theorem rewrites_settle (kind : Kind) (before after : List (Edit α)) :
    Rewrites (before.reverse ++ after) (settle kind before after) := by
  fun_induction settle kind before after with
  | case1 before =>
    rw [List.append_nil]
    exact .refl _
  | case2 before e after he up down ih =>
    rw [List.reverse_cons, ← List.append_cons] at ih
    exact ((rewrites_shiftUp ..).trans (rewrites_shiftDown ..)).trans ih
  | case3 before e after he ih =>
    rwa [List.reverse_cons, ← List.append_cons] at ih

theorem rewrites_compact (es : List (Edit α)) : Rewrites es (compact es) :=
  (rewrites_settle .remove [] es).trans (rewrites_settle .add [] _)

/-- the script that is shown leads from `old` to `new` -/
theorem leads_compact_script (old new : List α) : Leads old new (compact (script old new)) :=
  (rewrites_compact _).leads (leads_script old new)

end

end CommentFree.Diff
