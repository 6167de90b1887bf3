import CommentFree.Diff.Unified
import CommentFree.Proofs.Hunk
import CommentFree.Proofs.Script

/-!
# A diff is a patch

What a diff shows is what it takes to make the new text out of the old one, and not much more.  A
printed hunk is read line by line: each line has a mark that says what becomes of it.

* `Hunk`, `Hunk.text`     a hunk and how it is printed;
* `Focused`               a hunk has a change and few kept lines around it;
* `IsHunk.focused`        a hunk of blocks, line by line, is of that kind;
* `hunksBetween_self`     lists that do not differ have no hunks;
* `unified_patches`       the printed text, as hunks that turn one list of lines into the other.
-/

namespace CommentFree.Diff

variable {α : Type}

/-! ## marked lines -/

def oldLines (lines : List (Kind × α)) : List α := (lines.filter (·.1 ≠ .add)).map (·.2)

def newLines (lines : List (Kind × α)) : List α := (lines.filter (·.1 ≠ .remove)).map (·.2)

def Kept (lines : List (Kind × α)) : Prop := ∀ l ∈ lines, l.1 = .keep

/-- there is a change, at most `n` kept lines stand at either end, and no more than `2 * n` kept
lines stand one after the other -/
structure Focused (n : Nat) (lines : List (Kind × α)) : Prop where
  change : ∃ l ∈ lines, l.1 ≠ .keep
  front : ∀ run, run <+: lines → Kept run → run.length ≤ n
  back : ∀ run, run <:+ lines → Kept run → run.length ≤ n
  inner : ∀ run, run <:+: lines → Kept run → run.length ≤ 2 * n

theorem Kept.notMem {run : List (Kind × α)} (h : Kept run) {x : Kind × α} (hx : x.1 ≠ .keep) :
    x ∉ run := fun hmem => hx (h x hmem)

/-! ## runs beside a line that is not in them -/

theorem prefix_of_notMem {run a b : List α} {x : α} (hx : x ∉ run) (h : run <+: a ++ x :: b) :
    run <+: a := by
  have hcut : a ++ [x] <+: a ++ x :: b := ⟨b, by simp⟩
  rcases List.prefix_or_prefix_of_prefix h hcut with hrun | hrun
  · rcases List.prefix_concat_iff.mp hrun with rfl | hrun
    · exact absurd (by simp) hx
    · exact hrun
  · exact absurd (hrun.subset (by simp)) hx

theorem suffix_of_notMem {run a b : List α} {x : α} (hx : x ∉ run) (h : run <:+ a ++ x :: b) :
    run <:+ b := by
  rcases List.suffix_or_suffix_of_suffix h (List.suffix_append a (x :: b)) with hrun | hrun
  · rcases List.suffix_cons_iff.mp hrun with rfl | hrun
    · exact absurd List.mem_cons_self hx
    · exact hrun
  · exact absurd (hrun.subset List.mem_cons_self) hx

theorem eq_nil_of_prefix_of_notMem {run b : List α} {x : α} (hx : x ∉ run) (h : run <+: x :: b) :
    run = [] := by
  have hnil : run <+: [] := prefix_of_notMem (a := []) hx h
  exact List.prefix_nil.mp hnil

theorem infix_of_notMem {run a b : List α} {x : α} (hx : x ∉ run) (h : run <:+: a ++ x :: b) :
    run <:+: a ∨ run <:+: b := by
  rcases List.infix_append_iff.mp h with h | h | ⟨front, back, rfl, hfront, hback⟩
  · exact .inl h
  · rcases List.infix_cons_iff.mp h with h | h
    · rw [eq_nil_of_prefix_of_notMem hx h]
      exact .inl List.nil_infix
    · exact .inr h
  · rw [List.mem_append, not_or] at hx
    rw [eq_nil_of_prefix_of_notMem hx.2 hback, List.append_nil]
    exact .inl hfront.isInfix

/-! ## marked lines of blocks -/

def Block.marked : Block α → List (Kind × α)
  | keep _ _ lines => lines.map (Kind.keep, ·)
  | change _ _ removed added => removed.map (Kind.remove, ·) ++ added.map (Kind.add, ·)

def markedLines (bs : List (Block α)) : List (Kind × α) := bs.flatMap Block.marked

theorem markedLines_cons (b : Block α) (bs : List (Block α)) :
    markedLines (b :: bs) = b.marked ++ markedLines bs := rfl

theorem markedLines_append (a b : List (Block α)) :
    markedLines (a ++ b) = markedLines a ++ markedLines b := List.flatMap_append

theorem oldLines_append (a b : List (Kind × α)) : oldLines (a ++ b) = oldLines a ++ oldLines b := by
  simp [oldLines]

theorem newLines_append (a b : List (Kind × α)) : newLines (a ++ b) = newLines a ++ newLines b := by
  simp [newLines]

theorem oldLines_markedLines (bs : List (Block α)) : oldLines (markedLines bs) = blocksOld bs := by
  induction bs with
  | nil => rfl
  | cons b bs ih =>
    have hb : oldLines b.marked = b.old := by
      cases b <;> simp [oldLines, Block.marked, Block.old, List.filter_map, Function.comp_def]
    rw [markedLines_cons, oldLines_append, ih, hb, blocksOld_cons]

theorem newLines_markedLines (bs : List (Block α)) : newLines (markedLines bs) = blocksNew bs := by
  induction bs with
  | nil => rfl
  | cons b bs ih =>
    have hb : newLines b.marked = b.new := by
      cases b <;> simp [newLines, Block.marked, Block.new, List.filter_map, Function.comp_def]
    rw [markedLines_cons, newLines_append, ih, hb, blocksNew_cons]

theorem Block.length_marked {b : Block α} (hb : b.isKeep) : b.marked.length = b.old.length := by
  cases b with
  | keep i j ls => simp [marked, old]
  | change i j removed added => cases hb

theorem Block.eq_keep_of_mem_marked {b : Block α} (hb : b.isKeep) : ∀ l ∈ b.marked, l.1 = .keep := by
  cases b with
  | keep i j ls => simp [marked]
  | change i j removed added => cases hb

theorem Block.ne_keep_of_mem_marked {b : Block α} (hb : b.isKeep = false) :
    ∀ l ∈ b.marked, l.1 ≠ .keep := by
  cases b with
  | keep i j ls => cases hb
  | change i j removed added =>
    intro l hl
    simp only [marked, List.mem_append, List.mem_map] at hl
    rcases hl with ⟨_, _, rfl⟩ | ⟨_, _, rfl⟩ <;> simp

theorem Block.Solid.marked_ne_nil {b : Block α} (h : b.Solid) (hb : b.isKeep = false) :
    b.marked ≠ [] := by
  cases b with
  | keep i j ls => cases hb
  | change i j removed added =>
    have hlines := h hb
    simp only [Block.old, Block.new] at hlines
    simp only [Block.marked, Ne, List.append_eq_nil_iff, List.map_eq_nil_iff]
    tauto

/-! ## kept lines around a change -/

section
variable {b : Block α} {run a rest : List (Kind × α)} (hkept : Kept run) (hb : b.isKeep = false)
  (hsolid : b.Solid)

include hkept hb hsolid

theorem Kept.prefix_before (h : run <+: a ++ (b.marked ++ rest)) : run <+: a := by
  obtain ⟨x, xs, hxs⟩ := List.exists_cons_of_ne_nil (hsolid.marked_ne_nil hb)
  have hx : x.1 ≠ .keep := Block.ne_keep_of_mem_marked hb x (by simp [hxs])
  rw [hxs, List.cons_append] at h
  exact prefix_of_notMem (hkept.notMem hx) h

theorem Kept.suffix_after (h : run <:+ a ++ (b.marked ++ rest)) : run <:+ rest := by
  obtain ⟨xs, x, hxs⟩ := (List.eq_nil_or_concat b.marked).resolve_left (hsolid.marked_ne_nil hb)
  have hx : x.1 ≠ .keep := Block.ne_keep_of_mem_marked hb x (by simp [hxs])
  rw [hxs, List.concat_eq_append, List.append_assoc, ← List.append_assoc, List.singleton_append] at h
  exact suffix_of_notMem (hkept.notMem hx) h

theorem Kept.infix_beside (h : run <:+: a ++ (b.marked ++ rest)) : run <:+: a ∨ run <:+: rest := by
  have hmarked := Block.ne_keep_of_mem_marked hb
  obtain ⟨x, xs, hxs⟩ := List.exists_cons_of_ne_nil (hsolid.marked_ne_nil hb)
  rw [hxs] at h hmarked
  clear hxs
  induction xs generalizing a x with
  | nil => exact infix_of_notMem (hkept.notMem (hmarked x List.mem_cons_self)) h
  | cons y ys ih =>
    rcases infix_of_notMem (hkept.notMem (hmarked x List.mem_cons_self)) h with h | h
    · exact .inl h
    · -- the next line that is not kept has nothing before it
      have hnil : run <:+: [] ++ (y :: ys ++ rest) := h
      rcases ih y (fun l hl => hmarked l (List.mem_cons_of_mem x hl)) hnil with h | h
      · rw [List.infix_nil.mp h]
        exact .inl List.nil_infix
      · exact .inr h

end

/-! ## hunks are focused -/

section
variable {n : Nat} {bs : List (Block α)} {run : List (Kind × α)}

/-- next to kept lines is a change -/
theorem Alternating.after_keep {front back : List (Block α)} {b c : Block α}
    (h : Alternating (front ++ b :: c :: back)) (hb : b.isKeep) : c.isKeep = false ∧ c.Solid := by
  refine ⟨?_, h.solid c (by simp)⟩
  rcases h.neighbours with hb' | hc
  · rw [hb] at hb'
    cases hb'
  · exact hc

theorem Alternating.before_keep {front back : List (Block α)} {b c : Block α}
    (h : Alternating (front ++ b :: c :: back)) (hc : c.isKeep) : b.isKeep = false ∧ b.Solid := by
  refine ⟨?_, h.solid b (by simp)⟩
  rcases h.neighbours with hb | hc'
  · exact hb
  · rw [hc] at hc'
    cases hc'

/-- kept lines at the front of a hunk are those of its first block -/
theorem IsHunk.length_front (h : IsHunk n bs) (hkept : Kept run) (hrun : run <+: markedLines bs) :
    run.length ≤ n := by
  obtain ⟨c, hc, hchange⟩ := h.change
  cases bs with
  | nil => cases hc
  | cons b bs =>
    cases hb : b.isKeep with
    | false =>
      have hnil : run <+: [] := hkept.prefix_before hb (h.solid b List.mem_cons_self) hrun
      rw [List.prefix_nil.mp hnil]
      exact Nat.zero_le n
    | true =>
      have hfirst : b.old.length ≤ n := h.first b rfl hb
      rw [← Block.length_marked hb] at hfirst
      cases bs with
      | nil =>
        rw [List.mem_singleton.mp hc, hb] at hchange
        cases hchange
      | cons d bs =>
        have halt : Alternating ([] ++ b :: d :: bs) := h.toAlternating
        obtain ⟨hd, hsolid⟩ := halt.after_keep hb
        have hle := (hkept.prefix_before hd hsolid hrun).length_le
        omega

/-- kept lines at the back of a hunk are those of its last block -/
theorem IsHunk.length_back (h : IsHunk n bs) (hkept : Kept run) (hrun : run <:+ markedLines bs) :
    run.length ≤ n := by
  obtain ⟨c, hc, hchange⟩ := h.change
  rcases List.eq_nil_or_concat bs with rfl | ⟨front, b, rfl⟩
  · cases hc
  · rw [List.concat_eq_append] at h hc hrun
    rw [markedLines_append] at hrun
    cases hb : b.isKeep with
    | false =>
      have hnil : run <:+ [] := hkept.suffix_after hb (h.solid b (by simp)) hrun
      rw [List.suffix_nil.mp hnil]
      exact Nat.zero_le n
    | true =>
      have hlast : b.old.length ≤ n := h.last b (by simp) hb
      rw [← Block.length_marked hb] at hlast
      rcases List.eq_nil_or_concat front with rfl | ⟨front, d, rfl⟩
      · rw [List.mem_singleton.mp hc, hb] at hchange
        cases hchange
      · rw [List.concat_eq_append, List.append_assoc] at h
        rw [List.concat_eq_append, markedLines_append, List.append_assoc] at hrun
        obtain ⟨hd, hsolid⟩ := h.toAlternating.before_keep hb
        have hafter : run <:+ markedLines [b] := hkept.suffix_after hd hsolid (by simpa [markedLines] using hrun)
        have hle := hafter.length_le
        simp only [markedLines, List.flatMap_singleton] at hle
        omega

/-- kept lines that stand one after the other are all of one block -/
theorem Alternating.length_run (h : Alternating bs) (hinner : ∀ b ∈ bs, b.isKeep → b.old.length ≤ n)
    (hkept : Kept run) (hrun : run <:+: markedLines bs) : run.length ≤ n := by
  induction bs with
  | nil =>
    rw [List.infix_nil.mp hrun]
    exact Nat.zero_le n
  | cons b bs ih =>
    obtain ⟨hlength, hinner⟩ := List.forall_mem_cons.mp hinner
    have ih := ih h.tail hinner
    cases hb : b.isKeep with
    | false =>
      have hbeside : run <:+: [] ++ (b.marked ++ markedLines bs) := hrun
      rcases hkept.infix_beside hb (h.solid b List.mem_cons_self) hbeside with hrun | hrun
      · rw [List.infix_nil.mp hrun]
        exact Nat.zero_le n
      · exact ih hrun
    | true =>
      have hlength := hlength hb
      rw [← Block.length_marked hb] at hlength
      cases bs with
      | nil =>
        have hle := hrun.length_le
        simp only [markedLines, List.flatMap_singleton] at hle
        omega
      | cons c bs =>
        have halt : Alternating ([] ++ b :: c :: bs) := h
        obtain ⟨hc, hsolid⟩ := halt.after_keep hb
        rcases hkept.infix_beside hc hsolid hrun with hrun | hrun
        · have hle := hrun.length_le
          omega
        · exact ih (hrun.trans (List.suffix_append c.marked (markedLines bs)).isInfix)

theorem IsHunk.focused (h : IsHunk n bs) : Focused n (markedLines bs) where
  change := by
    obtain ⟨b, hmem, hb⟩ := h.change
    obtain ⟨l, hl⟩ := List.exists_mem_of_ne_nil _ ((h.solid b hmem).marked_ne_nil hb)
    exact ⟨l, List.mem_flatMap.mpr ⟨b, hmem, hl⟩, Block.ne_keep_of_mem_marked hb l hl⟩
  front _ hrun hkept := h.length_front hkept hrun
  back _ hrun hkept := h.length_back hkept hrun
  inner _ hrun hkept := h.toAlternating.length_run h.inner hkept hrun

end

/-! ## lists that do not differ -/

section
variable [DecidableEq α]

theorem sharedFront_self (l : List α) : sharedFront l l = l.length := by
  induction l with
  | nil => rfl
  | cons x xs ih => rw [sharedFront, if_pos rfl, ih, List.length_cons]

theorem script_self (l : List α) : script l l = single .keep 0 0 l := by
  have htrim : trim l l = ⟨l, [], [], []⟩ := by
    simp [trim, sharedFront_self]
  unfold script
  rw [scriptAt]
  simp [htrim, single]

/-- edits of the other kinds are left where they are -/
theorem settle_of_ne {kind : Kind} (before : List (Edit α)) {after : List (Edit α)}
    (h : ∀ e ∈ after, e.kind ≠ kind) : settle kind before after = before.reverse ++ after := by
  induction after generalizing before with
  | nil => rw [settle, List.append_nil]
  | cons e after ih =>
    obtain ⟨he, hafter⟩ := List.forall_mem_cons.mp h
    rw [settle, dif_neg he, ih (e :: before) hafter, List.reverse_cons, ← List.append_cons]

theorem compact_of_keep {es : List (Edit α)} (h : ∀ e ∈ es, e.kind = .keep) : compact es = es := by
  have hremove : ∀ e ∈ es, e.kind ≠ .remove := fun e he => by simp [h e he]
  have hadd : ∀ e ∈ es, e.kind ≠ .add := fun e he => by simp [h e he]
  unfold compact
  rw [settle_of_ne [] hremove, List.reverse_nil, List.nil_append, settle_of_ne [] hadd]
  rfl

theorem hunksBetween_self (n : Nat) (l : List α) : hunksBetween n l l = [] := by
  unfold hunksBetween
  by_cases hl : l = []
  · have hscript : script l l = [] := by simp [script_self, single, hl]
    rw [hscript, compact_of_keep (by simp)]
    rfl
  · have hscript : script l l = [⟨.keep, 0, 0, l⟩] := by simp [script_self, single, hl]
    rw [hscript, compact_of_keep (by simp)]
    show splitHunks n [] [((Block.keep 0 0 l).lastLines n).firstLines n] = []
    have hkeep : (((Block.keep 0 0 l).lastLines n).firstLines n).isKeep := rfl
    have hlength := Block.length_firstLines n hkeep
    rw [splitHunks, if_neg (by omega)]
    rfl

end

/-! ## printed hunks -/

/-- a hunk as it is printed: where its header says that it stands, from which line to which on both
sides, and its lines with what becomes of them -/
structure Hunk where
  oldFrom : Nat
  oldTo : Nat
  newFrom : Nat
  newTo : Nat
  lines : List (Kind × List Char)

def Kind.mark : Kind → Char
  | keep => ' '
  | remove => '-'
  | add => '+'

/-- a line behind its mark; one without terminator is followed by a note -/
def markedText (l : Kind × List Char) : List Char :=
  l.1.mark :: l.2 ++ if terminated l.2 then [] else '\n' :: "\\ No newline at end of file\n".toList

namespace Hunk

def old (h : Hunk) : List (List Char) := oldLines h.lines

def new (h : Hunk) : List (List Char) := newLines h.lines

def text (h : Hunk) : List Char :=
  (Row.hunk h.oldFrom h.oldTo h.newFrom h.newTo).text ++ h.lines.flatMap markedText

def ofBlocks (bs : List (Block (List Char))) : Hunk where
  oldFrom := (bs.head?.map Block.oldAt).getD 0
  oldTo := (bs.getLast?.map fun b => b.oldAt + b.old.length).getD 0
  newFrom := (bs.head?.map Block.newAt).getD 0
  newTo := (bs.getLast?.map fun b => b.newAt + b.new.length).getD 0
  lines := markedLines bs

end Hunk

theorem flatMap_text_lineRows {kind : Kind} {role : List Char → Row} {line : List Char}
    (h : (role line).text = kind.mark :: lineText line) :
    (lineRows role line).flatMap Row.text = markedText (kind, line) := by
  unfold lineText at h
  unfold lineRows markedText
  by_cases ht : terminated line = true
  · rw [if_pos ht] at h
    rw [if_pos ht, if_pos ht, List.flatMap_singleton, h, List.append_nil]
  · rw [if_neg ht] at h
    rw [if_neg ht, if_neg ht, List.flatMap_cons, List.flatMap_singleton, h, List.cons_append,
      List.append_assoc, List.singleton_append]
    rfl

theorem flatMap_text_lines {kind : Kind} {role : List Char → Row}
    (h : ∀ line, (role line).text = kind.mark :: lineText line) (lines : List (List Char)) :
    (lines.flatMap (lineRows role)).flatMap Row.text = (lines.map (kind, ·)).flatMap markedText := by
  induction lines with
  | nil => rfl
  | cons line lines ih =>
    rw [List.flatMap_cons, List.flatMap_append, ih, flatMap_text_lineRows (h line),
      List.map_cons, List.flatMap_cons]

theorem Block.flatMap_text_rows (b : Block (List Char)) :
    b.rows.flatMap Row.text = b.marked.flatMap markedText := by
  have hcontext (line : List Char) : (Row.context line).text = Kind.keep.mark :: lineText line := rfl
  have hremoved (line : List Char) : (Row.removed line).text = Kind.remove.mark :: lineText line := rfl
  have hadded (line : List Char) : (Row.added line).text = Kind.add.mark :: lineText line := rfl
  cases b with
  | keep i j lines =>
    rw [rows, marked]
    exact flatMap_text_lines hcontext lines
  | change i j removed added =>
    rw [rows, marked, List.flatMap_append, List.flatMap_append, flatMap_text_lines hremoved removed,
      flatMap_text_lines hadded added]

theorem flatMap_text_hunkRows {bs : List (Block (List Char))} (h : bs ≠ []) :
    (hunkRows bs).flatMap Row.text = (Hunk.ofBlocks bs).text := by
  obtain ⟨first, hfirst⟩ := Option.isSome_iff_exists.mp (List.isSome_head?.mpr h)
  obtain ⟨last, hlast⟩ := Option.isSome_iff_exists.mp (List.getLast?_isSome.mpr h)
  have hblocks : (bs.flatMap Block.rows).flatMap Row.text = (markedLines bs).flatMap markedText := by
    unfold markedLines
    rw [List.flatMap_assoc, List.flatMap_assoc]
    exact List.flatMap_congr fun b _ => b.flatMap_text_rows
  unfold hunkRows Hunk.text Hunk.ofBlocks
  simp only [hfirst, hlast, List.flatMap_cons, hblocks, hunkHeader, Option.map_some, Option.getD_some]

theorem flatMap_text_hunks {n : Nat} {hs : List (List (Block (List Char)))}
    (h : ∀ bs ∈ hs, IsHunk n bs) :
    (hs.flatMap hunkRows).flatMap Row.text = (hs.map Hunk.ofBlocks).flatMap Hunk.text := by
  induction hs with
  | nil => rfl
  | cons bs hs ih =>
    obtain ⟨hbs, hhs⟩ := List.forall_mem_cons.mp h
    obtain ⟨b, hb, -⟩ := hbs.change
    rw [List.flatMap_cons, List.flatMap_append, ih hhs, flatMap_text_hunkRows (List.ne_nil_of_mem hb),
      List.map_cons, List.flatMap_cons]

theorem isHunk_of_mem_hunksBetween (n : Nat) (old new : List (List Char)) :
    ∀ bs ∈ hunksBetween n old new, IsHunk n bs := by
  intro bs hbs
  exact isHunk_of_mem_hunks (alternating_blocks (leads_compact_script old new).solid) hbs

theorem patches_hunksBetween (n : Nat) (old new : List (List Char)) :
    Patches blocksOld blocksNew (hunksBetween n old new) old new := by
  have h := patches_hunks n (blocks (compact (script old new)))
  rwa [blocksOld_blocks, blocksNew_blocks, (leads_compact_script old new).old,
    (leads_compact_script old new).new] at h

theorem Patches.map {η θ : Type} {before after : η → List α} {before' after' : θ → List α}
    {f : η → θ} (hbefore : ∀ h, before' (f h) = before h) (hafter : ∀ h, after' (f h) = after h)
    {hs : List η} {old new : List α} (h : Patches before after hs old new) :
    Patches before' after' (hs.map f) old new := by
  induction h with
  | rest common => exact .rest common
  | hunk common h _ ih =>
    rw [← hbefore, ← hafter]
    exact .hunk common (f h) ih

theorem Patches.eq_of_nil {η : Type} {before after : η → List α} {old new : List α}
    (h : Patches before after [] old new) : old = new := by
  cases h
  rfl

theorem eq_of_textLines_eq {a b : String} (h : textLines a = textLines b) : a = b := by
  have htext := congrArg List.flatten h
  unfold textLines at htext
  rw [Lines.cut_flatten, Lines.cut_flatten] at htext
  exact String.toList_inj.mp htext

theorem hunksBetween_ne_nil {old new : String} (h : old ≠ new) (n : Nat) :
    hunksBetween n (textLines old) (textLines new) ≠ [] := by
  intro hnil
  have hpatches := patches_hunksBetween n (textLines old) (textLines new)
  rw [hnil] at hpatches
  exact h (eq_of_textLines_eq hpatches.eq_of_nil)

def fileHeaders (oldLabel newLabel : String) : String :=
  "--- " ++ oldLabel ++ "\n" ++ ("+++ " ++ newLabel ++ "\n")

theorem unified_eq_of_ne_nil {old new : String} {n : Nat}
    (h : hunksBetween n (textLines old) (textLines new) ≠ []) (oldLabel newLabel : String) :
    unified old new oldLabel newLabel n = fileHeaders oldLabel newLabel ++ String.ofList
      (((hunksBetween n (textLines old) (textLines new)).map Hunk.ofBlocks).flatMap Hunk.text) := by
  have hhunks := isHunk_of_mem_hunksBetween n (textLines old) (textLines new)
  unfold unified rows fileHeaders
  generalize hunksBetween n (textLines old) (textLines new) = hs at h hhunks
  rw [← flatMap_text_hunks hhunks]
  cases hs with
  | nil => exact (h rfl).elim
  | cons bs hs =>
    have hold (l : List Char) : (Row.oldFile l).text = "--- ".toList ++ l ++ "\n".toList := rfl
    have hnew (l : List Char) : (Row.newFile l).text = "+++ ".toList ++ l ++ "\n".toList := rfl
    apply String.toList_inj.mp
    rw [String.toList_ofList, List.flatMap_cons, List.flatMap_cons, hold, hnew]
    simp only [String.toList_append, String.toList_ofList, List.append_assoc]

/-- **A diff is a patch from the old text to the new one.**  It is empty exactly when the texts are
equal.  Otherwise it has two header lines and then hunks: replacing the old lines of each by the new
ones, at places that are disjoint and in order, turns the lines of one text into those of the other,
and every hunk has a change with at most `context` kept lines at either end and at most
`2 * context` between two changes. -/
theorem unified_patches (old new oldLabel newLabel : String) (context : Nat) :
    (unified old new oldLabel newLabel context = "" ↔ old = new) ∧
    (old = new ∨ ∃ hs : List Hunk,
      unified old new oldLabel newLabel context =
        fileHeaders oldLabel newLabel ++ String.ofList (hs.flatMap Hunk.text) ∧
      Patches Hunk.old Hunk.new hs (textLines old) (textLines new) ∧
      ∀ h ∈ hs, Focused context h.lines) := by
  have hpatches := patches_hunksBetween context (textLines old) (textLines new)
  by_cases hsame : old = new
  · subst hsame
    refine ⟨⟨fun _ => rfl, fun _ => ?_⟩, .inl rfl⟩
    unfold unified rows
    rw [hunksBetween_self]
    rfl
  · have hne : hunksBetween context (textLines old) (textLines new) ≠ [] := by
      intro hnil
      rw [hnil] at hpatches
      exact hsame (eq_of_textLines_eq hpatches.eq_of_nil)
    have htext := unified_eq_of_ne_nil hne oldLabel newLabel
    refine ⟨⟨fun hempty => ?_, fun h => absurd h hsame⟩, .inr ⟨_, htext, ?_, ?_⟩⟩
    · rw [hempty] at htext
      have hdash : ("--- ").length = 4 := by decide
      have hlength := congrArg String.length htext
      simp only [fileHeaders, String.length_append, String.length_empty, hdash] at hlength
      omega
    · have hold (bs : List (Block (List Char))) : (Hunk.ofBlocks bs).old = blocksOld bs :=
        oldLines_markedLines bs
      have hnew (bs : List (Block (List Char))) : (Hunk.ofBlocks bs).new = blocksNew bs :=
        newLines_markedLines bs
      exact hpatches.map hold hnew
    · intro h hh
      obtain ⟨bs, hbs, rfl⟩ := List.mem_map.mp hh
      exact (isHunk_of_mem_hunksBetween context _ _ bs hbs).focused

end CommentFree.Diff
