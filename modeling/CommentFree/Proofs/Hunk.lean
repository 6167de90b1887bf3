import CommentFree.Diff.Hunk
import Mathlib.Data.List.Chain

/-!
# Hunks are what is left when long runs are cut out

The blocks of a script take turns: kept lines, a change, kept lines.  Cutting hunks out of them
leaves lines aside, but only lines that both sides keep, and each of the hunks has a change with few
kept lines around it.

* `blocksOld_blocks`, `blocksNew_blocks`   the blocks of a script have its two sides;
* `alternating_blocks`                     they take turns;
* `Framed`                                 they take turns and have little at either end, which is
                                           what cutting into hunks needs (`Alternating.framed`) and
                                           what it keeps up (`Framed.split`);
* `isHunk_of_mem_hunks`                    so every hunk is one;
* `Patches`, `patches_hunks`               what stands outside of the hunks is the same on both sides.
-/

namespace CommentFree.Diff

variable {α : Type}

/-! ## sides of blocks -/

def blocksOld (bs : List (Block α)) : List α := bs.flatMap Block.old

def blocksNew (bs : List (Block α)) : List α := bs.flatMap Block.new

theorem blocksOld_cons (b : Block α) (bs : List (Block α)) :
    blocksOld (b :: bs) = b.old ++ blocksOld bs := rfl
theorem blocksNew_cons (b : Block α) (bs : List (Block α)) :
    blocksNew (b :: bs) = b.new ++ blocksNew bs := rfl
theorem blocksOld_append (a b : List (Block α)) :
    blocksOld (a ++ b) = blocksOld a ++ blocksOld b := List.flatMap_append
theorem blocksNew_append (a b : List (Block α)) :
    blocksNew (a ++ b) = blocksNew a ++ blocksNew b := List.flatMap_append
theorem blocksOld_singleton (b : Block α) : blocksOld [b] = b.old := List.flatMap_singleton ..
theorem blocksNew_singleton (b : Block α) : blocksNew [b] = b.new := List.flatMap_singleton ..

theorem blocksOld_addEdit (e : Edit α) (bs : List (Block α)) :
    blocksOld (addEdit e bs) = e.old ++ blocksOld bs := by
  fun_cases addEdit e bs <;> simp [blocksOld, Edit.old, Block.old, *]

theorem blocksNew_addEdit (e : Edit α) (bs : List (Block α)) :
    blocksNew (addEdit e bs) = e.new ++ blocksNew bs := by
  fun_cases addEdit e bs <;> simp [blocksNew, Edit.new, Block.new, *]

theorem blocksOld_blocks (es : List (Edit α)) : blocksOld (blocks es) = oldSide es := by
  induction es with
  | nil => rfl
  | cons e es ih =>
    show blocksOld (addEdit e (blocks es)) = _
    rw [blocksOld_addEdit, ih, oldSide_cons]

theorem blocksNew_blocks (es : List (Edit α)) : blocksNew (blocks es) = newSide es := by
  induction es with
  | nil => rfl
  | cons e es ih =>
    show blocksNew (addEdit e (blocks es)) = _
    rw [blocksNew_addEdit, ih, newSide_cons]

/-! ## blocks take turns -/

/-- a change has lines -/
def Block.Solid (b : Block α) : Prop := b.isKeep = false → b.old ≠ [] ∨ b.new ≠ []

/-- kept lines and changes take turns, and changes have lines -/
structure Alternating (bs : List (Block α)) : Prop where
  turns : (bs.map Block.isKeep).IsChain (· ≠ ·)
  solid : ∀ b ∈ bs, b.Solid

namespace Alternating

variable {b c : Block α} {bs front back : List (Block α)}

theorem nil : Alternating ([] : List (Block α)) := ⟨.nil, by simp⟩

theorem cons (h : Alternating bs) (hhead : ∀ c ∈ bs.head?, b.isKeep ≠ c.isKeep)
    (hb : b.Solid) : Alternating (b :: bs) where
  turns := by
    rw [List.map_cons]
    refine h.turns.cons ?_
    intro k hk
    rw [List.head?_map] at hk
    obtain ⟨c, hc, rfl⟩ := Option.map_eq_some_iff.mp hk
    exact hhead c hc
  solid := List.forall_mem_cons.mpr ⟨hb, h.solid⟩

/-- another block of the same sort in the place of one -/
theorem replace (h : Alternating (front ++ b :: back)) (hkeep : c.isKeep = b.isKeep)
    (hc : c.Solid) : Alternating (front ++ c :: back) where
  turns := by
    have hturns := h.turns
    rwa [List.map_append, List.map_cons, ← hkeep, ← List.map_cons, ← List.map_append] at hturns
  solid := by
    intro x hx
    rcases List.mem_append.mp hx with hx | hx
    · exact h.solid x (List.mem_append_left _ hx)
    · rcases List.mem_cons.mp hx with rfl | hx
      · exact hc
      · exact h.solid x (List.mem_append_right _ (List.mem_cons_of_mem _ hx))

theorem replace_head (h : Alternating (b :: back)) (hkeep : c.isKeep = b.isKeep)
    (hc : c.Solid) : Alternating (c :: back) := by
  have h' : Alternating ([] ++ b :: back) := h
  exact h'.replace hkeep hc

/-- a block in the middle ends what is before it and begins what is after it -/
theorem split (h : Alternating (front ++ b :: back)) :
    Alternating (front ++ [b]) ∧ Alternating (b :: back) := by
  have hturns := h.turns
  rw [List.map_append, List.map_cons, List.isChain_split] at hturns
  refine ⟨⟨by simpa using hturns.1, ?_⟩, ⟨by simpa using hturns.2, ?_⟩⟩
  · intro x hx
    exact h.solid x (by simp only [List.mem_append, List.mem_cons, List.not_mem_nil] at hx ⊢; tauto)
  · intro x hx
    exact h.solid x (List.mem_append_right _ hx)

theorem tail (h : Alternating (b :: bs)) : Alternating bs :=
  ⟨h.turns.tail, fun x hx => h.solid x (List.mem_cons_of_mem b hx)⟩

theorem isKeep_ne (h : Alternating (front ++ b :: c :: back)) : b.isKeep ≠ c.isKeep := by
  have hturns := h.turns
  rw [List.map_append, List.map_cons, List.map_cons, List.isChain_append_cons_cons] at hturns
  exact hturns.2.1

/-- of two neighbours one is a change -/
theorem neighbours (h : Alternating (front ++ b :: c :: back)) :
    b.isKeep = false ∨ c.isKeep = false := by
  cases hb : b.isKeep with
  | false => exact .inl rfl
  | true => exact .inr (by simpa [hb] using h.isKeep_ne)

end Alternating

theorem alternating_addEdit {e : Edit α} {bs : List (Block α)} (h : Alternating bs)
    (he : e.kind ≠ .keep → e.lines ≠ []) : Alternating (addEdit e bs) := by
  fun_cases addEdit e bs with
  | case1 i j ls rest hk => exact h.replace_head rfl (by simp [Block.Solid, Block.isKeep])
  | case2 _ hk hother =>
    refine h.cons ?_ (by simp [Block.Solid, Block.isKeep])
    intro c hc
    obtain ⟨rest, rfl⟩ := List.head?_eq_some_iff.mp hc
    cases c with
    | keep i j ls => exact (hother i j ls rest rfl).elim
    | change i j removed added => simp [Block.isKeep]
  | case3 i j removed added rest hk | case5 i j removed added rest hk =>
    refine h.replace_head rfl fun _ => ?_
    have hlines := he (by simp [hk])
    simp [Block.old, Block.new, hlines]
  | case4 _ hk hother | case6 _ hk hother =>
    refine h.cons ?_ fun _ => ?_
    · intro c hc
      obtain ⟨rest, rfl⟩ := List.head?_eq_some_iff.mp hc
      cases c with
      | keep i j ls => simp [Block.isKeep]
      | change i j removed added => exact (hother i j removed added rest rfl).elim
    · have hlines := he (by simp [hk])
      simp [Block.old, Block.new, hlines]

theorem alternating_blocks {es : List (Edit α)} (h : ∀ e ∈ es, e.kind ≠ .keep → e.lines ≠ []) :
    Alternating (blocks es) := by
  induction es with
  | nil => exact .nil
  | cons e es ih =>
    obtain ⟨he, hes⟩ := List.forall_mem_cons.mp h
    exact alternating_addEdit (ih hes) he

/-! ## cutting blocks down -/

namespace Block

theorem isKeep_firstLines (n : Nat) (b : Block α) : (b.firstLines n).isKeep = b.isKeep := by
  cases b <;> rfl

theorem isKeep_lastLines (n : Nat) (b : Block α) : (b.lastLines n).isKeep = b.isKeep := by
  cases b <;> rfl

theorem Solid.firstLines {b : Block α} (h : b.Solid) (n : Nat) : (b.firstLines n).Solid := by
  cases b with
  | keep i j ls => exact fun hb => nomatch hb
  | change i j removed added => exact h

theorem Solid.lastLines {b : Block α} (h : b.Solid) (n : Nat) : (b.lastLines n).Solid := by
  cases b with
  | keep i j ls => exact fun hb => nomatch hb
  | change i j removed added => exact h

theorem length_firstLines (n : Nat) {b : Block α} (h : (b.firstLines n).isKeep) :
    (b.firstLines n).old.length ≤ n := by
  cases b with
  | keep i j ls => exact List.length_take_le n ls
  | change i j removed added => cases h

theorem length_lastLines (n : Nat) {b : Block α} (h : (b.lastLines n).isKeep) :
    (b.lastLines n).old.length ≤ n := by
  cases b with
  | keep i j ls =>
    show (ls.drop (ls.length - n)).length ≤ n
    rw [List.length_drop]
    omega
  | change i j removed added => cases h

/-- what is cut off is common to both sides -/
theorem exists_firstLines (n : Nat) (b : Block α) : ∃ common,
    b.old = (b.firstLines n).old ++ common ∧ b.new = (b.firstLines n).new ++ common := by
  cases b with
  | keep i j ls => exact ⟨ls.drop n, by simp [firstLines, old], by simp [firstLines, new]⟩
  | change i j removed added => exact ⟨[], by simp [firstLines, old], by simp [firstLines, new]⟩

theorem exists_lastLines (n : Nat) (b : Block α) : ∃ common,
    b.old = common ++ (b.lastLines n).old ∧ b.new = common ++ (b.lastLines n).new := by
  cases b with
  | keep i j ls =>
    exact ⟨ls.take (ls.length - n), by simp [lastLines, old], by simp [lastLines, new]⟩
  | change i j removed added => exact ⟨[], by simp [lastLines, old], by simp [lastLines, new]⟩

/-- a long run ends one hunk, begins the next, and what is between is common to both sides -/
theorem exists_middle {n : Nat} {b : Block α} (h : b.isKeep) (hlong : 2 * n < b.old.length) :
    ∃ common, b.old = (b.firstLines n).old ++ (common ++ (b.lastLines n).old) ∧
      b.new = (b.firstLines n).new ++ (common ++ (b.lastLines n).new) := by
  cases b with
  | keep i j ls =>
    change 2 * n < ls.length at hlong
    have hsplit : ls = ls.take n ++ ((ls.take (ls.length - n)).drop n ++ ls.drop (ls.length - n)) := by
      have hcut : ls.drop n = (ls.take (ls.length - n)).drop n ++ ls.drop (ls.length - n) := by
        rw [← List.drop_append_of_le_length, List.take_append_drop]
        rw [List.length_take]
        omega
      rw [← hcut, List.take_append_drop]
    exact ⟨(ls.take (ls.length - n)).drop n, hsplit, hsplit⟩
  | change i j removed added => cases h

end Block

/-! ## hunks -/

/-- blocks that take turns and have at most `n` kept lines at either end -/
structure Framed (n : Nat) (bs : List (Block α)) : Prop extends Alternating bs where
  first : ∀ b ∈ bs.head?, b.isKeep → b.old.length ≤ n
  last : ∀ b ∈ bs.getLast?, b.isKeep → b.old.length ≤ n

/-- a change with at most `n` kept lines at either end and at most `2 * n` between two changes -/
structure IsHunk (n : Nat) (bs : List (Block α)) : Prop extends Framed n bs where
  inner : ∀ b ∈ bs, b.isKeep → b.old.length ≤ 2 * n
  change : ∃ b ∈ bs, b.isKeep = false

theorem Alternating.lastLines {n : Nat} {back : List (Block α)} {b : Block α}
    (h : Alternating (b :: back)) : Alternating (b.lastLines n :: back) :=
  h.replace_head (b.isKeep_lastLines n) ((h.solid b List.mem_cons_self).lastLines n)

/-- with the last block cut down, it is enough that the first one is short -/
theorem Alternating.framed_concat {n : Nat} {front : List (Block α)} {b : Block α}
    (h : Alternating (front ++ [b]))
    (hfirst : ∀ c ∈ (front ++ [b]).head?, c.isKeep → c.old.length ≤ n) :
    Framed n (front ++ [b.firstLines n]) where
  toAlternating := h.replace (b.isKeep_firstLines n) ((h.solid b (by simp)).firstLines n)
  first := by
    intro c hc hkeep
    cases front with
    | nil =>
      obtain rfl : b.firstLines n = c := by simpa using hc
      exact Block.length_firstLines n hkeep
    | cons a front => exact hfirst c hc hkeep
  last := by
    intro c hc hkeep
    obtain rfl : b.firstLines n = c := by simpa using hc
    exact Block.length_firstLines n hkeep

/-- with the first block cut down, it is enough that the last one is short -/
theorem Alternating.framed_cons {n : Nat} {back : List (Block α)} {b : Block α}
    (h : Alternating (b :: back))
    (hlast : ∀ c ∈ (b :: back).getLast?, c.isKeep → c.old.length ≤ n) :
    Framed n (b.lastLines n :: back) where
  toAlternating := h.lastLines
  first := by
    intro c hc hkeep
    obtain rfl : b.lastLines n = c := by simpa using hc
    exact Block.length_lastLines n hkeep
  last := by
    intro c hc hkeep
    cases back with
    | nil =>
      obtain rfl : b.lastLines n = c := by simpa using hc
      exact Block.length_lastLines n hkeep
    | cons a back => exact hlast c hc hkeep

/-- a run in the middle, cut down from both sides, ends one list and begins another -/
theorem Framed.split {n : Nat} {front back : List (Block α)} {b : Block α}
    (h : Framed n (front ++ b :: back)) :
    Framed n (front ++ [b.firstLines n]) ∧ Framed n (b.lastLines n :: back) := by
  obtain ⟨hfront, hback⟩ := h.toAlternating.split
  have hhead : (front ++ [b]).head? = (front ++ b :: back).head? := by cases front <;> rfl
  refine ⟨hfront.framed_concat ?_, hback.framed_cons ?_⟩
  · rw [hhead]
    exact h.first
  · have hlast := h.last
    rwa [List.getLast?_append_cons] at hlast

theorem isHunk_of_mem_closeHunk {n : Nat} {pending h : List (Block α)}
    (hframed : Framed n pending.reverse) (hinner : ∀ b ∈ pending, b.isKeep → b.old.length ≤ 2 * n)
    (hmem : h ∈ closeHunk pending) : IsHunk n h := by
  have hhunk (hchange : ∃ b ∈ pending, b.isKeep = false) : IsHunk n pending.reverse := by
    obtain ⟨b, hb, hkeep⟩ := hchange
    exact ⟨hframed, fun c hc => hinner c (List.mem_reverse.mp hc), b, List.mem_reverse.mpr hb, hkeep⟩
  match pending with
  | [] => cases hmem
  | [.keep i j ls] => cases hmem
  | [.change i j removed added] =>
    rw [List.mem_singleton.mp hmem]
    exact hhunk ⟨_, List.mem_singleton_self _, rfl⟩
  | a :: c :: rest =>
    obtain rfl : h = (a :: c :: rest).reverse := by simpa [closeHunk] using hmem
    apply hhunk
    rw [List.reverse_cons, List.reverse_cons, List.append_assoc] at hframed
    rcases hframed.toAlternating.neighbours with hc | ha
    · exact ⟨c, by simp, hc⟩
    · exact ⟨a, by simp, ha⟩

/-- what has gathered before a long run, with the first lines of the run -/
theorem isHunk_of_long {n : Nat} {pending bs : List (Block α)} {b : Block α}
    (hframed : Framed n (pending.reverse ++ b :: bs))
    (hinner : ∀ b ∈ pending, b.isKeep → b.old.length ≤ 2 * n) (hb : b.isKeep)
    (hlong : 2 * n < b.old.length) : IsHunk n (b.firstLines n :: pending).reverse := by
  obtain ⟨hfront, -⟩ := hframed.split
  rw [List.reverse_cons]
  refine ⟨hfront, ?_, ?_⟩
  · intro c hc hkeep
    rcases List.mem_append.mp hc with hc | hc
    · exact hinner c (List.mem_reverse.mp hc) hkeep
    · rw [List.mem_singleton.mp hc]
      have hle := Block.length_firstLines n ((b.isKeep_firstLines n).trans hb)
      omega
  · cases pending with
    | nil =>
      have hle := hframed.first b rfl hb
      omega
    | cons a pending =>
      -- the block before a long run is not one itself
      rw [List.reverse_cons, ← List.append_cons] at hframed
      rcases hframed.toAlternating.neighbours with ha | hb'
      · exact ⟨a, by simp, ha⟩
      · rw [hb] at hb'
        cases hb'

/-- cutting at long runs leaves hunks; `pending` has no long run in it -/
theorem isHunk_of_mem_splitHunks {n : Nat} {pending bs h : List (Block α)}
    (hframed : Framed n (pending.reverse ++ bs))
    (hinner : ∀ b ∈ pending, b.isKeep → b.old.length ≤ 2 * n)
    (hmem : h ∈ splitHunks n pending bs) : IsHunk n h := by
  induction bs generalizing pending with
  | nil =>
    rw [List.append_nil] at hframed
    exact isHunk_of_mem_closeHunk hframed hinner hmem
  | cons b bs ih =>
    rw [splitHunks] at hmem
    by_cases hb : b.isKeep ∧ 2 * n < b.old.length
    · rw [if_pos hb] at hmem
      rcases List.mem_cons.mp hmem with rfl | hmem
      · exact isHunk_of_long hframed hinner hb.1 hb.2
      · have hnext : Framed n ([b.lastLines n].reverse ++ bs) := hframed.split.2
        refine ih hnext ?_ hmem
        intro c hc hkeep
        rw [List.mem_singleton.mp hc]
        have hle := Block.length_lastLines n ((b.isKeep_lastLines n).trans hb.1)
        omega
    · rw [if_neg hb] at hmem
      refine ih (by rwa [List.reverse_cons, ← List.append_cons]) ?_ hmem
      refine List.forall_mem_cons.mpr ⟨fun hkeep => ?_, hinner⟩
      have hshort := not_and.mp hb hkeep
      omega

/-! ## both ends -/

theorem mapLast_concat (f : Block α → Block α) (bs : List (Block α)) (b : Block α) :
    mapLast f (bs ++ [b]) = bs ++ [f b] := by
  simp [mapLast, mapFirst]

/-- cutting both ends down leaves little at either end -/
theorem Alternating.framed {n : Nat} {bs : List (Block α)} (h : Alternating bs) :
    Framed n (mapLast (·.firstLines n) (mapFirst (·.lastLines n) bs)) := by
  cases bs with
  | nil => exact ⟨.nil, by simp [mapLast, mapFirst], by simp [mapLast, mapFirst]⟩
  | cons b bs =>
    show Framed n (mapLast (·.firstLines n) (b.lastLines n :: bs))
    have hb : Alternating (b.lastLines n :: bs) := h.lastLines
    have hlength : (b.lastLines n).isKeep → (b.lastLines n).old.length ≤ n := Block.length_lastLines n
    generalize b.lastLines n = a at hb hlength
    obtain ⟨front, z, hz⟩ := List.eq_nil_or_concat (a :: bs) |>.resolve_left (by simp)
    rw [List.concat_eq_append] at hz
    have hfirst : ∀ c ∈ (front ++ [z]).head?, c.isKeep → c.old.length ≤ n := by
      rw [← hz]
      intro c hc
      obtain rfl : a = c := by simpa using hc
      exact hlength
    rw [hz] at hb ⊢
    rw [mapLast_concat]
    exact hb.framed_concat hfirst

theorem isHunk_of_mem_hunks {n : Nat} {bs h : List (Block α)} (halt : Alternating bs)
    (hmem : h ∈ hunks n bs) : IsHunk n h := by
  have hframed : Framed n ([].reverse ++ mapLast (·.firstLines n) (mapFirst (·.lastLines n) bs)) :=
    halt.framed
  exact isHunk_of_mem_splitHunks hframed (by simp) hmem

/-! ## what is left aside -/

/-- Slices are cut out of two lists, one pair for each hunk, disjoint and one after the other:
`before` gives the old lines of a hunk and `after` the new ones.  All that stands outside of the
slices is common to both lists, so with every old slice replaced by the new one the old list
becomes the new one. -/
inductive Patches {η : Type} (before after : η → List α) : List η → List α → List α → Prop
  | rest (common : List α) : Patches before after [] common common
  | hunk (common : List α) (h : η) {hs : List η} {old new : List α}
      (hrest : Patches before after hs old new) :
      Patches before after (h :: hs) (common ++ (before h ++ old)) (common ++ (after h ++ new))

namespace Patches

variable {η : Type} {before after : η → List α} {hs : List η} {old new : List α}

theorem prepend (h : Patches before after hs old new) (common : List α) :
    Patches before after hs (common ++ old) (common ++ new) := by
  cases h with
  | rest => exact .rest (common ++ old)
  | hunk c h hrest =>
    have h' := Patches.hunk (common ++ c) h hrest
    simpa only [List.append_assoc] using h'

theorem append (h : Patches before after hs old new) (common : List α) :
    Patches before after hs (old ++ common) (new ++ common) := by
  induction h with
  | rest c => exact .rest (c ++ common)
  | hunk c h _ ih =>
    simp only [List.append_assoc]
    exact .hunk c h ih

end Patches

theorem patches_closeHunk (pending : List (Block α)) :
    Patches blocksOld blocksNew (closeHunk pending)
      (blocksOld pending.reverse) (blocksNew pending.reverse) := by
  fun_cases closeHunk pending with
  | case1 => exact .rest []
  | case2 i j ls => exact .rest (ls ++ [])
  | case3 =>
    have h : Patches blocksOld blocksNew [pending.reverse] ([] ++ (blocksOld pending.reverse ++ []))
        ([] ++ (blocksNew pending.reverse ++ [])) := .hunk [] _ (.rest [])
    simpa using h

theorem patches_splitHunks (n : Nat) (pending bs : List (Block α)) :
    Patches blocksOld blocksNew (splitHunks n pending bs)
      (blocksOld (pending.reverse ++ bs)) (blocksNew (pending.reverse ++ bs)) := by
  induction bs generalizing pending with
  | nil =>
    rw [List.append_nil]
    exact patches_closeHunk pending
  | cons b bs ih =>
    rw [splitHunks]
    by_cases hb : b.isKeep ∧ 2 * n < b.old.length
    · rw [if_pos hb]
      obtain ⟨common, hold, hnew⟩ := Block.exists_middle hb.1 hb.2
      have hrest := (ih [b.lastLines n]).prepend common
      rw [blocksOld_append, blocksNew_append, blocksOld_cons, blocksNew_cons, hold, hnew]
      have h := Patches.hunk [] (b.firstLines n :: pending).reverse hrest
      simpa [blocksOld, blocksNew] using h
    · rw [if_neg hb]
      have h := ih (b :: pending)
      rwa [List.reverse_cons, ← List.append_cons] at h

theorem exists_mapFirst (n : Nat) (bs : List (Block α)) : ∃ common,
    blocksOld bs = common ++ blocksOld (mapFirst (·.lastLines n) bs) ∧
      blocksNew bs = common ++ blocksNew (mapFirst (·.lastLines n) bs) := by
  cases bs with
  | nil => exact ⟨[], rfl, rfl⟩
  | cons b bs =>
    obtain ⟨common, hold, hnew⟩ := b.exists_lastLines n
    refine ⟨common, ?_, ?_⟩
    · rw [mapFirst, blocksOld_cons, blocksOld_cons, hold, List.append_assoc]
    · rw [mapFirst, blocksNew_cons, blocksNew_cons, hnew, List.append_assoc]

theorem exists_mapLast (n : Nat) (bs : List (Block α)) : ∃ common,
    blocksOld bs = blocksOld (mapLast (·.firstLines n) bs) ++ common ∧
      blocksNew bs = blocksNew (mapLast (·.firstLines n) bs) ++ common := by
  rcases List.eq_nil_or_concat bs with rfl | ⟨front, b, rfl⟩
  · exact ⟨[], rfl, rfl⟩
  · obtain ⟨common, hold, hnew⟩ := b.exists_firstLines n
    rw [List.concat_eq_append, mapLast_concat]
    refine ⟨common, ?_, ?_⟩
    · rw [blocksOld_append, blocksOld_append, blocksOld_cons, blocksOld_cons, hold]
      simp [blocksOld]
    · rw [blocksNew_append, blocksNew_append, blocksNew_cons, blocksNew_cons, hnew]
      simp [blocksNew]

theorem patches_hunks (n : Nat) (bs : List (Block α)) :
    Patches blocksOld blocksNew (hunks n bs) (blocksOld bs) (blocksNew bs) := by
  obtain ⟨front, hfrontOld, hfrontNew⟩ := exists_mapFirst n bs
  obtain ⟨back, hbackOld, hbackNew⟩ := exists_mapLast n (mapFirst (·.lastLines n) bs)
  have h := patches_splitHunks n [] (mapLast (·.firstLines n) (mapFirst (·.lastLines n) bs))
  rw [hfrontOld, hfrontNew, hbackOld, hbackNew]
  exact (h.append back).prepend front

end CommentFree.Diff
