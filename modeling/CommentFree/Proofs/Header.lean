import CommentFree.Proofs.Patch
import CommentFree.Proofs.Position

/-!
# What a header says about the place of its hunk

The header of a hunk is read off its first and its last block.  Kept lines stand where they say, and
so does a change on each side on which it has lines.  A hunk begins with kept lines, perhaps none of
them, unless nothing at all stands before it, and ends with kept lines unless nothing stands behind
it.  So a header can only be wrong at the beginning and at the end of the texts, next to lines that
are only added or only removed; and there it is wrong at times (`header_wrong`).

* `Block.StandsAt`, `blocksPlaced_blocks`   the blocks of a script stand where they say;
* `PatchesAt`        a patch in which each hunk is looked at together with its place;
* `InPlace`          what is known of the blocks of a hunk at its place, which cutting keeps up
                     (`InPlace.cutLast`, `InPlace.cutFirst`), so that hunks have it
                     (`patchesAt_hunks`);
* `InPlace.ends`     what the ends of such a hunk say, on either side;
* `unified_headers`  the headers that are printed.
-/

namespace CommentFree.Diff

variable {α : Type}

/-! ## blocks stand where they say -/

/-- a block stands where it says on each side on which it has lines, and kept lines, even none of
them, do so on both -/
structure Block.StandsAt (b : Block α) (i j : Nat) : Prop where
  old : b.isKeep ∨ b.old ≠ [] → b.oldAt = i
  new : b.isKeep ∨ b.new ≠ [] → b.newAt = j

def BlocksPlaced : Nat → Nat → List (Block α) → Prop := InTurn Block.old Block.new Block.StandsAt

theorem blocksPlaced_append {a b : List (Block α)} {i j : Nat} : BlocksPlaced i j (a ++ b) ↔
    BlocksPlaced i j a ∧ BlocksPlaced (i + (blocksOld a).length) (j + (blocksNew a).length) b :=
  inTurn_append

theorem blocksPlaced_addEdit {e : Edit α} {bs : List (Block α)} {i j : Nat} (he : e.StandsAt i j)
    (h : BlocksPlaced (i + e.old.length) (j + e.new.length) bs) :
    BlocksPlaced i j (addEdit e bs) := by
  fun_cases addEdit e bs with
  | case1 i' j' ls rest hkind =>
    obtain ⟨-, hrest⟩ := h
    refine ⟨⟨fun _ => he.old (by simp [hkind]), fun _ => he.new (by simp [hkind])⟩, ?_⟩
    simpa [Edit.old, Edit.new, Block.old, Block.new, hkind, Nat.add_assoc] using hrest
  | case2 _ hkind =>
    refine ⟨⟨fun _ => he.old (by simp [hkind]), fun _ => he.new (by simp [hkind])⟩, ?_⟩
    simpa [BlocksPlaced, Edit.old, Edit.new, Block.old, Block.new, hkind] using h
  | case3 i' j' removed added rest hkind =>
    obtain ⟨hstands, hrest⟩ := h
    refine ⟨⟨fun _ => he.old (by simp [hkind]), fun hadded => ?_⟩, ?_⟩
    · have hne : added ≠ [] := by simpa [Block.isKeep, Block.new] using hadded
      have hnew : j' = j + e.new.length := hstands.new (.inr hne)
      simpa [Block.newAt, hne, Edit.new, hkind] using hnew
    · simpa [Edit.old, Edit.new, Block.old, Block.new, hkind, Nat.add_assoc] using hrest
  | case4 _ hkind =>
    refine ⟨⟨fun _ => he.old (by simp [hkind]), by simp [Block.isKeep, Block.new]⟩, ?_⟩
    simpa [BlocksPlaced, Edit.old, Edit.new, Block.old, Block.new, hkind] using h
  | case5 i' j' removed added rest hkind =>
    obtain ⟨hstands, hrest⟩ := h
    refine ⟨⟨fun hremoved => ?_, fun _ => he.new (by simp [hkind])⟩, ?_⟩
    · have hne : removed ≠ [] := by simpa [Block.isKeep, Block.old] using hremoved
      have hold : i' = i + e.old.length := hstands.old (.inr hne)
      simpa [Block.oldAt, hne, Edit.old, hkind] using hold
    · simpa [Edit.old, Edit.new, Block.old, Block.new, hkind, Nat.add_assoc] using hrest
  | case6 _ hkind =>
    refine ⟨⟨by simp [Block.isKeep, Block.old], fun _ => he.new (by simp [hkind])⟩, ?_⟩
    simpa [BlocksPlaced, Edit.old, Edit.new, Block.old, Block.new, hkind] using h

theorem blocksPlaced_blocks {es : List (Edit α)} {i j : Nat} (h : Placed i j es) :
    BlocksPlaced i j (blocks es) := by
  induction es generalizing i j with
  | nil => trivial
  | cons e es ih =>
    obtain ⟨he, hes⟩ := h
    exact blocksPlaced_addEdit he (ih hes)

theorem marked_ne_nil_of_mem_addEdit {e : Edit α} {bs : List (Block α)} (he : e.lines ≠ [])
    (h : ∀ b ∈ bs, b.marked ≠ []) : ∀ b ∈ addEdit e bs, b.marked ≠ [] := by
  fun_cases addEdit e bs with
  | case1 | case3 | case5 =>
    rw [List.forall_mem_cons] at h ⊢
    exact ⟨by simp [Block.marked, he], h.2⟩
  | case2 | case4 | case6 =>
    rw [List.forall_mem_cons]
    exact ⟨by simp [Block.marked, he], h⟩

/-- no block of a script without empty edits is empty -/
theorem marked_ne_nil_of_mem_blocks {es : List (Edit α)} {i j : Nat} (h : Placed i j es) :
    ∀ b ∈ blocks es, b.marked ≠ [] := by
  induction es generalizing i j with
  | nil => simp [blocks]
  | cons e es ih =>
    obtain ⟨he, hes⟩ := h
    exact marked_ne_nil_of_mem_addEdit he.lines (ih hes)

/-! ## patches with places -/

/-- Slices are cut out of two lists as in `Patches`, behind `i` old and `j` new lines, and of each
hunk `ok` holds, given how many old and new lines stand before it and which ones stand behind it. -/
inductive PatchesAt {η : Type} (before after : η → List α)
    (ok : Nat → Nat → η → List α → List α → Prop) :
    Nat → Nat → List η → List α → List α → Prop
  | rest (i j : Nat) (common : List α) : PatchesAt before after ok i j [] common common
  | hunk {i j : Nat} (common : List α) (h : η) {hs : List η} {old new : List α}
      (hok : ok (i + common.length) (j + common.length) h old new)
      (hrest : PatchesAt before after ok (i + common.length + (before h).length)
        (j + common.length + (after h).length) hs old new) :
      PatchesAt before after ok i j (h :: hs) (common ++ (before h ++ old))
        (common ++ (after h ++ new))

namespace PatchesAt

variable {η : Type} {before after : η → List α} {ok : Nat → Nat → η → List α → List α → Prop}
  {i j : Nat} {hs : List η} {old new : List α}

theorem prepend (common : List α)
    (h : PatchesAt before after ok (i + common.length) (j + common.length) hs old new) :
    PatchesAt before after ok i j hs (common ++ old) (common ++ new) := by
  cases h with
  | rest => exact .rest i j (common ++ old)
  | hunk c h hok hrest =>
    rw [← List.append_assoc common, ← List.append_assoc common]
    rw [Nat.add_assoc i, Nat.add_assoc j, ← List.length_append] at hok hrest
    exact .hunk (common ++ c) h hok hrest

theorem map {θ : Type} {before' after' : θ → List α}
    {ok' : Nat → Nat → θ → List α → List α → Prop} {f : η → θ}
    (hbefore : ∀ h, before' (f h) = before h) (hafter : ∀ h, after' (f h) = after h)
    (h : PatchesAt before after ok i j hs old new)
    (hok : ∀ h ∈ hs, ∀ i j old new, ok i j h old new → ok' i j (f h) old new) :
    PatchesAt before' after' ok' i j (hs.map f) old new := by
  induction h with
  | rest i j common => exact .rest i j common
  | hunk common h hhere _ ih =>
    obtain ⟨hfirst, hothers⟩ := List.forall_mem_cons.mp hok
    have hrest := ih hothers
    rw [← hbefore, ← hafter] at hrest ⊢
    exact .hunk common (f h) (hfirst _ _ _ _ hhere) hrest

end PatchesAt

/-! ## hunks of blocks at their place -/

/-- `bs` with `i` old and `j` new lines before it and `old` and `new` behind it: its blocks stand
where they say, it has a change at an end only if nothing stands beyond that end, and a block
between two others has lines -/
structure InPlace (i j : Nat) (bs : List (Block α)) (old new : List α) : Prop where
  placed : BlocksPlaced i j bs
  first : ∀ b ∈ bs.head?, b.isKeep ∨ i = 0 ∧ j = 0
  last : ∀ b ∈ bs.getLast?, b.isKeep ∨ old = [] ∧ new = []
  inner : ∀ b ∈ bs.tail.dropLast, b.marked ≠ []

namespace Block

theorem new_of_isKeep {b : Block α} (hb : b.isKeep) : b.new = b.old := by
  cases b with
  | keep i j ls => rfl
  | change i j removed added => cases hb

theorem length_lastLines_add {n : Nat} {b : Block α} (hb : b.isKeep) :
    b.old.length - n + (b.lastLines n).old.length = b.old.length := by
  cases b with
  | keep i j ls =>
    show ls.length - n + (ls.drop (ls.length - n)).length = ls.length
    rw [List.length_drop]
    omega
  | change i j removed added => cases hb

theorem length_middle {n : Nat} {b : Block α} {common : List α} (hb : b.isKeep)
    (hold : b.old = (b.firstLines n).old ++ (common ++ (b.lastLines n).old)) :
    (b.firstLines n).old.length + common.length = b.old.length - n := by
  have hlength := congrArg List.length hold
  have hlast := length_lastLines_add (n := n) hb
  rw [List.length_append, List.length_append] at hlength
  omega

theorem StandsAt.firstLines {b : Block α} {i j : Nat} (h : b.StandsAt i j) (n : Nat) :
    (b.firstLines n).StandsAt i j := by
  cases b with
  | keep i' j' ls => exact ⟨fun _ => h.old (.inl rfl), fun _ => h.new (.inl rfl)⟩
  | change i' j' removed added => exact h

theorem StandsAt.lastLines {b : Block α} {i j : Nat} (h : b.StandsAt i j) (hb : b.isKeep) (n : Nat) :
    (b.lastLines n).StandsAt (i + (b.old.length - n)) (j + (b.old.length - n)) := by
  cases b with
  | keep i' j' ls =>
    have hi : i' = i := h.old (.inl rfl)
    have hj : j' = j := h.new (.inl rfl)
    rw [← hi, ← hj]
    exact ⟨fun _ => rfl, fun _ => rfl⟩
  | change i' j' removed added => cases hb

end Block

section
variable {i j : Nat} {front back : List (Block α)} {b : Block α} {old new : List α}

theorem InPlace.cutLast (h : InPlace i j (front ++ b :: back) old new) (n : Nat)
    {old' new' : List α} (hlast : b.isKeep ∨ old' = [] ∧ new' = []) :
    InPlace i j (front ++ [b.firstLines n]) old' new' where
  placed := by
    obtain ⟨hfront, hb, -⟩ := blocksPlaced_append.mp h.placed
    exact blocksPlaced_append.mpr ⟨hfront, hb.firstLines n, trivial⟩
  first := by
    intro c hc
    cases front with
    | nil =>
      obtain rfl : b.firstLines n = c := by simpa using hc
      rw [b.isKeep_firstLines]
      exact h.first b rfl
    | cons a front => exact h.first c hc
  last := by
    intro c hc
    obtain rfl : b.firstLines n = c := by simpa using hc
    rwa [b.isKeep_firstLines]
  inner := by
    intro c hc
    cases front with
    | nil => cases hc
    | cons a front =>
      apply h.inner
      have hc' : c ∈ front := by simpa using hc
      simp only [List.cons_append, List.tail_cons, List.dropLast_append_cons]
      exact List.mem_append_left _ hc'

theorem InPlace.cutFirst (h : InPlace i j (front ++ b :: back) old new) (hb : b.isKeep) (n : Nat) :
    InPlace (i + (blocksOld front).length + (b.old.length - n))
      (j + (blocksNew front).length + (b.old.length - n)) (b.lastLines n :: back) old new where
  placed := by
    obtain ⟨-, hstands, hback⟩ := blocksPlaced_append.mp h.placed
    refine ⟨hstands.lastLines hb n, ?_⟩
    rw [Block.new_of_isKeep hb] at hback
    rw [Block.new_of_isKeep ((b.isKeep_lastLines n).trans hb), Nat.add_assoc (i + _),
      Nat.add_assoc (j + _), Block.length_lastLines_add hb]
    exact hback
  first := by
    intro c hc
    obtain rfl : b.lastLines n = c := by simpa using hc
    rw [b.isKeep_lastLines]
    exact .inl hb
  last := by
    intro c hc
    cases back with
    | nil =>
      obtain rfl : b.lastLines n = c := by simpa using hc
      rw [b.isKeep_lastLines]
      exact .inl hb
    | cons a back =>
      apply h.last
      rw [List.getLast?_append_cons]
      exact hc
  inner := by
    intro c hc
    apply h.inner
    cases back with
    | nil => cases hc
    | cons a back =>
      cases front with
      | nil => exact hc
      | cons f front =>
        simp only [List.cons_append, List.tail_cons, List.dropLast_append_cons,
          List.dropLast_cons_cons]
        exact List.mem_append_right _ (List.mem_cons_of_mem b hc)

end

theorem patchesAt_closeHunk {i j : Nat} {pending : List (Block α)} {tail : List α}
    (h : InPlace i j pending.reverse tail tail) :
    PatchesAt blocksOld blocksNew InPlace i j (closeHunk pending)
      (blocksOld pending.reverse ++ tail) (blocksNew pending.reverse ++ tail) := by
  fun_cases closeHunk pending with
  | case1 => exact .rest i j tail
  | case2 i' j' ls => exact .rest i j (ls ++ [] ++ tail)
  | case3 => exact .hunk [] pending.reverse h (.rest _ _ tail)

/-- cutting at long runs leaves hunks in their places; `tail` is what stands behind all blocks -/
theorem patchesAt_splitHunks (n : Nat) (pending bs : List (Block α)) {i j : Nat} {tail : List α}
    (h : InPlace i j (pending.reverse ++ bs) tail tail) :
    PatchesAt blocksOld blocksNew InPlace i j (splitHunks n pending bs)
      (blocksOld (pending.reverse ++ bs) ++ tail) (blocksNew (pending.reverse ++ bs) ++ tail) := by
  induction bs generalizing pending i j with
  | nil =>
    rw [List.append_nil] at h ⊢
    exact patchesAt_closeHunk h
  | cons b bs ih =>
    rw [splitHunks]
    by_cases hb : b.isKeep ∧ 2 * n < b.old.length
    · rw [if_pos hb]
      obtain ⟨common, hold, hnew⟩ := Block.exists_middle hb.1 hb.2
      have hlength := Block.length_middle hb.1 hold
      have hfirst := Block.new_of_isKeep ((b.isKeep_firstLines n).trans hb.1)
      have hi : i + (blocksOld pending.reverse).length + (b.old.length - n) =
          i + (blocksOld (b.firstLines n :: pending).reverse).length + common.length := by
        rw [List.reverse_cons, blocksOld_append, List.length_append, blocksOld_singleton]
        omega
      have hj : j + (blocksNew pending.reverse).length + (b.old.length - n) =
          j + (blocksNew (b.firstLines n :: pending).reverse).length + common.length := by
        rw [List.reverse_cons, blocksNew_append, List.length_append, blocksNew_singleton, hfirst]
        omega
      have hrest := ih [b.lastLines n] (h.cutFirst hb.1 n)
      rw [hi, hj] at hrest
      have hhunk (old new : List α) : InPlace i j (b.firstLines n :: pending).reverse old new := by
        rw [List.reverse_cons]
        exact h.cutLast n (.inl hb.1)
      have hpatches := PatchesAt.hunk [] _ (hhunk _ _) (hrest.prepend common)
      rw [blocksOld_append, blocksNew_append, blocksOld_cons, blocksNew_cons, hold, hnew]
      simpa [blocksOld, blocksNew] using hpatches
    · rw [if_neg hb]
      rw [List.append_cons, ← List.reverse_cons] at h ⊢
      exact ih (b :: pending) h

theorem InPlace.mapFirst {bs : List (Block α)} {old new : List α} (h : InPlace 0 0 bs old new)
    (n : Nat) : ∃ common, blocksOld bs = common ++ blocksOld (mapFirst (·.lastLines n) bs) ∧
      blocksNew bs = common ++ blocksNew (mapFirst (·.lastLines n) bs) ∧
      InPlace common.length common.length (mapFirst (·.lastLines n) bs) old new := by
  cases bs with
  | nil => exact ⟨[], rfl, rfl, h⟩
  | cons b bs =>
    cases hb : b.isKeep with
    | true =>
      obtain ⟨common, hold, hnew⟩ := b.exists_lastLines n
      have hlength : common.length = b.old.length - n := by
        have hlength := congrArg List.length hold
        have hlast := Block.length_lastLines_add (n := n) hb
        rw [List.length_append] at hlength
        omega
      have hcut : InPlace 0 0 ([] ++ b :: bs) old new := h
      have hcut : InPlace (0 + (b.old.length - n)) (0 + (b.old.length - n)) (b.lastLines n :: bs)
          old new := hcut.cutFirst hb n
      rw [Nat.zero_add, ← hlength] at hcut
      refine ⟨common, ?_, ?_, hcut⟩
      · rw [Diff.mapFirst, blocksOld_cons, blocksOld_cons, hold, List.append_assoc]
      · rw [Diff.mapFirst, blocksNew_cons, blocksNew_cons, hnew, List.append_assoc]
    | false =>
      cases b with
      | keep i j ls => cases hb
      | change i j removed added => exact ⟨[], rfl, rfl, h⟩

theorem InPlace.mapLast {i j : Nat} {bs : List (Block α)} (h : InPlace i j bs [] [])
    (n : Nat) : ∃ common, blocksOld bs = blocksOld (mapLast (·.firstLines n) bs) ++ common ∧
      blocksNew bs = blocksNew (mapLast (·.firstLines n) bs) ++ common ∧
      InPlace i j (mapLast (·.firstLines n) bs) common common := by
  rcases List.eq_nil_or_concat bs with rfl | ⟨front, b, rfl⟩
  · exact ⟨[], rfl, rfl, h⟩
  · rw [List.concat_eq_append] at h ⊢
    rw [mapLast_concat]
    cases hb : b.isKeep with
    | true =>
      obtain ⟨common, hold, hnew⟩ := b.exists_firstLines n
      refine ⟨common, ?_, ?_, h.cutLast n (.inl hb)⟩
      · rw [blocksOld_append, blocksOld_append, blocksOld_singleton, blocksOld_singleton, hold,
          List.append_assoc]
      · rw [blocksNew_append, blocksNew_append, blocksNew_singleton, blocksNew_singleton, hnew,
          List.append_assoc]
    | false =>
      cases b with
      | keep i j ls => cases hb
      | change i j removed added => exact ⟨[], (List.append_nil _).symm, (List.append_nil _).symm, h⟩

theorem patchesAt_hunks (n : Nat) {bs : List (Block α)} (h : InPlace 0 0 bs [] []) :
    PatchesAt blocksOld blocksNew InPlace 0 0 (hunks n bs) (blocksOld bs) (blocksNew bs) := by
  obtain ⟨front, hfrontOld, hfrontNew, hfront⟩ := h.mapFirst n
  obtain ⟨back, hbackOld, hbackNew, hback⟩ := hfront.mapLast n
  rw [hfrontOld, hfrontNew, hbackOld, hbackNew]
  apply PatchesAt.prepend
  rw [Nat.zero_add]
  exact patchesAt_splitHunks n [] _ hback

theorem patchesAt_hunksBetween [DecidableEq α] (n : Nat) (old new : List α) :
    PatchesAt blocksOld blocksNew InPlace 0 0 (hunksBetween n old new) old new := by
  have hplaced := placed_compact_script old new
  have h : InPlace 0 0 (blocks (compact (script old new))) [] [] := by
    refine ⟨blocksPlaced_blocks hplaced, fun _ _ => .inr ⟨rfl, rfl⟩, fun _ _ => .inr ⟨rfl, rfl⟩, ?_⟩
    intro b hb
    exact marked_ne_nil_of_mem_blocks hplaced b (List.mem_of_mem_tail (List.dropLast_subset _ hb))
  have hpatches := patchesAt_hunks n h
  rwa [blocksOld_blocks, blocksNew_blocks, (leads_compact_script old new).old,
    (leads_compact_script old new).new] at hpatches

/-! ## the ends of a hunk -/

/-- the lines before the first kept one -/
def opening (lines : List (Kind × α)) : List (Kind × α) := lines.takeWhile (·.1 ≠ .keep)

/-- the lines behind the last kept one, last line first -/
def closing (lines : List (Kind × α)) : List (Kind × α) := opening lines.reverse

/-- there are lines, all of one kind -/
def Only (kind : Kind) (lines : List (Kind × α)) : Prop := lines ≠ [] ∧ ∀ l ∈ lines, l.1 = kind

/-- nothing stands before a hunk that opens with lines of one kind only, or nothing stands behind a
hunk that closes with such lines -/
def AtEdge (kind : Kind) (i j : Nat) (lines : List (Kind × α)) (old new : List α) : Prop :=
  (i = 0 ∧ j = 0 ∧ Only kind (opening lines)) ∨ (old = [] ∧ new = [] ∧ Only kind (closing lines))

theorem opening_append {a rest : List (Kind × α)} (ha : ∀ l ∈ a, l.1 ≠ .keep)
    (hrest : ∀ l ∈ rest.head?, l.1 = .keep) : opening (a ++ rest) = a := by
  unfold opening
  rw [List.takeWhile_append_of_pos (by simpa using ha)]
  cases rest with
  | nil => simp
  | cons l rest =>
    have hl := hrest l rfl
    simp [hl]

/-- a hunk that begins with a change opens with the lines of that change -/
theorem opening_markedLines {b : Block α} {bs : List (Block α)} (h : Alternating (b :: bs))
    (hinner : ∀ c ∈ bs.dropLast, c.marked ≠ []) (hb : b.isKeep = false) :
    opening (markedLines (b :: bs)) = b.marked := by
  rw [markedLines_cons]
  apply opening_append (Block.ne_keep_of_mem_marked hb)
  cases bs with
  | nil => simp [markedLines]
  | cons c bs =>
    have halt : Alternating ([] ++ b :: c :: bs) := h
    have hc : c.isKeep := by simpa [hb] using halt.isKeep_ne
    intro l hl
    apply Block.eq_keep_of_mem_marked hc
    cases bs with
    | nil =>
      rw [markedLines_cons, markedLines, List.flatMap_nil, List.append_nil] at hl
      exact List.mem_of_mem_head? hl
    | cons d bs =>
      rw [markedLines_cons, List.head?_append_of_ne_nil _ (hinner c (by simp))] at hl
      exact List.mem_of_mem_head? hl

/-- a hunk that ends with a change closes with the lines of that change -/
theorem closing_markedLines {b : Block α} {front : List (Block α)} (h : Alternating (front ++ [b]))
    (hinner : ∀ c ∈ front.tail, c.marked ≠ []) (hb : b.isKeep = false) :
    closing (markedLines (front ++ [b])) = b.marked.reverse := by
  have hmarked : markedLines (front ++ [b]) = markedLines front ++ b.marked := by
    simp [markedLines]
  unfold closing
  rw [hmarked, List.reverse_append]
  apply opening_append (by simpa using Block.ne_keep_of_mem_marked hb)
  rcases List.eq_nil_or_concat front with rfl | ⟨front, c, rfl⟩
  · simp [markedLines]
  · rw [List.concat_eq_append] at h hinner ⊢
    rw [List.append_assoc] at h
    have hc : c.isKeep := by simpa [hb] using h.isKeep_ne
    intro l hl
    apply Block.eq_keep_of_mem_marked hc
    have hmarked : markedLines (front ++ [c]) = markedLines front ++ c.marked := by
      simp [markedLines]
    rw [hmarked, List.head?_reverse] at hl
    cases front with
    | nil => exact List.mem_of_mem_getLast? hl
    | cons d front =>
      rw [List.getLast?_append_of_ne_nil _ (hinner c (by simp))] at hl
      exact List.mem_of_mem_getLast? hl

/-- What the first and the last block say about one side, given by `start` and `side`: they are right
unless they are at an edge next to lines of the kind that this side does not have. -/
theorem InPlace.ends {start : Block α → Nat} {side : Block α → List α} {kind : Kind} {n i j k : Nat}
    {bs : List (Block α)} {old new : List α} (h : InPlace i j bs old new) (hhunk : IsHunk n bs)
    (hstands : ∀ front b back, bs = front ++ b :: back → b.isKeep ∨ side b ≠ [] →
      start b = k + (front.flatMap side).length)
    (hkind : ∀ b : Block α, b.isKeep = false → side b = [] → ∀ l ∈ b.marked, l.1 = kind) :
    ((bs.head?.map start).getD 0 = k ∧
      (bs.getLast?.map fun b => start b + (side b).length).getD 0 = k + (bs.flatMap side).length) ∨
    AtEdge kind i j (markedLines bs) old new := by
  rw [or_iff_not_imp_right]
  intro hedge
  obtain ⟨c, hc, -⟩ := hhunk.change
  constructor
  · cases bs with
    | nil => cases hc
    | cons b bs =>
      have hb : b.isKeep ∨ side b ≠ [] := by
        rcases h.first b rfl with hkeep | ⟨hi, hj⟩
        · exact .inl hkeep
        · cases hkeep : b.isKeep with
          | true => exact .inl rfl
          | false =>
            refine .inr fun hside => hedge (.inl ⟨hi, hj, ?_⟩)
            rw [opening_markedLines hhunk.toAlternating h.inner hkeep]
            exact ⟨(hhunk.solid b List.mem_cons_self).marked_ne_nil hkeep, hkind b hkeep hside⟩
      exact hstands [] b bs rfl hb
  · rcases List.eq_nil_or_concat bs with rfl | ⟨front, b, rfl⟩
    · cases hc
    · rw [List.concat_eq_append] at h hhunk hstands hedge ⊢
      have hb : b.isKeep ∨ side b ≠ [] := by
        rcases h.last b (by simp) with hkeep | ⟨hold, hnew⟩
        · exact .inl hkeep
        · cases hkeep : b.isKeep with
          | true => exact .inl rfl
          | false =>
            refine .inr fun hside => hedge (.inr ⟨hold, hnew, ?_⟩)
            have hinner : ∀ c ∈ front.tail, c.marked ≠ [] := by
              intro c hc
              apply h.inner
              cases front with
              | nil => cases hc
              | cons a front => simpa using hc
            rw [closing_markedLines hhunk.toAlternating hinner hkeep]
            have hne := (hhunk.solid b (by simp)).marked_ne_nil hkeep
            exact ⟨by simpa using hne, by simpa using hkind b hkeep hside⟩
      have hlast := hstands front b [] rfl hb
      simp only [List.getLast?_concat, Option.map_some, Option.getD_some, hlast, List.flatMap_append,
        List.flatMap_singleton, List.length_append, Nat.add_assoc]

/-! ## printed headers -/

/-- a range of `count` lines behind `before` others as a header ought to print it -/
def placeText (before count : Nat) : List Char :=
  match count with
  | 0 => before.repr.toList ++ ",0".toList
  | 1 => (before + 1).repr.toList
  | _ => (before + 1).repr.toList ++ ',' :: count.repr.toList

theorem rangeText_eq_placeText (before count : Nat) :
    rangeText before (before + count) = placeText before count := by
  unfold rangeText
  rw [Nat.add_sub_cancel_left]
  match count with
  | 0 => rfl
  | 1 => rfl
  | count + 2 => rfl

namespace Hunk

/-- the header says where the old lines of the hunk stand, behind `i` others, and how many they are -/
def OldRight (h : Hunk) (i : Nat) : Prop := rangeText h.oldFrom h.oldTo = placeText i h.old.length

/-- the header says where the new lines of the hunk stand, behind `j` others, and how many they are -/
def NewRight (h : Hunk) (j : Nat) : Prop := rangeText h.newFrom h.newTo = placeText j h.new.length

theorem old_ofBlocks (bs : List (Block (List Char))) : (ofBlocks bs).old = blocksOld bs :=
  oldLines_markedLines bs

theorem new_ofBlocks (bs : List (Block (List Char))) : (ofBlocks bs).new = blocksNew bs :=
  newLines_markedLines bs

end Hunk

def HeaderRight (i j : Nat) (h : Hunk) (_old _new : List (List Char)) : Prop :=
  h.OldRight i ∧ h.NewRight j

/-- the header of a hunk is right on each side, except perhaps at an edge next to lines that this
side does not have -/
structure HeaderRightInside (i j : Nat) (h : Hunk) (old new : List (List Char)) : Prop where
  onOld : h.OldRight i ∨ AtEdge .add i j h.lines old new
  onNew : h.NewRight j ∨ AtEdge .remove i j h.lines old new

theorem InPlace.header {n i j : Nat} {bs : List (Block (List Char))} {old new : List (List Char)}
    (h : InPlace i j bs old new) (hhunk : IsHunk n bs) :
    HeaderRightInside i j (.ofBlocks bs) old new where
  onOld := by
    have hstands : ∀ front b back, bs = front ++ b :: back → b.isKeep ∨ b.old ≠ [] →
        b.oldAt = i + (blocksOld front).length := by
      rintro front b back rfl hb
      exact (blocksPlaced_append.mp h.placed).2.1.old hb
    have hkind : ∀ b : Block (List Char), b.isKeep = false → b.old = [] →
        ∀ l ∈ b.marked, l.1 = .add := by
      intro b hkeep hside
      cases b with
      | keep i j ls => cases hkeep
      | change i j removed added =>
        obtain rfl : removed = [] := hside
        simp [Block.marked]
    refine (h.ends hhunk hstands hkind).imp_left ?_
    rintro ⟨hfrom, hto⟩
    unfold Hunk.OldRight
    rw [Hunk.old_ofBlocks, ← rangeText_eq_placeText]
    exact congrArg₂ rangeText hfrom hto
  onNew := by
    have hstands : ∀ front b back, bs = front ++ b :: back → b.isKeep ∨ b.new ≠ [] →
        b.newAt = j + (blocksNew front).length := by
      rintro front b back rfl hb
      exact (blocksPlaced_append.mp h.placed).2.1.new hb
    have hkind : ∀ b : Block (List Char), b.isKeep = false → b.new = [] →
        ∀ l ∈ b.marked, l.1 = .remove := by
      intro b hkeep hside
      cases b with
      | keep i j ls => cases hkeep
      | change i j removed added =>
        obtain rfl : added = [] := hside
        simp [Block.marked]
    refine (h.ends hhunk hstands hkind).imp_left ?_
    rintro ⟨hfrom, hto⟩
    unfold Hunk.NewRight
    rw [Hunk.new_ofBlocks, ← rangeText_eq_placeText]
    exact congrArg₂ rangeText hfrom hto

def printedHunks (old new : String) (context : Nat) : List Hunk :=
  (hunksBetween context (textLines old) (textLines new)).map .ofBlocks

theorem unified_eq (old new oldLabel newLabel : String) (context : Nat) :
    unified old new oldLabel newLabel context = if old = new then "" else
      fileHeaders oldLabel newLabel ++
        String.ofList ((printedHunks old new context).flatMap Hunk.text) := by
  by_cases hsame : old = new
  · rw [if_pos hsame, hsame]
    unfold unified rows
    rw [hunksBetween_self]
    rfl
  · rw [if_neg hsame]
    exact unified_eq_of_ne_nil (hunksBetween_ne_nil hsame context) oldLabel newLabel

/-- **Hunk headers are right inside the texts.**  What is printed are hunks that turn one list of
lines into the other.  The header of each one says where its old and its new lines stand and how
many they are; only if nothing stands before the hunk, or nothing behind it, the range of the old
lines may be wrong next to lines that are only added, and that of the new lines next to lines that
are only removed. -/
theorem unified_headers (old new oldLabel newLabel : String) (context : Nat) :
    (unified old new oldLabel newLabel context = if old = new then "" else
      fileHeaders oldLabel newLabel ++
        String.ofList ((printedHunks old new context).flatMap Hunk.text)) ∧
    PatchesAt Hunk.old Hunk.new HeaderRightInside 0 0 (printedHunks old new context)
      (textLines old) (textLines new) := by
  refine ⟨unified_eq old new oldLabel newLabel context, ?_⟩
  have hpatches := patchesAt_hunksBetween context (textLines old) (textLines new)
  refine hpatches.map Hunk.old_ofBlocks Hunk.new_ofBlocks ?_
  intro bs hbs i j old new hplace
  exact hplace.header (isHunk_of_mem_hunksBetween context _ _ bs hbs)

/-- a header that is wrong: the hunk is all of both texts, so its three new lines are lines 1 to 3,
but the removal at its front has once stood behind the added line -/
theorem header_wrong :
    unified "# note\n\nx = 1\n" "\n\nx = 1\n" "old" "new" 3 =
      "--- old\n+++ new\n@@ -1,3 +2,2 @@\n-# note\n \n+\n x = 1\n" ∧
    ¬PatchesAt Hunk.old Hunk.new HeaderRight 0 0
      (printedHunks "# note\n\nx = 1\n" "\n\nx = 1\n" 3)
      (textLines "# note\n\nx = 1\n") (textLines "\n\nx = 1\n") := by
  -- the removal says that one new line stands before it, and now none does
  have hbetween : hunksBetween 3 (textLines "# note\n\nx = 1\n") (textLines "\n\nx = 1\n") =
      [[.change 0 1 ["# note\n".toList] [], .keep 1 0 [['\n']], .change 1 1 [] [['\n']],
        .keep 2 2 ["x = 1\n".toList]]] := by cbv
  have hhunks : (printedHunks "# note\n\nx = 1\n" "\n\nx = 1\n" 3).map
      (fun h => (h.newFrom, h.newTo, h.new.length)) = [(1, 3, 3)] := by
    unfold printedHunks
    rw [hbetween]
    decide +kernel
  refine ⟨?_, ?_⟩
  · unfold unified rows
    rw [hbetween]
    decide +kernel
  · have hlength : (textLines "\n\nx = 1\n").length = 3 := by decide +kernel
    intro h
    generalize printedHunks _ _ _ = hs at h hhunks
    generalize textLines "# note\n\nx = 1\n" = old at h
    generalize textLines "\n\nx = 1\n" = new at h hlength
    cases h with
    | rest => cases hhunks
    | hunk common h hright =>
      simp only [List.map_cons, List.cons.injEq, Prod.mk.injEq] at hhunks
      obtain ⟨⟨hfrom, hto, hcount⟩, -⟩ := hhunks
      rw [List.length_append, List.length_append] at hlength
      -- all new lines are in the hunk, so that there is none before it
      have hcommon : common.length = 0 := by omega
      have hnew := hright.2
      rw [Hunk.NewRight, hfrom, hto, hcount, hcommon] at hnew
      exact absurd hnew (by decide)

end CommentFree.Diff
