import CommentFree.Proofs.Reading

/-!
# Stripping keeps the literals

A scanner that knows no comments copies every byte and only follows the quotes.  Beside a scanner of
the source, let it read what that one copies.  Whenever a byte is copied, both are in the same mode,
and a step that copies nothing begins or ends a comment, or stays in one, which the second scanner
takes for code (`Scanner.beside_move`).  So the second scanner meets the literals of the first.
-/

namespace CommentFree

/-- whether a string is open, whether a character literal is, and whether the next byte of it is
escaped -/
def Mode.literalState : Mode → Bool × Bool × Bool
  | .literal .double e => (true, false, e)
  | .literal .single e => (false, true, e)
  | _ => (false, false, false)

/-- the mode of a scanner that takes comments for code -/
def Mode.withoutComment : Mode → Mode
  | .comment => .code
  | m => m

theorem Mode.literalState_withoutComment (m : Mode) : m.withoutComment.literalState = m.literalState := by
  cases m with
  | code => rfl
  | comment => rfl
  | literal q e => rfl

namespace Scanner

/-! ## without delimiters -/

theorem step_empty (s : Scanner) (b : UInt8) (bs : List UInt8) :
    step .empty s b bs = ((step .empty s b []).1, bs) := by
  unfold step
  cases s.mode with
  | code => rfl
  | comment => rfl
  | literal q e => rfl

theorem step_empty_copies {s : Scanner} (hm : s.mode ≠ .comment) (b : UInt8) :
    (step .empty s b []).1 = ⟨modeAfter b s.mode, s.removed, b :: s.kept⟩ := by
  unfold step
  cases h : s.mode with
  | code => rfl
  | comment => exact absurd h hm
  | literal q e => rfl

/-- one byte more -/
theorem watch_empty_concat {s s' : Scanner} {seen seen' : List (List UInt8)} {bytes : List UInt8}
    (h : watch .empty s seen bytes = (s', seen')) (hm : s'.mode ≠ .comment) (b : UInt8) :
    watch .empty s seen (bytes ++ [b]) =
      (⟨modeAfter b s'.mode, s'.removed, b :: s'.kept⟩,
        note b s'.mode (modeAfter b s'.mode) seen') := by
  induction bytes generalizing s seen with
  | nil =>
    rw [watch_nil] at h
    obtain ⟨rfl, rfl⟩ := Prod.mk.inj h
    rw [List.nil_append, watch_cons, step_empty, watch_nil, step_empty_copies hm]
  | cons c bytes ih =>
    rw [watch_cons, step_empty] at h
    rw [List.cons_append, watch_cons, step_empty]
    exact ih h

/-! ## beside a scanner of the source -/

/-- the scanner without delimiters, on what was copied so far, is where the scanner is -/
def Beside (s : Scanner) (seen : List (List UInt8)) : Prop :=
  watch .empty .start [] s.output = (⟨s.mode.withoutComment, 0, s.kept⟩, seen)

theorem beside_push {s : Scanner} {seen : List (List UInt8)} (h : s.Beside seen)
    (hm : s.mode ≠ .comment) (b : UInt8) (n : Nat) :
    Beside ⟨modeAfter b s.mode, n, b :: s.kept⟩ (note b s.mode (modeAfter b s.mode) seen) := by
  have hsame : ∀ {m : Mode}, m ≠ .comment → m.withoutComment = m := by
    intro m hm
    cases m with
    | code => rfl
    | comment => exact absurd rfl hm
    | literal q e => rfl
  unfold Beside at h ⊢
  rw [hsame hm] at h
  rw [output_push, hsame (modeAfter_ne_comment b hm)]
  exact watch_empty_concat h hm b

theorem beside_still {s : Scanner} {seen : List (List UInt8)} (h : s.Beside seen) {m : Mode}
    (hm : m.withoutComment = s.mode.withoutComment) (n : Nat) : Beside ⟨m, n, s.kept⟩ seen := by
  unfold Beside at h ⊢
  rw [hm]
  exact h

theorem beside_move {d : Delimiters} {s s' : Scanner} {seen : List (List UInt8)} {b : UInt8}
    {bs rest : List UInt8} (hmove : Moves d s (b :: bs) s' rest) (h : s.Beside seen) :
    s'.Beside (note b s.mode s'.mode seen) := by
  cases hmove with
  | openBlock hm hne hin =>
    rw [hm]
    exact beside_still h (by rw [hm]; rfl) _
  | line hm hb hl hnl hin =>
    -- the newline is copied in code mode and is no quote
    have hpush := beside_push h (by simp [hm]) newline (s.removed + 1)
    rw [hm] at hpush ⊢
    exact hpush
  | lastLine hm hb hl hnl =>
    rw [hm]
    exact beside_still h (by rw [hm]) _
  | copy hm hb hl hin =>
    obtain ⟨rfl, rfl⟩ := List.cons.inj hin
    have hpush := beside_push h (by simp [hm]) b s.removed
    rw [hm] at hpush ⊢
    exact hpush
  | closeBlock hm hne hin =>
    rw [hm]
    exact beside_still h (by rw [hm]; rfl) _
  | skip hm he hin =>
    rw [hm]
    exact h
  | copyLiteral hm hin =>
    obtain ⟨rfl, rfl⟩ := List.cons.inj hin
    have hpush := beside_push h (by simp [hm]) b s.removed
    rw [hm] at hpush ⊢
    exact hpush

theorem beside_watch (d : Delimiters) (source : List UInt8) :
    Beside (run d .start source) (watch d .start [] source).2 := by
  have hstart : Beside .start [] := watch_nil .empty .start []
  rw [← watch_fst d .start []]
  exact watch_invariant (P := fun s seen _ => s.Beside seen)
    (fun _ _ _ _ _ _ hmove h => beside_move hmove h) .start [] source hstart

end Scanner

theorem literals_eq_filterMap {d : Delimiters} {source : List UInt8} {ts : List Token}
    (h : Splits d source ts) : Scanner.literals d source = ts.filterMap Token.literal? := by
  obtain ⟨m, hm⟩ := h.watch_eq 0 [] []
  have hseen : (Scanner.watch d .start [] source).2 =
      ((ts.filterMap Token.literal?).map List.reverse).reverse := by
    rw [← List.append_nil (List.reverse _)]
    exact congrArg Prod.snd hm
  unfold Scanner.literals
  rw [hseen, List.map_reverse, List.reverse_reverse, List.map_map]
  have hid : (List.reverse ∘ List.reverse : List UInt8 → List UInt8) = id :=
    funext List.reverse_reverse
  rw [hid, List.map_id]

/-- **Stripping keeps the literals.**  Scanning the stripped text without delimiters meets the
literals that scanning the source met, which are those among its tokens, and ends in the same
literal or in none. -/
theorem strip_keeps_literals (source : String) (l : Language) :
    Scanner.literals .empty (Utf8.ofString (strip source l).text) =
      Scanner.literals l.delimiters (Utf8.ofString source) ∧
    (Scanner.run .empty .start (Utf8.ofString (strip source l).text)).mode.literalState =
      (scan source l).mode.literalState ∧
    ∃ ts, Splits l.delimiters (Utf8.ofString source) ts ∧
      Scanner.literals l.delimiters (Utf8.ofString source) = ts.filterMap Token.literal? := by
  have hbeside : Scanner.watch .empty .start [] (scan source l).output = _ :=
    Scanner.beside_watch l.delimiters (Utf8.ofString source)
  obtain ⟨ts, hts⟩ := exists_splits l.delimiters (Utf8.ofString source)
  refine ⟨?_, ?_, ts, hts, literals_eq_filterMap hts⟩
  · unfold Scanner.literals
    rw [ofString_strip_text, hbeside]
  · rw [ofString_strip_text, ← Scanner.watch_fst .empty .start [], hbeside]
    exact Mode.literalState_withoutComment _

end CommentFree
