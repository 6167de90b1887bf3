import CommentFree.Scan
import Mathlib.Data.List.TakeWhile

/-!
# What a step of the scanner can do

`Moves` lists the steps of the scanner, one constructor for each, with the bytes that a step takes
written out in front of the rest.  Everything about a run follows from it:

* `step_moves`       `step` does one of the moves, and `Moves.step_eq` that it does the one that is
                     possible;
* `run_invariant`    what every move keeps holds at the end of a run;
* `watch`            a run that also notes the literals it passes, by the modes before and after
                     each step; `watch_fst` says that it is the same run, and `watch_invariant` is
                     the rule for what moves and notes keep together.
-/

namespace CommentFree

/-! ## delimiters -/

theorem Delimiters.opens_iff {delimiter input : List UInt8} :
    Delimiters.opens delimiter input = true ↔ delimiter ≠ [] ∧ ∃ rest, input = delimiter ++ rest := by
  unfold Delimiters.opens
  rw [Bool.and_eq_true, List.isPrefixOf_iff_prefix, Bool.not_eq_true', List.isEmpty_eq_false_iff]
  exact and_congr_right fun _ =>
    ⟨fun ⟨rest, h⟩ => ⟨rest, h.symm⟩, fun ⟨rest, h⟩ => ⟨rest, h.symm⟩⟩

theorem Delimiters.opens_eq_false {delimiter input : List UInt8}
    (h : delimiter = [] ∨ ¬ delimiter <+: input) : Delimiters.opens delimiter input = false := by
  rw [Bool.eq_false_iff, Ne, Delimiters.opens_iff]
  rintro ⟨hne, rest, hin⟩
  rcases h with h | h
  · exact hne h
  · exact h ⟨rest, hin.symm⟩

theorem Delimiters.opens_append {delimiter : List UInt8} (h : delimiter ≠ []) (rest : List UInt8) :
    Delimiters.opens delimiter (delimiter ++ rest) = true :=
  Delimiters.opens_iff.mpr ⟨h, rest, rfl⟩

def Delimiters.empty : Delimiters := ⟨[], [], []⟩

namespace Scanner

/-! ## moves -/

/-- the steps of the scanner in the state `s` before `input`: the new state and the bytes left -/
inductive Moves (d : Delimiters) (s : Scanner) (input : List UInt8) :
    Scanner → List UInt8 → Prop
  | openBlock {rest : List UInt8} (hm : s.mode = .code) (hne : d.blockStart ≠ [])
      (hin : input = d.blockStart ++ rest) :
      Moves d s input ⟨.comment, s.removed + 1, s.kept⟩ rest
  | line {text rest : List UInt8} (hm : s.mode = .code)
      (hb : Delimiters.opens d.blockStart input = false)
      (hl : Delimiters.opens d.lineMark input = true) (hnl : newline ∉ text)
      (hin : input = text ++ newline :: rest) :
      Moves d s input ⟨.code, s.removed + 1, newline :: s.kept⟩ rest
  | lastLine (hm : s.mode = .code) (hb : Delimiters.opens d.blockStart input = false)
      (hl : Delimiters.opens d.lineMark input = true) (hnl : newline ∉ input) :
      Moves d s input ⟨.code, s.removed + 1, s.kept⟩ []
  | copy {b : UInt8} {rest : List UInt8} (hm : s.mode = .code)
      (hb : Delimiters.opens d.blockStart input = false)
      (hl : Delimiters.opens d.lineMark input = false) (hin : input = b :: rest) :
      Moves d s input ⟨modeAfter b .code, s.removed, b :: s.kept⟩ rest
  | closeBlock {rest : List UInt8} (hm : s.mode = .comment) (hne : d.blockEnd ≠ [])
      (hin : input = d.blockEnd ++ rest) :
      Moves d s input ⟨.code, s.removed, s.kept⟩ rest
  | skip {b : UInt8} {rest : List UInt8} (hm : s.mode = .comment)
      (he : Delimiters.opens d.blockEnd input = false) (hin : input = b :: rest) :
      Moves d s input s rest
  | copyLiteral {q : Quote} {e : Bool} {b : UInt8} {rest : List UInt8}
      (hm : s.mode = .literal q e) (hin : input = b :: rest) :
      Moves d s input ⟨modeAfter b (.literal q e), s.removed, b :: s.kept⟩ rest

theorem dropWhile_line {text rest : List UInt8} (hnl : newline ∉ text) :
    (text ++ newline :: rest).dropWhile (· ≠ newline) = newline :: rest := by
  have hall : ∀ x ∈ text, decide (x ≠ newline) = true := by
    intro x hx
    exact decide_eq_true (fun e => hnl (e ▸ hx))
  rw [List.dropWhile_append_of_pos hall, List.dropWhile_cons, if_neg (by simp)]

theorem dropWhile_lastLine {input : List UInt8} (hnl : newline ∉ input) :
    input.dropWhile (· ≠ newline) = [] := by
  rw [List.dropWhile_eq_nil_iff]
  intro x hx
  exact decide_eq_true (fun e => hnl (e ▸ hx))

/-- **A step is one of the moves.** -/
theorem step_moves (d : Delimiters) (s : Scanner) (b : UInt8) (bs : List UInt8) :
    Moves d s (b :: bs) (step d s b bs).1 (step d s b bs).2 := by
  unfold step
  split
  · next hm =>
    by_cases hb : Delimiters.opens d.blockStart (b :: bs) = true
    · obtain ⟨hne, rest, hrest⟩ := Delimiters.opens_iff.mp hb
      rw [if_pos hb, hrest, List.drop_left]
      exact .openBlock hm hne rfl
    · rw [if_neg hb]
      have hb := Bool.eq_false_iff.mpr hb
      by_cases hl : Delimiters.opens d.lineMark (b :: bs) = true
      · rw [if_pos hl]
        by_cases hnl : newline ∈ b :: bs
        · obtain ⟨text, rest, hin, hnl⟩ := List.eq_append_cons_of_mem hnl
          have hdrop : (b :: bs).dropWhile (· ≠ newline) = newline :: rest := by
            rw [hin, dropWhile_line hnl]
          rw [hdrop]
          exact .line hm hb hl hnl hin
        · rw [dropWhile_lastLine hnl]
          exact .lastLine hm hb hl hnl
      · rw [if_neg hl]
        exact .copy hm hb (Bool.eq_false_iff.mpr hl) rfl
  · next hm =>
    by_cases he : Delimiters.opens d.blockEnd (b :: bs) = true
    · obtain ⟨hne, rest, hrest⟩ := Delimiters.opens_iff.mp he
      rw [if_pos he, hrest, List.drop_left]
      exact .closeBlock hm hne rfl
    · rw [if_neg he]
      exact .skip hm (Bool.eq_false_iff.mpr he) rfl
  · next q e hm => exact .copyLiteral hm rfl

theorem Moves.exists_cons {d : Delimiters} {s s' : Scanner} {input rest : List UInt8}
    (h : Moves d s input s' rest) : ∃ b bs, input = b :: bs := by
  apply List.exists_cons_of_ne_nil
  rintro rfl
  cases h with
  | openBlock hm hne hin => exact hne (List.append_eq_nil_iff.mp hin.symm).1
  | line hm hb hl hnl hin => simp at hin
  | lastLine hm hb hl hnl =>
    obtain ⟨hne, rest, hin⟩ := Delimiters.opens_iff.mp hl
    exact hne (List.append_eq_nil_iff.mp hin.symm).1
  | copy hm hb hl hin => exact nomatch hin
  | closeBlock hm hne hin => exact hne (List.append_eq_nil_iff.mp hin.symm).1
  | skip hm he hin => exact nomatch hin
  | copyLiteral hm hin => exact nomatch hin

theorem Moves.step_eq {d : Delimiters} {s s' : Scanner} {b : UInt8} {bs rest : List UInt8}
    (h : Moves d s (b :: bs) s' rest) : step d s b bs = (s', rest) := by
  unfold step
  cases h with
  | openBlock hm hne hin =>
    rw [hm, hin]
    show (if _ then _ else _) = _
    rw [if_pos (Delimiters.opens_append hne rest), List.drop_left]
  | @line text rest hm hb hl hnl hin =>
    rw [hm]
    show (if _ then _ else if _ then _ else _) = _
    rw [hb, if_neg Bool.false_ne_true, if_pos hl]
    rw [hin, dropWhile_line hnl]
  | lastLine hm hb hl hnl =>
    rw [hm]
    show (if _ then _ else if _ then _ else _) = _
    rw [hb, if_neg Bool.false_ne_true, if_pos hl]
    rw [dropWhile_lastLine hnl]
  | copy hm hb hl hin =>
    obtain ⟨rfl, rfl⟩ := List.cons.inj hin
    rw [hm]
    show (if _ then _ else if _ then _ else _) = _
    rw [hb, hl, if_neg Bool.false_ne_true, if_neg Bool.false_ne_true]
  | closeBlock hm hne hin =>
    rw [hm, hin]
    show (if _ then _ else _) = _
    rw [if_pos (Delimiters.opens_append hne rest), List.drop_left]
  | skip hm he hin =>
    obtain ⟨rfl, rfl⟩ := List.cons.inj hin
    rw [hm]
    show (if _ then _ else _) = _
    rw [he, if_neg Bool.false_ne_true]
  | copyLiteral hm hin =>
    obtain ⟨rfl, rfl⟩ := List.cons.inj hin
    rw [hm]

theorem run_nil (d : Delimiters) (s : Scanner) : run d s [] = s := by rw [run]

theorem run_cons (d : Delimiters) (s : Scanner) (b : UInt8) (bs : List UInt8) :
    run d s (b :: bs) = run d (step d s b bs).1 (step d s b bs).2 := by rw [run]

/-! ## the literals of a run -/

/-- the literals seen after the byte `b`, at which the scanner went from one mode to another; the
last literal stands first, and its last byte first in it -/
def note (b : UInt8) : Mode → Mode → List (List UInt8) → List (List UInt8)
  | .code, .literal _ _, seen => [b] :: seen
  | .literal _ _, _, l :: seen => (b :: l) :: seen
  | _, _, seen => seen

/-- scans all bytes and notes the literals -/
def watch (d : Delimiters) (s : Scanner) (seen : List (List UInt8)) :
    List UInt8 → Scanner × List (List UInt8)
  | [] => (s, seen)
  | b :: bs =>
    watch d (step d s b bs).1 (note b s.mode (step d s b bs).1.mode seen) (step d s b bs).2
termination_by bytes => bytes.length
decreasing_by exact step_length d s b bs

/-- the literals that the scanner meets in a source, in order -/
def literals (d : Delimiters) (source : List UInt8) : List (List UInt8) :=
  ((watch d .start [] source).2.map List.reverse).reverse

theorem watch_nil (d : Delimiters) (s : Scanner) (seen : List (List UInt8)) :
    watch d s seen [] = (s, seen) := by rw [watch]

theorem watch_cons (d : Delimiters) (s : Scanner) (seen : List (List UInt8)) (b : UInt8)
    (bs : List UInt8) :
    watch d s seen (b :: bs) =
      watch d (step d s b bs).1 (note b s.mode (step d s b bs).1.mode seen) (step d s b bs).2 := by
  rw [watch]

theorem Moves.watch_eq {d : Delimiters} {s s' : Scanner} {b : UInt8} {bs rest : List UInt8}
    (h : Moves d s (b :: bs) s' rest) (seen : List (List UInt8)) :
    watch d s seen (b :: bs) = watch d s' (note b s.mode s'.mode seen) rest := by
  rw [watch_cons, h.step_eq]

/-- a move from code to code, or to or from a comment, passes no literal -/
theorem Moves.watch_eq_of_comment {d : Delimiters} {s s' : Scanner} {input rest : List UInt8}
    (h : Moves d s input s' rest) (hm : s.mode = .code ∨ s.mode = .comment)
    (hm' : s'.mode = .code ∨ s'.mode = .comment) (seen : List (List UInt8)) :
    watch d s seen input = watch d s' seen rest := by
  obtain ⟨b, bs, rfl⟩ := h.exists_cons
  rw [h.watch_eq]
  congr 1
  rcases hm with hm | hm <;> rcases hm' with hm' | hm' <;> rw [hm, hm'] <;> rfl

/-- watching does not change the run -/
theorem watch_fst (d : Delimiters) (s : Scanner) (seen : List (List UInt8)) (bytes : List UInt8) :
    (watch d s seen bytes).1 = run d s bytes := by
  fun_induction watch d s seen bytes with
  | case1 s seen => rw [run_nil]
  | case2 s seen b bs ih => rw [ih, run_cons]

/-! ## invariants -/

/-- what all moves with their notes keep holds at the end -/
theorem watch_invariant {d : Delimiters}
    {P : Scanner → List (List UInt8) → List UInt8 → Prop}
    (hP : ∀ s seen b bs s' rest, Moves d s (b :: bs) s' rest → P s seen (b :: bs) →
      P s' (note b s.mode s'.mode seen) rest)
    (s : Scanner) (seen : List (List UInt8)) (bytes : List UInt8) (h : P s seen bytes) :
    P (watch d s seen bytes).1 (watch d s seen bytes).2 [] := by
  fun_induction watch d s seen bytes with
  | case1 s seen => exact h
  | case2 s seen b bs ih => exact ih (hP s seen b bs _ _ (step_moves d s b bs) h)

/-- what all moves keep holds at the end -/
theorem run_invariant {d : Delimiters} {P : Scanner → List UInt8 → Prop}
    (hP : ∀ s input s' rest, Moves d s input s' rest → P s input → P s' rest)
    (s : Scanner) (bytes : List UInt8) (h : P s bytes) : P (run d s bytes) [] := by
  rw [← watch_fst d s []]
  exact watch_invariant (P := fun s _ rest => P s rest)
    (fun s _ b bs s' rest hm h => hP s (b :: bs) s' rest hm h) s [] bytes h

end Scanner

end CommentFree
