import CommentFree.Diff.Color

/-!
# Colours are all that a coloured text has more

A text is painted line by line: between two newlines stands what stood there before, with a style
switched on in front of it and off behind it, or nothing (`splitOn_paintAll`).  So a painted text
has as many lines, no style reaches over a newline, and without its escape sequences it is the text
again (`withoutEscapes_paintAll`).

Lines are cut off one at a time, at the first newline, until there is none left
(`Lines.feed_induction`); the two steps of that are

* `Lines.cut_feed`, `Lines.cut_last`   for cutting into lines;
* `paintFrom_feed`, `paintFrom_last`   for painting them.
-/

namespace CommentFree

/-! ## lines that end with `\n` only -/

namespace Lines

/-- a text has one line without a newline, or such a line, a newline and a text -/
@[elab_as_elim]
theorem feed_induction {motive : List Char → Prop} (last : ∀ line, '\n' ∉ line → motive line)
    (feed : ∀ line rest, '\n' ∉ line → motive rest → motive (line ++ '\n' :: rest))
    (text : List Char) : motive text := by
  by_cases h : '\n' ∈ text
  · obtain ⟨line, rest, htext, hline⟩ := List.eq_append_cons_of_mem h
    have hrest := feed_induction last feed rest
    rw [htext]
    exact feed line rest hline hrest
  · exact last text h
termination_by text.length
decreasing_by simp [htext]; omega

theorem cutOnto_done (ends : Char → List Char → Bool) (done : List (List Char))
    (current text : List Char) :
    cutOnto ends done current text = done.reverse ++ cutOnto ends [] current text := by
  induction text generalizing done current with
  | nil =>
    rw [cutOnto, cutOnto]
    by_cases h : current = []
    · simp [h]
    · simp [h]
  | cons c rest ih =>
    rw [cutOnto, cutOnto]
    by_cases h : ends c rest = true
    · rw [if_pos h, if_pos h, ih, ih [_]]
      simp
    · rw [if_neg h, if_neg h, ih]

section
variable {line : List Char} (h : '\n' ∉ line)
include h

theorem cutOnto_endsFeed (done : List (List Char)) (current rest : List Char) :
    cutOnto endsFeed done current (line ++ rest) =
      cutOnto endsFeed done (line.reverse ++ current) rest := by
  induction line generalizing current with
  | nil => rfl
  | cons c line ih =>
    rw [List.mem_cons, not_or] at h
    have hc : endsFeed c (line ++ rest) = false := by
      simpa [endsFeed] using Ne.symm h.1
    rw [List.cons_append, cutOnto, if_neg (by simp [hc]), ih h.2]
    simp

theorem cut_feed (rest : List Char) :
    cut endsFeed (line ++ '\n' :: rest) = (line ++ ['\n']) :: cut endsFeed rest := by
  unfold cut
  rw [cutOnto_endsFeed h, cutOnto, if_pos (by simp [endsFeed]), cutOnto_done]
  simp

theorem cut_last (hne : line ≠ []) : cut endsFeed line = [line] := by
  have hcut := cutOnto_endsFeed h [] [] []
  rw [List.append_nil, List.append_nil] at hcut
  unfold cut
  rw [hcut, cutOnto, if_neg (by simpa using hne)]
  simp

end

end Lines

namespace Diff

/-! ## painting line by line -/

/-- an empty line has no style -/
theorem styleOf?_nil (k : Nat) : styleOf? k [] = none := by
  simp [styleOf?]

theorem newline_notMem_styled {line : List Char} (h : '\n' ∉ line) (style : Option Style) :
    '\n' ∉ styled style line := by
  cases style with
  | none => exact h
  | some s =>
    have hon : '\n' ∉ s.on := by cases s <;> decide
    have hoff : '\n' ∉ s.off := by cases s <;> decide
    simp [styled, hon, hoff, h]

section
variable (supported : Bool) (mode : ColorMode)

theorem paint_none (text : List Char) : paint supported mode none text = text := by
  cases mode with
  | auto => cases supported <;> rfl
  | always | never => rfl

/-- in every mode a text is shown in its style or in none -/
theorem exists_paint (style : Option Style) :
    ∃ shown, ∀ text, paint supported mode style text = styled shown text := by
  cases mode with
  | auto =>
    cases supported with
    | true => exact ⟨style, fun _ => rfl⟩
    | false => exact ⟨none, fun _ => rfl⟩
  | always => exact ⟨style, fun _ => rfl⟩
  | never => exact ⟨none, fun _ => rfl⟩

/-- paints the lines of a text of which the first one has the number `k` -/
def paintFrom (k : Nat) (text : List Char) : List Char :=
  ((Lines.cut Lines.endsFeed text).mapIdx fun i => paintLine supported mode (i + k)).flatten

theorem paintAll_eq (text : List Char) :
    paintAll supported mode text = paintFrom supported mode 0 text := rfl

section
variable {line : List Char} (h : '\n' ∉ line)
include h

theorem paintFrom_feed (k : Nat) (rest : List Char) :
    paintFrom supported mode k (line ++ '\n' :: rest) =
      paint supported mode (styleOf? k line) line ++
        '\n' :: paintFrom supported mode (k + 1) rest := by
  have hline : paintLine supported mode (0 + k) (line ++ ['\n']) =
      paint supported mode (styleOf? k line) line ++ ['\n'] := by
    simp [paintLine]
  have hnext (i : Nat) :
      paintLine supported mode (i + 1 + k) = paintLine supported mode (i + (k + 1)) := by
    rw [Nat.add_assoc, Nat.add_comm 1]
  unfold paintFrom
  rw [Lines.cut_feed h, List.mapIdx_cons, List.flatten_cons, hline]
  simp only [hnext, List.append_assoc, List.singleton_append]

theorem paintFrom_last (k : Nat) :
    paintFrom supported mode k line = paint supported mode (styleOf? k line) line := by
  by_cases hne : line = []
  · subst hne
    rw [styleOf?_nil, paint_none]
    rfl
  · have hend : line.getLast? ≠ some '\n' := fun hlast => h (List.mem_of_getLast? hlast)
    unfold paintFrom
    rw [Lines.cut_last h hne, List.mapIdx_singleton, paintLine, if_neg hend, Nat.zero_add]
    exact List.append_nil _

theorem newline_notMem_paint (style : Option Style) :
    '\n' ∉ paint supported mode style line := by
  obtain ⟨shown, hshown⟩ := exists_paint supported mode style
  rw [hshown]
  exact newline_notMem_styled h shown

end

theorem splitOn_paintFrom (k : Nat) (text : List Char) :
    (paintFrom supported mode k text).splitOn '\n' =
      (text.splitOn '\n').mapIdx fun i line =>
        paint supported mode (styleOf? (i + k) line) line := by
  induction text using Lines.feed_induction generalizing k with
  | last line h =>
    rw [paintFrom_last _ _ h, List.splitOn_eq_singleton (newline_notMem_paint _ _ h _),
      List.splitOn_eq_singleton h, List.mapIdx_singleton, Nat.zero_add]
  | feed line rest h ih =>
    have hnext (i : Nat) : i + 1 + k = i + (k + 1) := by omega
    rw [paintFrom_feed _ _ h,
      List.splitOn_append_cons_self_of_not_mem (newline_notMem_paint _ _ h _),
      List.splitOn_append_cons_self_of_not_mem h, List.mapIdx_cons, ih, Nat.zero_add]
    simp only [hnext]

/-- painting goes on between newlines -/
theorem splitOn_paintAll (text : List Char) :
    (paintAll supported mode text).splitOn '\n' =
      (text.splitOn '\n').mapIdx fun i line => paint supported mode (styleOf? i line) line :=
  splitOn_paintFrom supported mode 0 text

end

/-- where nothing is painted, the lines are put together as they were -/
theorem paintAll_never (supported : Bool) (text : List Char) :
    paintAll supported .never text = text := by
  have hline (i : Nat) (line : List Char) : paintLine supported .never i line = line := by
    unfold paintLine
    by_cases h : line.getLast? = some '\n'
    · obtain ⟨front, rfl⟩ := List.getLast?_eq_some_iff.mp h
      rw [if_pos h, List.dropLast_concat]
      rfl
    · rw [if_neg h]
      rfl
  have hlines (lines : List (List Char)) : lines.mapIdx (paintLine supported .never) = lines := by
    apply List.ext_getElem?
    intro i
    rw [List.getElem?_mapIdx, funext (hline i), Option.map_id_fun']
    rfl
  unfold paintAll
  rw [hlines, Lines.cut_flatten]

theorem paintAll_auto (supported : Bool) (text : List Char) :
    paintAll supported .auto text =
      if supported then paintAll supported .always text else paintAll supported .never text := by
  cases supported <;> rfl

/-! ## escape sequences -/

/-- A text without its escape sequences: they begin with the escape character and `[`, and end with
the first character from `@` to `~` after that.  The flag says that one has begun. -/
def withoutEscapes : (begun : Bool) → List Char → List Char
  | _, [] => []
  | true, c :: cs => withoutEscapes (c < '@' || '~' < c) cs
  | false, '\x1b' :: '[' :: cs => withoutEscapes true cs
  | false, c :: cs => c :: withoutEscapes false cs

theorem withoutEscapes_append {text : List Char} (h : '\x1b' ∉ text) (rest : List Char) :
    withoutEscapes false (text ++ rest) = text ++ withoutEscapes false rest := by
  induction text with
  | nil => rfl
  | cons c text ih =>
    rw [List.mem_cons, not_or] at h
    rw [List.cons_append, withoutEscapes, ih h.2, List.cons_append]
    rintro - rfl
    exact absurd rfl h.1

theorem withoutEscapes_on (s : Style) (rest : List Char) :
    withoutEscapes false (s.on ++ rest) = withoutEscapes false rest := by
  cases s <;> rfl

theorem withoutEscapes_off (s : Style) (rest : List Char) :
    withoutEscapes false (s.off ++ rest) = withoutEscapes false rest := by
  cases s <;> rfl

theorem withoutEscapes_styled {line : List Char} (h : '\x1b' ∉ line) (style : Option Style)
    (rest : List Char) :
    withoutEscapes false (styled style line ++ rest) = line ++ withoutEscapes false rest := by
  cases style with
  | none => exact withoutEscapes_append h rest
  | some s =>
    rw [styled, List.append_assoc, List.append_assoc, withoutEscapes_on, withoutEscapes_append h,
      withoutEscapes_off]

section
variable (supported : Bool) (mode : ColorMode)

theorem withoutEscapes_paint {line : List Char} (h : '\x1b' ∉ line) (style : Option Style)
    (rest : List Char) :
    withoutEscapes false (paint supported mode style line ++ rest) =
      line ++ withoutEscapes false rest := by
  obtain ⟨shown, hshown⟩ := exists_paint supported mode style
  rw [hshown, withoutEscapes_styled h]

theorem withoutEscapes_paintFrom (k : Nat) {text : List Char} (h : '\x1b' ∉ text) :
    withoutEscapes false (paintFrom supported mode k text) = text := by
  induction text using Lines.feed_induction generalizing k with
  | last line hline =>
    have hpaint := withoutEscapes_paint supported mode h (styleOf? k line) []
    rwa [List.append_nil, withoutEscapes, List.append_nil, ← paintFrom_last _ _ hline] at hpaint
  | feed line rest hline ih =>
    rw [List.mem_append, List.mem_cons, not_or, not_or] at h
    obtain ⟨hfront, -, hback⟩ := h
    have hfeed : '\x1b' ∉ ['\n'] := by decide
    rw [paintFrom_feed _ _ hline, withoutEscapes_paint _ _ hfront, ← List.singleton_append,
      withoutEscapes_append hfeed, ih (k + 1) hback]
    rfl

theorem withoutEscapes_paintAll {text : List Char} (h : '\x1b' ∉ text) :
    withoutEscapes false (paintAll supported mode text) = text :=
  withoutEscapes_paintFrom supported mode 0 h

/-! ## colouring -/

theorem toList_colorize (diff : String) :
    (colorize supported mode diff).toList = paintAll supported mode diff.toList :=
  String.toList_ofList

end

/-- **Colouring loses nothing.**  With colours never it is the text that comes out; colours by the
output are colours always or never.  With colours always there are as many lines, each of them
the line of the text between the codes of one style, or as it was; and where the text has no escape
character, it comes out again when the escape sequences are taken away. -/
theorem colorize_lossless (supported : Bool) (diff : String) :
    colorize supported .never diff = diff ∧
    colorize supported .auto diff =
      (if supported then colorize supported .always diff else colorize supported .never diff) ∧
    ((colorize supported .always diff).toList.splitOn '\n').length =
      (diff.toList.splitOn '\n').length ∧
    (colorize supported .always diff).toList.splitOn '\n' =
      (diff.toList.splitOn '\n').mapIdx (fun i line => styled (styleOf? i line) line) ∧
    ('\x1b' ∉ diff.toList →
      withoutEscapes false (colorize supported .always diff).toList = diff.toList) := by
  refine ⟨?_, ?_, ?_, ?_, ?_⟩
  · unfold colorize
    rw [paintAll_never, String.ofList_toList]
  · unfold colorize
    rw [paintAll_auto]
    cases supported <;> rfl
  · rw [toList_colorize, splitOn_paintAll, List.length_mapIdx]
  · rw [toList_colorize, splitOn_paintAll]
    rfl
  · rw [toList_colorize]
    exact withoutEscapes_paintAll supported .always

/-- an empty line, one that ends with `\r\n`, and a last one without newline -/
theorem colorize_lossless_crlf :
    colorize false .always "--- a\n\n-x\r\n+y" =
      "\x1b[1m--- a\x1b[0m\n\n\x1b[31m-x\r\x1b[39m\n\x1b[32m+y\x1b[39m" ∧
    '\x1b' ∉ "--- a\n\n-x\r\n+y".toList ∧
    withoutEscapes false (colorize false .always "--- a\n\n-x\r\n+y").toList =
      "--- a\n\n-x\r\n+y".toList := by
  have hescape : '\x1b' ∉ "--- a\n\n-x\r\n+y".toList := by decide
  obtain ⟨-, -, -, -, hplain⟩ := colorize_lossless false "--- a\n\n-x\r\n+y"
  exact ⟨by decide +kernel, hescape, hplain hescape⟩

end Diff

end CommentFree
