import CommentFree.Proofs.Color
import CommentFree.Proofs.Patch
import Mathlib.Data.List.Infix

/-!
# Colours follow the roles of the rows

A diff is printed from rows that have roles, and coloured from its text, where the roles have to be
found again in the first characters of the lines.  They are found because every row is one line
(`OneLine`): its own newline stands at its end and there is no other in it.  For that `\r` has to
stand before `\n` only, so that the lines that are compared end where the lines that are coloured
end (`Lines.cut_endsAny`).  The number of a line then tells the file headers from the rows of the
hunks (`exists_rows`), and the mark of a row tells its role (`Row.InHunk.styleOf?_line`).
-/

namespace CommentFree

/-- in a text, `\r` stands right before `\n` only -/
def ReturnsPaired (text : List Char) : Prop :=
  ∀ back, '\r' :: back <:+ text → back.head? = some '\n'

instance (text : List Char) : Decidable (ReturnsPaired text) :=
  decidable_of_iff (∀ s ∈ text.tails, s.head? = some '\r' → s.tail.head? = some '\n') <| by
    simp only [List.mem_tails]
    constructor
    · intro h back hback
      exact h ('\r' :: back) hback rfl
    · intro h s hs hreturn
      obtain ⟨back, rfl⟩ := List.head?_eq_some_iff.mp hreturn
      exact h back hs

/-- one line with its newline -/
def OneLine (text : List Char) : Prop := ∃ line, '\n' ∉ line ∧ text = line ++ ['\n']

namespace OneLine

variable {text : List Char}

theorem cons {c : Char} (hc : c ≠ '\n') (h : OneLine text) : OneLine (c :: text) := by
  obtain ⟨line, hline, rfl⟩ := h
  refine ⟨c :: line, ?_, rfl⟩
  rw [List.mem_cons, not_or]
  exact ⟨Ne.symm hc, hline⟩

theorem dropLast (h : OneLine text) :
    '\n' ∉ text.dropLast ∧ text = text.dropLast ++ ['\n'] := by
  obtain ⟨line, hline, rfl⟩ := h
  rw [List.dropLast_concat]
  exact ⟨hline, rfl⟩

end OneLine

/-! ## lines that are compared -/

namespace Lines

theorem cutOnto_congr {ends ends' : Char → List Char → Bool} {text : List Char}
    (h : ∀ c rest, c :: rest <:+ text → ends c rest = ends' c rest) (done : List (List Char))
    (current : List Char) : cutOnto ends done current text = cutOnto ends' done current text := by
  induction text generalizing done current with
  | nil => rfl
  | cons c rest ih =>
    have hrest := ih fun d back hback => h d back (hback.trans (List.suffix_cons c rest))
    rw [cutOnto, cutOnto, h c rest (List.suffix_refl _), hrest, hrest]

theorem cut_endsAny {text : List Char} (h : ReturnsPaired text) :
    cut endsAny text = cut endsFeed text := by
  refine cutOnto_congr ?_ [] []
  intro c rest hsuffix
  by_cases hc : c = '\r'
  · subst hc
    simp [endsAny, endsFeed, h rest hsuffix]
  · simp [endsAny, endsFeed, hc]

/-- a line with its newline, or a last line without one -/
theorem mem_cut_endsFeed {text line : List Char} (h : line ∈ cut endsFeed text) :
    OneLine line ∨ '\n' ∉ line ∧ line <:+ text := by
  induction text using feed_induction with
  | last text htext =>
    by_cases hne : text = []
    · subst hne
      exact absurd h (by simp [cut, cutOnto])
    · rw [cut_last htext hne, List.mem_singleton] at h
      subst h
      exact .inr ⟨htext, List.suffix_refl _⟩
  | feed front rest hfront ih =>
    rw [cut_feed hfront, List.mem_cons] at h
    rcases h with rfl | h
    · exact .inl ⟨front, hfront, rfl⟩
    · rcases ih h with hone | ⟨hline, hsuffix⟩
      · exact .inl hone
      · have hback : rest <:+ front ++ '\n' :: rest :=
          (List.suffix_cons '\n' rest).trans (List.suffix_append front _)
        exact .inr ⟨hline, hsuffix.trans hback⟩

end Lines

namespace Diff

theorem oneLine_lineText {text : String} {line : List Char} (h : ReturnsPaired text.toList)
    (hline : line ∈ textLines text) : OneLine (lineText line) := by
  unfold textLines at hline
  rw [Lines.cut_endsAny h] at hline
  rcases Lines.mem_cut_endsFeed hline with hone | ⟨hnone, hsuffix⟩
  · have hended : terminated line = true := by
      obtain ⟨front, -, rfl⟩ := hone
      simp [terminated]
    rw [lineText, if_pos hended]
    exact hone
  · have hopen : terminated line = false := by
      -- at the end of the text there is nothing that a `\r` could stand before
      have hfeed : line.getLast? ≠ some '\n' := fun hlast => hnone (List.mem_of_getLast? hlast)
      have hreturn : line.getLast? ≠ some '\r' := by
        intro hlast
        obtain ⟨front, rfl⟩ := List.getLast?_eq_some_iff.mp hlast
        exact nomatch h [] ((List.suffix_append front ['\r']).trans hsuffix)
      simp [terminated, hfeed, hreturn]
    rw [lineText, if_neg (by simp [hopen])]
    exact ⟨line, hnone, rfl⟩

/-! ## rows -/

namespace Row

def style : Row → Option Style
  | oldFile _ | newFile _ => some .bold
  | hunk .. => some .cyan
  | removed _ => some .red
  | added _ => some .green
  | context _ | note => none

def line (r : Row) : List Char := r.text.dropLast

/-- a row in its style; the newline stays outside -/
def painted (r : Row) : List Char := styled r.style r.line ++ ['\n']

/-- a row of a hunk that is one line -/
structure InHunk (r : Row) : Prop where
  oneLine : OneLine r.text
  notFile : r.style ≠ some .bold

theorem text_hunk (a b c d : Nat) : (hunk a b c d).text =
    ("@@ -".toList ++ rangeText a b ++ " +".toList ++ rangeText c d ++ " @@".toList) ++ ['\n'] := by
  have hend (front : List Char) : front ++ " @@\n".toList = (front ++ " @@".toList) ++ ['\n'] :=
    (List.append_assoc front " @@".toList ['\n']).symm
  exact hend _

theorem InHunk.styleOf?_line {r : Row} (h : r.InHunk) (k : Nat) : styleOf? (k + 2) r.line = r.style := by
  -- the text of a row is read from its front; a mark is never the newline at its end
  have hmark {c : Char} {rest : List Char} (hc : c ≠ '\n') (htext : r.text = c :: rest) :
      ∃ more, r.line = c :: more := by
    obtain ⟨front, -, hfront⟩ := h.oneLine
    unfold line
    rw [hfront, List.dropLast_concat]
    rw [hfront] at htext
    cases front with
    | nil => exact absurd (List.cons.inj htext).1.symm hc
    | cons d front => exact ⟨front, by rw [(List.cons.inj htext).1]⟩
  have hindex : ¬ k + 2 < 2 := by omega
  cases r with
  | oldFile label | newFile label => exact absurd rfl h.notFile
  | hunk a b c d =>
    rw [line, text_hunk, List.dropLast_concat]
    simp [styleOf?, hindex, style]
  | context l =>
    obtain ⟨more, hline⟩ := hmark (by decide) rfl
    rw [hline]
    simp [styleOf?, style]
  | removed l =>
    obtain ⟨more, hline⟩ := hmark (by decide) rfl
    rw [hline]
    simp [styleOf?, hindex, style]
  | added l =>
    obtain ⟨more, hline⟩ := hmark (by decide) rfl
    rw [hline]
    simp [styleOf?, hindex, style]
  | note =>
    have hline : note.line = "\\ No newline at end of file".toList := by decide
    rw [hline]
    simp [styleOf?, style]

end Row

/-! ## the rows of a diff -/

theorem newline_notMem_rangeText (start stop : Nat) : '\n' ∉ rangeText start stop := by
  have hdigits (n : Nat) : '\n' ∉ Nat.toDigits 10 n := by
    intro h
    have hdigit := Nat.isDigit_of_mem_toDigits (by decide) (by decide) h
    exact absurd hdigit (by decide)
  unfold rangeText
  dsimp only
  split
  · simp [hdigits]
  · simp [hdigits]

theorem inHunk_hunk (a b c d : Nat) : (Row.hunk a b c d).InHunk := by
  refine ⟨⟨_, ?_, Row.text_hunk a b c d⟩, by simp [Row.style]⟩
  simp [newline_notMem_rangeText]

theorem inHunk_of_mem_lineRows {role : List Char → Row} {mark : Char} {line : List Char} {r : Row}
    (hrole : (role line).text = mark :: lineText line) (hmark : mark ≠ '\n')
    (hstyle : (role line).style ≠ some .bold) (hline : OneLine (lineText line))
    (hr : r ∈ lineRows role line) : r.InHunk := by
  have hrow : (role line).InHunk := ⟨hrole ▸ hline.cons hmark, hstyle⟩
  have hnote : Row.note.InHunk :=
    ⟨⟨"\\ No newline at end of file".toList, by decide, by decide⟩, by decide⟩
  unfold lineRows at hr
  by_cases ht : terminated line = true
  · rw [if_pos ht, List.mem_singleton] at hr
    exact hr ▸ hrow
  · rw [if_neg ht, List.mem_cons, List.mem_singleton] at hr
    rcases hr with rfl | rfl
    · exact hrow
    · exact hnote

theorem Block.inHunk_of_mem_rows {b : Block (List Char)} {r : Row}
    (hold : ∀ line ∈ b.old, OneLine (lineText line))
    (hnew : ∀ line ∈ b.new, OneLine (lineText line)) (hr : r ∈ b.rows) : r.InHunk := by
  cases b with
  | keep i j lines =>
    obtain ⟨line, hline, hr⟩ := List.mem_flatMap.mp hr
    exact inHunk_of_mem_lineRows rfl (by decide) (by simp [Row.style]) (hold line hline) hr
  | change i j removed added =>
    rcases List.mem_append.mp hr with hr | hr
    · obtain ⟨line, hline, hr⟩ := List.mem_flatMap.mp hr
      exact inHunk_of_mem_lineRows rfl (by decide) (by simp [Row.style]) (hold line hline) hr
    · obtain ⟨line, hline, hr⟩ := List.mem_flatMap.mp hr
      exact inHunk_of_mem_lineRows rfl (by decide) (by simp [Row.style]) (hnew line hline) hr

/-- what a hunk has on one side is there of the list on that side -/
theorem Patches.subset {α η : Type} {before after : η → List α} {hs : List η} {old new : List α}
    (h : Patches before after hs old new) {x : η} (hx : x ∈ hs) :
    before x ⊆ old ∧ after x ⊆ new := by
  induction h with
  | rest common => cases hx
  | hunk common y hrest ih =>
    rcases List.mem_cons.mp hx with rfl | hx
    · exact ⟨fun a ha => by simp [ha], fun a ha => by simp [ha]⟩
    · obtain ⟨hold, hnew⟩ := ih hx
      exact ⟨fun a ha => by simp [hold ha], fun a ha => by simp [hnew ha]⟩

section
variable {old new : String} (oldLabel newLabel : String) (context : Nat)
  (hold : ReturnsPaired old.toList) (hnew : ReturnsPaired new.toList)
include hold hnew

theorem inHunk_of_mem_hunkRows {bs : List (Block (List Char))} {r : Row}
    (hbs : bs ∈ hunksBetween context (textLines old) (textLines new)) (hr : r ∈ hunkRows bs) :
    r.InHunk := by
  obtain ⟨hbefore, hafter⟩ := (patches_hunksBetween context _ _).subset hbs
  unfold hunkRows at hr
  split at hr
  · rcases List.mem_cons.mp hr with rfl | hr
    · exact inHunk_hunk ..
    · obtain ⟨b, hb, hr⟩ := List.mem_flatMap.mp hr
      refine b.inHunk_of_mem_rows ?_ ?_ hr
      · intro line hline
        exact oneLine_lineText hold (hbefore (List.mem_flatMap.mpr ⟨b, hb, hline⟩))
      · intro line hline
        exact oneLine_lineText hnew (hafter (List.mem_flatMap.mpr ⟨b, hb, hline⟩))
  · cases hr

/-- the file headers, if there are any, and rows of hunks -/
theorem exists_rows : rows old new oldLabel newLabel context = [] ∨
    ∃ rs, rows old new oldLabel newLabel context =
        .oldFile oldLabel.toList :: .newFile newLabel.toList :: rs ∧ ∀ r ∈ rs, r.InHunk := by
  have hhunk : ∀ bs ∈ hunksBetween context (textLines old) (textLines new),
      ∀ r ∈ hunkRows bs, r.InHunk := fun _ hbs _ => inHunk_of_mem_hunkRows context hold hnew hbs
  unfold rows
  generalize hunksBetween context (textLines old) (textLines new) = hs at hhunk ⊢
  cases hs with
  | nil => exact .inl rfl
  | cons bs hs =>
    refine .inr ⟨_, rfl, ?_⟩
    intro r hr
    obtain ⟨bs', hbs', hr⟩ := List.mem_flatMap.mp hr
    exact hhunk bs' hbs' r hr

end

/-! ## the coloured diff -/

/-- a row is painted as one line when the style of its line is its own -/
theorem paintFrom_row (supported : Bool) {r : Row} {k : Nat} (hone : OneLine r.text)
    (hstyle : styleOf? k r.line = r.style) (rest : List Char) :
    paintFrom supported .always k (r.text ++ rest) =
      r.painted ++ paintFrom supported .always (k + 1) rest := by
  have hline : '\n' ∉ r.line := hone.dropLast.1
  have htext : r.text = r.line ++ ['\n'] := hone.dropLast.2
  rw [htext, List.append_assoc, List.singleton_append, paintFrom_feed _ _ hline, hstyle,
    Row.painted, List.append_assoc, List.singleton_append]
  rfl

theorem paintFrom_rows (supported : Bool) {rs : List Row} (h : ∀ r ∈ rs, r.InHunk) (k : Nat) :
    paintFrom supported .always (k + 2) (rs.flatMap Row.text) = rs.flatMap Row.painted := by
  induction rs generalizing k with
  | nil => rfl
  | cons r rs ih =>
    obtain ⟨hr, hrs⟩ := List.forall_mem_cons.mp h
    rw [List.flatMap_cons, List.flatMap_cons, paintFrom_row _ hr.oneLine (hr.styleOf?_line k),
      Nat.add_right_comm, ih hrs]

theorem styleOf?_oldFile (label : List Char) :
    styleOf? 0 (Row.oldFile label).line = (Row.oldFile label).style := by
  have hline : (Row.oldFile label).line = "--- ".toList ++ label := List.dropLast_concat
  rw [hline]
  simp [styleOf?, Row.style]

theorem styleOf?_newFile (label : List Char) :
    styleOf? 1 (Row.newFile label).line = (Row.newFile label).style := by
  have hline : (Row.newFile label).line = "+++ ".toList ++ label := List.dropLast_concat
  rw [hline]
  simp [styleOf?, Row.style]

/-- **The colours of a diff are those of its roles.**  Where `\r` stands before `\n` only and labels
have no newline, every row of the diff is one line, and colouring the diff gives the same rows with
file headers bold, hunk headers cyan, removed lines red, added lines green and all else plain. -/
theorem colorize_unified (supported : Bool) (old new oldLabel newLabel : String) (context : Nat)
    (hold : ReturnsPaired old.toList) (hnew : ReturnsPaired new.toList)
    (holdLabel : '\n' ∉ oldLabel.toList) (hnewLabel : '\n' ∉ newLabel.toList) :
    (∀ r ∈ rows old new oldLabel newLabel context, '\n' ∉ r.line ∧ r.text = r.line ++ ['\n']) ∧
    unified old new oldLabel newLabel context =
      String.ofList ((rows old new oldLabel newLabel context).flatMap Row.text) ∧
    colorize supported .always (unified old new oldLabel newLabel context) =
      String.ofList ((rows old new oldLabel newLabel context).flatMap Row.painted) := by
  have holdFile : OneLine (Row.oldFile oldLabel.toList).text :=
    ⟨"--- ".toList ++ oldLabel.toList, by simp [holdLabel], rfl⟩
  have hnewFile : OneLine (Row.newFile newLabel.toList).text :=
    ⟨"+++ ".toList ++ newLabel.toList, by simp [hnewLabel], rfl⟩
  rw [colorize, unified, String.toList_ofList, paintAll_eq]
  rcases exists_rows oldLabel newLabel context hold hnew with hrows | ⟨rs, hrows, hhunk⟩
  · rw [hrows]
    exact ⟨nofun, rfl, rfl⟩
  · rw [hrows]
    refine ⟨?_, rfl, ?_⟩
    · rw [List.forall_mem_cons, List.forall_mem_cons]
      exact ⟨holdFile.dropLast, hnewFile.dropLast, fun r hr => (hhunk r hr).oneLine.dropLast⟩
    · congr 1
      rw [List.flatMap_cons, List.flatMap_cons, List.flatMap_cons, List.flatMap_cons,
        paintFrom_row _ holdFile (styleOf?_oldFile _),
        paintFrom_row _ hnewFile (styleOf?_newFile _), paintFrom_rows _ hhunk]

/-- a removed line like a file header, a kept one like a hunk header, `\r\n`, and no newline at the end
of either text -/
theorem colorize_unified_lookalikes :
    ReturnsPaired "-- a\n@@\r\nx".toList ∧ ReturnsPaired "\n@@\r\n++x".toList ∧
    colorize false .always (unified "-- a\n@@\r\nx" "\n@@\r\n++x" "a.sql" "a_1.sql" 3) =
      "\x1b[1m--- a.sql\x1b[0m\n\x1b[1m+++ a_1.sql\x1b[0m\n\x1b[36m@@ -1,3 +1,3 @@\x1b[39m\n" ++
      "\x1b[31m--- a\x1b[39m\n\x1b[32m+\x1b[39m\n @@\r\n" ++
      "\x1b[31m-x\x1b[39m\n\\ No newline at end of file\n" ++
      "\x1b[32m+++x\x1b[39m\n\\ No newline at end of file\n" := by
  have hold : ReturnsPaired "-- a\n@@\r\nx".toList := by decide
  have hnew : ReturnsPaired "\n@@\r\n++x".toList := by decide
  obtain ⟨-, -, hcolored⟩ := colorize_unified false "-- a\n@@\r\nx" "\n@@\r\n++x" "a.sql" "a_1.sql" 3
    hold hnew (by decide) (by decide)
  have hrows : rows "-- a\n@@\r\nx" "\n@@\r\n++x" "a.sql" "a_1.sql" 3 =
      [.oldFile "a.sql".toList, .newFile "a_1.sql".toList, .hunk 0 3 0 3,
        .removed "-- a\n".toList, .added ['\n'], .context "@@\r\n".toList,
        .removed ['x'], .note, .added "++x".toList, .note] := by cbv
  refine ⟨hold, hnew, ?_⟩
  rw [hcolored, hrows]
  decide +kernel

end Diff

end CommentFree
