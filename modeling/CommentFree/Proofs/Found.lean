import CommentFree.Proofs.Files
import CommentFree.Proofs.Patch
import CommentFree.Proofs.Rescan

/-!
# Comments are found exactly when there is something to take out

A source without comments is left as it is.  With comments it gets shorter, by a byte for each of
them at least: a block comment goes with its start, and a line comment with its mark, of which only
a newline could stay.  So a mark that begins with a newline is the one thing that is ruled out.

* `Reads.length_kept`, `Splits.length_kept`   the bytes of a token, and of a source, against those
                                              that are kept and the comments that are counted;
* `strip_text_eq_iff`                         hence the text is the same only without comments;
* `Ends.result_eq_noComments_iff`, `Ends.shown`   what a session reports and shows: never an empty
                                              diff.
-/

namespace CommentFree

namespace Utf8

theorem length_ofString (text : String) : (ofString text).length = text.utf8ByteSize := by
  rw [String.utf8ByteSize, ← String.utf8Encode_toList, List.utf8Encode, List.size_toByteArray]
  rfl

theorem head?_ofString_ne {text : String} (h : text.toList.head? ≠ some '\n') :
    (ofString text).head? ≠ some newline := by
  intro hhead
  obtain ⟨rest, hrest⟩ := List.head?_eq_some_iff.mp hhead
  have hfront : encode text.toList = encode ['\n'] ++ rest := hrest
  obtain ⟨back, hback, -⟩ := encode_eq_append hfront
  apply h
  rw [hback]
  rfl

end Utf8

/-! ## every comment takes a byte with it -/

section
variable {d : Delimiters} (hmark : d.lineMark.head? ≠ some newline)
include hmark

theorem LineText.text_ne_nil {input text rest : List UInt8} {ended : Bool}
    (h : LineText input text ended rest) (hopens : Delimiters.opens d.lineMark input = true) :
    text ≠ [] := by
  obtain ⟨hne, tail, hin⟩ := Delimiters.opens_iff.mp hopens
  cases h with
  | last hnl => simp [hin, hne]
  | ended hnl hin' =>
    rintro rfl
    apply hmark
    obtain ⟨b, bs, hbs⟩ := List.exists_cons_of_ne_nil hne
    rw [hin', hbs] at hin
    rw [hbs, (List.cons.inj hin).1]
    rfl

theorem Reads.length_kept {input rest : List UInt8} {t : Token} (h : Reads d input t rest) :
    t.kept.length + t.isComment.toNat ≤ t.bytes.length := by
  cases h with
  | block hne hin htext =>
    have hpos := List.length_pos_iff.mpr hne
    simp only [Token.kept, Token.isComment, Token.bytes, List.length_nil, List.length_append,
      Bool.toNat_true]
    omega
  | line hb hl htext =>
    have hpos := List.length_pos_iff.mpr (htext.text_ne_nil hmark hl)
    simp only [Token.kept, Token.isComment, Token.bytes, List.length_append, Bool.toNat_true]
    omega
  | literal | plain => exact Nat.le_refl _

theorem Splits.length_kept {input : List UInt8} {ts : List Token} (h : Splits d input ts) :
    (ts.flatMap Token.kept).length + ts.countP Token.isComment ≤ input.length := by
  induction h with
  | nil => exact Nat.le_refl 0
  | @cons input rest t ts hread hrest ih =>
    have ht := hread.length_kept hmark
    have hcount : (t :: ts).countP Token.isComment =
        ts.countP Token.isComment + t.isComment.toNat := by
      rw [List.countP_cons]
      cases t.isComment <;> rfl
    rw [hread.eq_append, hcount, List.flatMap_cons, List.length_append, List.length_append]
    omega

end

section
variable {l : Language} (hmark : l.lineMark.toList.head? ≠ some '\n') (source : String)
include hmark

theorem utf8ByteSize_strip_le :
    (strip source l).text.utf8ByteSize + (strip source l).removed ≤ source.utf8ByteSize := by
  obtain ⟨ts, hts⟩ := exists_splits l.delimiters (Utf8.ofString source)
  obtain ⟨hout, hremoved⟩ := hts.scan_eq
  have hlength := hts.length_kept (Utf8.head?_ofString_ne hmark)
  rw [← hout, ← hremoved, ← ofString_strip_text, Utf8.length_ofString, Utf8.length_ofString]
    at hlength
  exact hlength

/-- the text stays the same only where nothing is found -/
theorem strip_text_eq_iff : (strip source l).text = source ↔ (strip source l).found = false := by
  have hle := utf8ByteSize_strip_le hmark source
  unfold Stripped.found
  rw [decide_eq_false_iff_not]
  constructor
  · intro htext
    rw [htext] at hle
    omega
  · intro hzero
    have hremoved : (strip source l).removed = 0 := by omega
    rw [strip_eq_of_removed_eq_zero hremoved]

end

/-! ## what a session shows -/

theorem Diff.unified_ne_empty {old new : String} (h : old ≠ new) (oldLabel newLabel : String)
    (context : Nat) : Diff.unified old new oldLabel newLabel context ≠ "" := by
  rw [unified_eq_of_ne_nil (hunksBetween_ne_nil h context)]
  unfold fileHeaders
  simp

open Memory (exec)

/-- what has been printed after a session that found a text: nothing more, that there are no
comments, or first of all a diff that is not empty -/
inductive Shown (config : Config) (path : Path) (options : StripOptions) (s : Memory)
    (source stripped : String) : String → Prop
  | nothing (hprint : s.failPrint = true) : Shown config path options s source stripped s.printed
  | noComments (hprint : s.failPrint = false) (hsame : stripped = source) :
      Shown config path options s source stripped
        (s.printed ++ "No comments found in the code.\n")
  | change (rest : String) (hprint : s.failPrint = false)
      (hdiff : Diff.unified source stripped path.text (path.copyPath config.outputSuffix).text
        config.contextLines ≠ "") :
      Shown config path options s source stripped
        (s.printed ++ (changeText config options.color path (path.copyPath config.outputSuffix) s
          source stripped ++ rest))

theorem Memory.decided_printed (s : Memory) (config : Config) (path : Path) (options : StripOptions)
    (source : String) (t : Stripped) : ∃ rest,
      (s.decided config path options source t).printed = s.printed ++
        (changeText config options.color path (path.copyPath config.outputSuffix) s source t.text ++
          rest) := by
  unfold decided asked
  cases options.assumeYes with
  | true =>
    refine ⟨"", ?_⟩
    rw [String.append_empty]
    rfl
  | false =>
    refine ⟨replaceQuestion, ?_⟩
    rw [← String.append_assoc]
    rfl

section
variable {config : Config} {path : Path} {options : StripOptions} {s after : Memory}
  {result : Except Failure Report} {source : String} {l : Language}

theorem Ends.result_eq_noComments_iff (h : Ends config path options s (result, after))
    (hfinds : Finds config path s l source) :
    result = .ok .noComments ↔ (strip source l).found = false ∧ s.failPrint = false := by
  cases h with
  | unsupported h => exact nomatch h.symm.trans hfinds.language
  | unreadable h => exact nomatch h.symm.trans hfinds.source
  | unsaid _ _ hprint => simp [hprint]
  | noComments h hfound hprint =>
    obtain ⟨rfl, rfl⟩ := hfinds.unique h
    simp [hfound, hprint]
  | unshown h hfound | unreplaced h hfound | replaced h hfound | undiscarded h hfound
  | discarded h hfound =>
    obtain ⟨rfl, rfl⟩ := hfinds.unique h
    simp [hfound]

theorem Ends.shown (hmark : l.lineMark.toList.head? ≠ some '\n')
    (h : Ends config path options s (result, after)) (hfinds : Finds config path s l source) :
    Shown config path options s source (strip source l).text after.printed := by
  have hdiff : (strip source l).found = true →
      Diff.unified source (strip source l).text path.text (path.copyPath config.outputSuffix).text
        config.contextLines ≠ "" := by
    intro hfound
    apply Diff.unified_ne_empty
    intro hsame
    rw [(strip_text_eq_iff hmark source).mp hsame.symm] at hfound
    cases hfound
  obtain ⟨rest, hrest⟩ :=
    Memory.decided_printed s config path options source (strip source l)
  cases h with
  | unsupported h => exact nomatch h.symm.trans hfinds.language
  | unreadable h => exact nomatch h.symm.trans hfinds.source
  | unsaid _ _ hprint | unshown _ _ hprint => exact .nothing hprint
  | noComments h hfound hprint =>
    obtain ⟨rfl, rfl⟩ := hfinds.unique h
    exact .noComments hprint ((strip_text_eq_iff hmark source).mpr hfound)
  | unreplaced h hfound hprint | undiscarded h hfound hprint =>
    obtain ⟨rfl, rfl⟩ := hfinds.unique h
    rw [hrest]
    exact .change rest hprint (hdiff hfound)
  | replaced h hfound hprint | discarded h hfound hprint =>
    obtain ⟨rfl, rfl⟩ := hfinds.unique h
    show Shown _ _ _ _ _ _ ((s.decided ..).printed ++ _)
    rw [hrest, String.append_assoc, String.append_assoc]
    exact .change _ hprint (hdiff hfound)

end

/-- **What is counted as a comment is taken out.**  Without comments the text stays as it is, and
with comments it gets shorter, by at least as many bytes as there are comments.  So a session
reports that there are none exactly when there is nothing to change, and never shows an empty
diff. -/
theorem strip_found_exact (source : String) (l : Language)
    (hmark : l.lineMark.toList.head? ≠ some '\n') :
    ((strip source l).removed = 0 → (strip source l).text = source) ∧
    (0 < (strip source l).removed →
      (strip source l).text.utf8ByteSize + (strip source l).removed ≤ source.utf8ByteSize) ∧
    ∀ (config : Config) (path : Path) (options : StripOptions) (s after : Memory)
      (result : Except Failure Report), Finds config path s l source →
      exec (stripFile config path options) s = (result, after) →
      (result = .ok .noComments ↔ (strip source l).text = source ∧ s.failPrint = false) ∧
      Shown config path options s source (strip source l).text after.printed := by
  refine ⟨?_, fun _ => utf8ByteSize_strip_le hmark source, ?_⟩
  · intro hzero
    rw [strip_eq_of_removed_eq_zero hzero]
  · intro config path options s after result hfinds hrun
    have hends : Ends config path options s (result, after) :=
      hrun ▸ stripFile_ends config path options s
    rw [strip_text_eq_iff hmark source]
    exact ⟨hends.result_eq_noComments_iff hfinds, hends.shown hmark hfinds⟩

theorem strip_found_exact_taken :
    Finds .default ⟨"a.c"⟩ .taken Language.builtin[0] "x//y\n" ∧
    (strip "x//y\n" Language.builtin[0]).text.utf8ByteSize + 1 ≤ "x//y\n".utf8ByteSize ∧
    ∃ after,
      exec (stripFile .default ⟨"a.c"⟩ ⟨true, .never⟩) .taken = (.ok (.replaced ⟨"a.c"⟩ 1), after) ∧
      Shown .default ⟨"a.c"⟩ ⟨true, .never⟩ .taken "x//y\n" "x\n" after.printed := by
  obtain ⟨-, hshorter, hsession⟩ :=
    strip_found_exact "x//y\n" Language.builtin[0] (by decide)
  obtain ⟨after, hrun⟩ := exec_stripFile_taken ⟨true, .never⟩
  obtain ⟨-, hshown⟩ := hsession .default ⟨"a.c"⟩ _ _ _ _ finds_taken hrun
  rw [strip_taken] at hshorter hshown ⊢
  exact ⟨finds_taken, hshorter Nat.one_pos, after, hrun, hshown⟩

end CommentFree
