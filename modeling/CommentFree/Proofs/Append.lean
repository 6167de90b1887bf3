import CommentFree.Proofs.Rescan

/-!
# Texts one after the other

A source can be cut where a line ends outside comments and literals: what follows is scanned as if
it stood alone (`strip_append`).  Delimiters look ahead, so each kind of them has to stay on its own
side of the cut:

* a mark and the start of a block comment have no newline in them, and one that reached over the cut
  would have the newline before it (`Delimiters.opens_append_eq`);
* the end of a block comment may have newlines.  But if one reached over the cut, the comment would
  still be open there (`Scanner.mode_of_reaches`).
-/

namespace CommentFree

/-- nothing, or bytes that end in a newline -/
def EndsLine (bytes : List UInt8) : Prop := bytes = [] ∨ bytes.getLast? = some newline

theorem EndsLine.of_suffix {bytes rest : List UInt8} (h : EndsLine bytes) (hrest : rest <:+ bytes) :
    EndsLine rest := by
  by_cases hnil : rest = []
  · exact .inl hnil
  · obtain ⟨front, rfl⟩ := hrest
    rcases h with h | h
    · exact absurd (List.append_eq_nil_iff.mp h).2 hnil
    · rw [List.getLast?_append_of_ne_nil _ hnil] at h
      exact .inr h

theorem EndsLine.newline_mem {bytes : List UInt8} (h : EndsLine bytes) (hne : bytes ≠ []) :
    newline ∈ bytes := by
  rcases h with h | h
  · exact absurd h hne
  · exact List.mem_of_getLast? h

/-- a delimiter on one line does not reach over the end of a line -/
theorem Delimiters.opens_append_eq {delimiter bytes : List UInt8} (hdelimiter : newline ∉ delimiter)
    (h : EndsLine bytes) (hne : bytes ≠ []) (after : List UInt8) :
    Delimiters.opens delimiter (bytes ++ after) = Delimiters.opens delimiter bytes := by
  rw [Bool.eq_iff_iff, opens_iff_isPrefix, opens_iff_isPrefix]
  refine and_congr_right fun _ => ⟨fun hpre => ?_, fun hpre => hpre.trans (List.prefix_append _ _)⟩
  rcases List.prefix_or_prefix_of_prefix hpre (List.prefix_append bytes after) with h' | h'
  · exact h'
  · exact absurd (h'.subset (h.newline_mem hne)) hdelimiter

namespace Scanner

variable {d : Delimiters} {s s' : Scanner} {input rest : List UInt8}

theorem Moves.suffix (h : Moves d s input s' rest) : rest <:+ input := by
  cases h with
  | openBlock hm hne hin => exact ⟨_, hin.symm⟩
  | @line text rest hm hb hl hnl hin => exact ⟨text ++ [newline], by rw [hin]; simp⟩
  | lastLine => exact List.nil_suffix
  | copy hm hb hl hin => exact ⟨[_], hin.symm⟩
  | closeBlock hm hne hin => exact ⟨_, hin.symm⟩
  | skip hm he hin => exact ⟨[_], hin.symm⟩
  | copyLiteral hm hin => exact ⟨[_], hin.symm⟩

/-- a block comment stays open where there is no room for its end -/
theorem mode_of_length_lt (d : Delimiters) (s : Scanner) (bytes : List UInt8)
    (hm : s.mode = .comment) (hlength : bytes.length < d.blockEnd.length) :
    (run d s bytes).mode = .comment := by
  have hrun := run_invariant (d := d)
    (P := fun s rest => s.mode = .comment ∧ rest.length < d.blockEnd.length) ?_ s bytes
    ⟨hm, hlength⟩
  · exact hrun.1
  · rintro s input s' rest hmove ⟨hm, hlength⟩
    have hle := hmove.suffix.length_le
    cases hmove with
    | closeBlock _ _ hin =>
      rw [hin, List.length_append] at hlength
      omega
    | skip => exact ⟨hm, by omega⟩
    | openBlock hm' | line hm' | lastLine hm' | copy hm' | copyLiteral hm' =>
      rw [hm] at hm'
      cases hm'

/-- an end that reaches over the end of the input leaves the comment open there -/
theorem mode_of_reaches {after : List UInt8} (hm : s.mode = .comment)
    (hshort : Delimiters.opens d.blockEnd input = false)
    (hlong : Delimiters.opens d.blockEnd (input ++ after) = true) :
    (run d s input).mode = .comment := by
  obtain ⟨hne, hpre⟩ := Delimiters.opens_iff_isPrefix.mp hlong
  have hnot : ¬ d.blockEnd <+: input := by
    intro hin
    rw [Delimiters.opens_iff_isPrefix.mpr ⟨hne, hin⟩] at hshort
    cases hshort
  refine mode_of_length_lt d s input hm ?_
  by_contra hle
  exact hnot (List.prefix_of_prefix_length_le hpre (List.prefix_append input after) (by omega))

/-- a move before the end of a line is made whatever stands behind it, unless a comment is left open
there -/
theorem Moves.append (hline : newline ∉ d.lineMark) (hblock : newline ∉ d.blockStart)
    (h : Moves d s input s' rest) (hends : EndsLine input) (hmode : (run d s input).mode ≠ .comment)
    (after : List UInt8) : Moves d s (input ++ after) s' (rest ++ after) := by
  obtain ⟨c, cs, hcons⟩ := h.exists_cons
  have hne : input ≠ [] := by simp [hcons]
  have hstart :
      Delimiters.opens d.blockStart (input ++ after) = Delimiters.opens d.blockStart input :=
    Delimiters.opens_append_eq hblock hends hne after
  have hmark : Delimiters.opens d.lineMark (input ++ after) = Delimiters.opens d.lineMark input :=
    Delimiters.opens_append_eq hline hends hne after
  cases h with
  | openBlock hm hstop hin => exact .openBlock hm hstop (by rw [hin, List.append_assoc])
  | line hm hb hl hnl hin =>
    exact .line hm (hstart.trans hb) (hmark.trans hl) hnl (by rw [hin, List.append_assoc]; rfl)
  | lastLine hm hb hl hnl => exact absurd (hends.newline_mem hne) hnl
  | copy hm hb hl hin => exact .copy hm (hstart.trans hb) (hmark.trans hl) (by rw [hin]; rfl)
  | closeBlock hm hstop hin => exact .closeBlock hm hstop (by rw [hin, List.append_assoc])
  | skip hm he hin =>
    refine .skip hm ?_ (by rw [hin]; rfl)
    rw [Bool.eq_false_iff]
    exact fun hlong => hmode (mode_of_reaches hm he hlong)
  | copyLiteral hm hin => exact .copyLiteral hm (by rw [hin]; rfl)

/-- **A run over two texts is a run over the first and then over the second**, where the first ends
a line and leaves no comment open. -/
theorem run_append (hline : newline ∉ d.lineMark) (hblock : newline ∉ d.blockStart) (s : Scanner)
    (bytes after : List UInt8) (hends : EndsLine bytes)
    (hmode : (run d s bytes).mode ≠ .comment) :
    run d s (bytes ++ after) = run d (run d s bytes) after := by
  fun_induction run d s bytes with
  | case1 s => rfl
  | case2 s b bs ih =>
    have hmove : Moves d s (b :: bs) _ _ := step_moves d s b bs
    have hmode' : (run d s (b :: bs)).mode ≠ .comment := by
      rw [run_cons]
      exact hmode
    have happend : Moves d s (b :: (bs ++ after)) _ (_ ++ after) :=
      hmove.append hline hblock hends hmode' after
    rw [List.cons_append, run_cons, happend.step_eq]
    exact ih (hends.of_suffix hmove.suffix) hmode

end Scanner

theorem endsLine_ofString {text : String} (h : text = "" ∨ text.toList.getLast? = some '\n') :
    EndsLine (Utf8.ofString text) := by
  rcases h with rfl | h
  · exact .inl rfl
  · obtain ⟨front, hfront⟩ := List.getLast?_eq_some_iff.mp h
    refine .inr ?_
    unfold Utf8.ofString
    rw [hfront, Utf8.encode_append]
    exact List.getLast?_concat

/-- **Where a line ends in code, a source can be cut**: the text behind it is stripped as if it
stood alone. -/
theorem strip_append (l : Language) (hline : '\n' ∉ l.lineMark.toList)
    (hblock : '\n' ∉ l.blockStart.toList) (a b : String)
    (hends : a = "" ∨ a.toList.getLast? = some '\n') (hcode : (scan a l).mode = .code) :
    strip (a ++ b) l =
      ⟨(strip a l).text ++ (strip b l).text, (strip a l).removed + (strip b l).removed⟩ := by
  have hline' : newline ∉ l.delimiters.lineMark := fun h => hline (Utf8.mem_of_newline_mem h)
  have hblock' : newline ∉ l.delimiters.blockStart := fun h => hblock (Utf8.mem_of_newline_mem h)
  have hrun : scan (a ++ b) l = Scanner.run l.delimiters (scan a l) (Utf8.ofString b) := by
    unfold scan
    rw [Utf8.ofString_append]
    refine Scanner.run_append hline' hblock' _ _ _ (endsLine_ofString hends) ?_
    show (scan a l).mode ≠ .comment
    rw [hcode]
    exact Mode.noConfusion
  obtain ⟨ts, hts⟩ := exists_splits l.delimiters (Utf8.ofString b)
  obtain ⟨houtput, hremoved⟩ := hts.run_eq (scan a l).removed (scan a l).kept
  rw [← hcode] at houtput hremoved
  rw [← hrun] at houtput hremoved
  obtain ⟨hout, hcount⟩ := hts.scan_eq
  have htext : (strip (a ++ b) l).text = (strip a l).text ++ (strip b l).text := by
    apply Utf8.ofString_inj
    rw [Utf8.ofString_append, ofString_strip_text, ofString_strip_text, ofString_strip_text,
      houtput, hout]
    rfl
  have hcounts : (strip (a ++ b) l).removed = (strip a l).removed + (strip b l).removed := by
    show (scan (a ++ b) l).removed = (scan a l).removed + (scan b l).removed
    rw [hremoved, hcount]
  calc strip (a ++ b) l = ⟨(strip (a ++ b) l).text, (strip (a ++ b) l).removed⟩ := rfl
    _ = _ := by rw [htext, hcounts]

/-- comments, a literal and an end of a block comment before the cut, and the same after it -/
theorem strip_append_c :
    (scan "x/*\n*/\"//\"// y\n" Language.builtin[0]).mode = .code ∧
    strip ("x/*\n*/\"//\"// y\n" ++ "*/ '\"'/**/z//") Language.builtin[0] =
      ⟨"x\"//\"\n" ++ "*/ '\"'z", 4⟩ := by
  have hcode : (scan "x/*\n*/\"//\"// y\n" Language.builtin[0]).mode = .code := by decide +kernel
  refine ⟨hcode, ?_⟩
  have happend := strip_append Language.builtin[0] (by decide) (by decide) _ "*/ '\"'/**/z//"
    (.inr (by decide)) hcode
  have hfirst : strip "x/*\n*/\"//\"// y\n" Language.builtin[0] = ⟨"x\"//\"\n", 2⟩ := by
    decide +kernel
  have hsecond : strip "*/ '\"'/**/z//" Language.builtin[0] = ⟨"*/ '\"'z", 2⟩ := by decide +kernel
  rw [happend, hfirst, hsecond]
  rfl

end CommentFree
