import CommentFree.Proofs.Append

/-!
# What a comment says does not matter

Two sources that differ only in the text of one comment are stripped alike (`strip_body`).  The
runs over them get out of step inside the comment, but they enter and leave it in one state:

* `Moves.within`         a move that does not go beyond some point does not depend on what stands
                         behind it: a delimiter that reached over the point would take it along;
* `Reaches.eq_run`       so a run that comes by that point is there what a run over the front alone
                         is at its end;
* `strip_of_reads`       a token that is met in code adds what it keeps, and nothing else.
-/

namespace CommentFree

namespace Scanner

/-- a run from one state comes by another one; with each state stand the bytes still to scan -/
inductive Reaches (d : Delimiters) : Scanner → List UInt8 → Scanner → List UInt8 → Prop
  | here {s : Scanner} {input : List UInt8} : Reaches d s input s input
  | step {s s' : Scanner} {b : UInt8} {bs rest : List UInt8}
      (h : Reaches d (step d s b bs).1 (step d s b bs).2 s' rest) : Reaches d s (b :: bs) s' rest

variable {d : Delimiters} {s s' : Scanner} {input rest : List UInt8}

theorem Reaches.suffix (h : Reaches d s input s' rest) : rest <:+ input := by
  induction h with
  | here => exact List.suffix_refl _
  | @step s s' b bs rest h ih => exact ih.trans (step_moves d s b bs).suffix

theorem Reaches.run_eq (h : Reaches d s input s' rest) : run d s input = run d s' rest := by
  induction h with
  | here => rfl
  | @step s s' b bs rest h ih => rw [run_cons, ih]

theorem opens_front {mark front : List UInt8} (back : List UInt8)
    (h : Delimiters.opens mark (front ++ back) = false) : Delimiters.opens mark front = false := by
  rw [Bool.eq_false_iff] at h ⊢
  intro hfront
  obtain ⟨hne, hpre⟩ := Delimiters.opens_iff_isPrefix.mp hfront
  exact h (Delimiters.opens_iff_isPrefix.mpr ⟨hne, hpre.trans (List.prefix_append _ _)⟩)

/-- a move that leaves all of `back` to scan is made without it, too -/
theorem Moves.within {front left back : List UInt8} (hmark : newline ∉ d.lineMark)
    (h : Moves d s (front ++ back) s' (left ++ back)) : Moves d s front s' left := by
  have hcancel : ∀ taken : List UInt8, front ++ back = taken ++ (left ++ back) →
      front = taken ++ left := by
    intro taken hin
    rw [← List.append_assoc] at hin
    exact List.append_cancel_right hin
  generalize hleft : left ++ back = rest at h
  cases h with
  | openBlock hm hne hin => exact .openBlock hm hne (hcancel _ (hleft ▸ hin))
  | @line text rest hm hb hl hnl hin =>
    have hfront : front = (text ++ [newline]) ++ left := by
      apply hcancel
      rw [hin, ← hleft]
      simp
    have hends : EndsLine (text ++ [newline]) := .inr List.getLast?_concat
    refine .line hm (opens_front back hb) ?_ hnl (by rw [hfront]; simp)
    -- the mark stands before the newline, whatever comes behind it
    rw [hfront, List.append_assoc, Delimiters.opens_append_eq hmark hends (by simp)] at hl
    rw [hfront, Delimiters.opens_append_eq hmark hends (by simp)]
    exact hl
  | lastLine hm hb hl hnl =>
    obtain ⟨rfl, rfl⟩ := List.append_eq_nil_iff.mp hleft
    rw [List.append_nil] at hb hl hnl
    exact .lastLine hm hb hl hnl
  | @copy b rest hm hb hl hin =>
    exact .copy hm (opens_front back hb) (opens_front back hl) (hcancel [b] (hleft ▸ hin))
  | closeBlock hm hne hin => exact .closeBlock hm hne (hcancel _ (hleft ▸ hin))
  | @skip b rest hm he hin =>
    exact .skip hm (opens_front back he) (hcancel [b] (hleft ▸ hin))
  | @copyLiteral q e b rest hm hin => exact .copyLiteral hm (hcancel [b] (hleft ▸ hin))

/-- where a run comes by the end of `front`, it has become what it is after `front` alone -/
theorem Reaches.eq_run {front back : List UInt8} (hmark : newline ∉ d.lineMark)
    (h : Reaches d s (front ++ back) s' back) : s' = run d s front := by
  generalize hin : front ++ back = input at h
  induction h generalizing front with
  | here =>
    obtain rfl : front = [] := List.append_left_eq_self.mp hin
    rw [run_nil]
  | @step s s' b bs rest h ih =>
    obtain ⟨left, hleft⟩ := h.suffix
    have hmove : Moves d s (front ++ rest) (Scanner.step d s b bs).1 (left ++ rest) := by
      rw [hin, hleft]
      exact step_moves d s b bs
    have hwithin := hmove.within hmark
    obtain ⟨c, cs, rfl⟩ := hwithin.exists_cons
    rw [run_cons, hwithin.step_eq]
    exact ih hleft

end Scanner

/-! ## a token in the middle of a source -/

/-- the scan of `front ++ back` comes by the place where `back` begins, and is in code there -/
def CodeAt (l : Language) (front back : String) : Prop :=
  ∃ s, Scanner.Reaches l.delimiters .start (Utf8.ofString (front ++ back)) s (Utf8.ofString back) ∧
    s.mode = .code

/-- what stands in code behind `front` is scanned as if `front` had been a source by itself -/
theorem CodeAt.scan_eq {l : Language} {front back : String} (hmark : '\n' ∉ l.lineMark.toList)
    (h : CodeAt l front back) : (scan front l).mode = .code ∧
      scan (front ++ back) l = Scanner.run l.delimiters (scan front l) (Utf8.ofString back) := by
  obtain ⟨s, hreaches, hmode⟩ := h
  have hrun : scan (front ++ back) l = _ := hreaches.run_eq
  have hmark' : newline ∉ l.delimiters.lineMark := fun h => hmark (Utf8.mem_of_newline_mem h)
  rw [Utf8.ofString_append] at hreaches
  obtain rfl : s = scan front l := hreaches.eq_run hmark'
  exact ⟨hmode, hrun⟩

/-- a token met in code adds what it keeps between what is left of the texts around it -/
theorem strip_of_reads {l : Language} {front back rest : String} {t : Token}
    (hmark : '\n' ∉ l.lineMark.toList) (hcode : CodeAt l front back)
    (hread : Reads l.delimiters (Utf8.ofString back) t (Utf8.ofString rest)) :
    Utf8.ofString (strip (front ++ back) l).text =
        (scan front l).output ++ (t.kept ++ (scan rest l).output) ∧
      (strip (front ++ back) l).removed =
        (scan front l).removed + (scan rest l).removed + t.isComment.toNat := by
  obtain ⟨hmode, hscan⟩ := hcode.scan_eq hmark
  obtain ⟨ts, hts⟩ := exists_splits l.delimiters (Utf8.ofString rest)
  obtain ⟨hrest, hcount⟩ := hts.scan_eq
  obtain ⟨houtput, hremoved⟩ :=
    (Splits.cons hread hts).run_eq (scan front l).removed (scan front l).kept
  rw [← hmode] at houtput hremoved
  constructor
  · rw [ofString_strip_text, hscan, houtput, hrest, List.flatMap_cons]
    rfl
  · show (scan (front ++ back) l).removed = _
    rw [hscan, hremoved, hcount, List.countP_cons]
    cases t.isComment with
    | true => simp; omega
    | false => simp

/-- tokens that keep the same and are counted alike may stand for each other -/
theorem strip_congr_token {l : Language} {front back back' rest : String} {t t' : Token}
    (hmark : '\n' ∉ l.lineMark.toList) (hcode : CodeAt l front back)
    (hcode' : CodeAt l front back')
    (hread : Reads l.delimiters (Utf8.ofString back) t (Utf8.ofString rest))
    (hread' : Reads l.delimiters (Utf8.ofString back') t' (Utf8.ofString rest))
    (hkept : t.kept = t'.kept) (hcomment : t.isComment = t'.isComment) :
    strip (front ++ back) l = strip (front ++ back') l := by
  obtain ⟨htext, hremoved⟩ := strip_of_reads hmark hcode hread
  obtain ⟨htext', hremoved'⟩ := strip_of_reads hmark hcode' hread'
  rw [hkept, ← htext'] at htext
  rw [hcomment, ← hremoved'] at hremoved
  calc strip (front ++ back) l
      = ⟨(strip (front ++ back) l).text, (strip (front ++ back) l).removed⟩ := rfl
    _ = _ := by rw [Utf8.ofString_inj htext, hremoved]

/-! ## comments -/

/-- behind `body` stands the first `stop` of all, counted in bytes -/
def EndsFirst (stop body : String) : Prop :=
  ∀ n < (Utf8.ofString body).length, ¬ Utf8.ofString stop <+: (Utf8.ofString (body ++ stop)).drop n

instance (stop body : String) : Decidable (EndsFirst stop body) :=
  inferInstanceAs (Decidable (∀ n < _, ¬ _ <+: _))

/-- a block comment is read through its first end -/
theorem reads_block {l : Language} {body : String} (hstart : l.blockStart ≠ "")
    (hstop : l.blockEnd ≠ "") (hfirst : EndsFirst l.blockEnd body) (rest : String) :
    ∃ text, Reads l.delimiters (Utf8.ofString (l.blockStart ++ (body ++ (l.blockEnd ++ rest))))
      (.block text) (Utf8.ofString rest) := by
  have hne : ∀ {mark : String}, mark ≠ "" → Utf8.ofString mark ≠ [] := by
    intro mark hmark hnil
    exact hmark (Utf8.ofString_inj hnil)
  have hin : Utf8.ofString (body ++ (l.blockEnd ++ rest)) =
      Utf8.ofString body ++ (l.delimiters.blockEnd ++ Utf8.ofString rest) := by
    rw [Utf8.ofString_append, Utf8.ofString_append]
    rfl
  refine ⟨_, .block (hne hstart) (Utf8.ofString_append _ _) (.closed (hne hstop) hin ?_)⟩
  intro n hn hpre
  apply hfirst n hn
  have hlong : (Utf8.ofString body ++ (l.delimiters.blockEnd ++ Utf8.ofString rest)).drop n =
      (Utf8.ofString (body ++ l.blockEnd)).drop n ++ Utf8.ofString rest := by
    rw [Utf8.ofString_append, ← List.append_assoc, List.drop_append_of_le_length]
    · rfl
    · rw [List.length_append]
      omega
  rw [hin, hlong] at hpre
  refine List.prefix_of_prefix_length_le hpre (List.prefix_append _ _) ?_
  rw [Utf8.ofString_append, List.length_drop, List.length_append]
  show (Utf8.ofString l.blockEnd).length ≤ _
  omega

/-- a line comment is read through its newline -/
theorem reads_line {l : Language} {body : String} (hmark : '\n' ∉ l.lineMark.toList)
    (hline : l.lineMark ≠ "") (hbody : '\n' ∉ body.toList) {rest : String}
    (hblock : Delimiters.opens l.delimiters.blockStart
      (Utf8.ofString (l.lineMark ++ (body ++ ("\n" ++ rest)))) = false) :
    ∃ text, Reads l.delimiters (Utf8.ofString (l.lineMark ++ (body ++ ("\n" ++ rest))))
      (.line text true) (Utf8.ofString rest) := by
  have hne : Utf8.ofString l.lineMark ≠ [] := fun hnil => hline (Utf8.ofString_inj hnil)
  refine ⟨Utf8.ofString (l.lineMark ++ body), .line hblock ?_ (.ended ?_ ?_)⟩
  · rw [Utf8.ofString_append]
    exact Delimiters.opens_append hne _
  · intro hnl
    have hmem := Utf8.mem_of_newline_mem hnl
    rw [String.toList_append, List.mem_append] at hmem
    rcases hmem with hmem | hmem
    · exact hmark hmem
    · exact hbody hmem
  · rw [Utf8.ofString_append, Utf8.ofString_append, Utf8.ofString_append, Utf8.ofString_append,
      List.append_assoc]
    rfl

/-- **The text of a comment is never looked at but for its end.**  Two sources in which a block
comment, or a line comment, begins at the same place in code and goes on alike behind it are
stripped to the same text, with the same number of comments. -/
theorem strip_body (l : Language) (hmark : '\n' ∉ l.lineMark.toList) (a b b' c : String) :
    (l.blockStart ≠ "" → l.blockEnd ≠ "" → EndsFirst l.blockEnd b → EndsFirst l.blockEnd b' →
      CodeAt l a (l.blockStart ++ (b ++ (l.blockEnd ++ c))) →
      CodeAt l a (l.blockStart ++ (b' ++ (l.blockEnd ++ c))) →
      strip (a ++ (l.blockStart ++ (b ++ (l.blockEnd ++ c)))) l =
        strip (a ++ (l.blockStart ++ (b' ++ (l.blockEnd ++ c)))) l) ∧
    (l.lineMark ≠ "" → '\n' ∉ b.toList → '\n' ∉ b'.toList →
      CodeAt l a (l.lineMark ++ (b ++ ("\n" ++ c))) →
      CodeAt l a (l.lineMark ++ (b' ++ ("\n" ++ c))) →
      Delimiters.opens l.delimiters.blockStart
        (Utf8.ofString (l.lineMark ++ (b ++ ("\n" ++ c)))) = false →
      Delimiters.opens l.delimiters.blockStart
        (Utf8.ofString (l.lineMark ++ (b' ++ ("\n" ++ c)))) = false →
      strip (a ++ (l.lineMark ++ (b ++ ("\n" ++ c)))) l =
        strip (a ++ (l.lineMark ++ (b' ++ ("\n" ++ c)))) l) := by
  constructor
  · intro hstart hstop hfirst hfirst' hcode hcode'
    obtain ⟨text, hread⟩ := reads_block hstart hstop hfirst c
    obtain ⟨text', hread'⟩ := reads_block hstart hstop hfirst' c
    exact strip_congr_token hmark hcode hcode' hread hread' rfl rfl
  · intro hline hbody hbody' hcode hcode' hblock hblock'
    obtain ⟨text, hread⟩ := reads_line hmark hline hbody hblock
    obtain ⟨text', hread'⟩ := reads_line hmark hline hbody' hblock'
    exact strip_congr_token hmark hcode hcode' hread hread' rfl rfl

theorem codeAt_c (back : String) : CodeAt Language.builtin[0] "x" back := by
  refine ⟨⟨.code, 0, Utf8.ofString "x"⟩, ?_, rfl⟩
  rw [Utf8.ofString_append]
  exact .step .here

/-- a lone quote, and a text with all that could be taken for the start of something -/
theorem strip_body_c :
    EndsFirst "*/" "\"" ∧ EndsFirst "*/" "'\\ // /*" ∧
    strip "x/*\"*/\"y" Language.builtin[0] = strip "x/*'\\ // /**/\"y" Language.builtin[0] ∧
    strip "x//\"\n\"y" Language.builtin[0] = strip "x//'\\ // /*\n\"y" Language.builtin[0] := by
  have hfirst : EndsFirst "*/" "\"" := by decide +kernel
  have hfirst' : EndsFirst "*/" "'\\ // /*" := by decide +kernel
  obtain ⟨hblock, hline⟩ :=
    strip_body Language.builtin[0] (by decide) "x" "\"" "'\\ // /*" "\"y"
  refine ⟨hfirst, hfirst', ?_, ?_⟩
  · exact hblock (by decide) (by decide) hfirst hfirst' (codeAt_c _) (codeAt_c _)
  · exact hline (by decide) (by decide) (by decide) (codeAt_c _) (codeAt_c _) rfl rfl

end CommentFree
