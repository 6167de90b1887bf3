import CommentFree.Proofs.Files
import CommentFree.Proofs.Rescan
import Mathlib.Data.List.Infix

/-!
# Where stripping once is enough

A second pass has something to do only if a cut has put a delimiter together (`Settled`).  That
cannot happen in two kinds of languages (`Language.Steady`):

* line comments only, with a mark on one line.  Up to the next newline the stripped text goes on as
  the source does (`Splits.sameLine`), so a mark found in the one stands in the other;
* the marks `//` and `/*`.  The byte before a cut is never a slash, because with the slash that
  begins the comment it would have opened a line comment before (`Splits.shut_slashes`).

A file that was replaced therefore has no comments when it is stripped again
(`Ends.text_of_replaced`, `Ends.eq_noComments`).
-/

namespace CommentFree

open Memory (exec)

/-! ## line comments only -/

/-- up to its next newline or its end, a text is the front of a source -/
def SameLine (source text : List UInt8) : Prop :=
  ∃ shared after, text = shared ++ after ∧ shared <+: source ∧
    (after = [] ∨ ∃ rest, after = newline :: rest)

theorem SameLine.append {source text : List UInt8} (h : SameLine source text) (bytes : List UInt8) :
    SameLine (bytes ++ source) (bytes ++ text) := by
  obtain ⟨shared, after, rfl, hshared, hafter⟩ := h
  refine ⟨bytes ++ shared, after, ?_, ?_, hafter⟩
  · rw [List.append_assoc]
  · exact (List.prefix_append_right_inj bytes).mpr hshared

/-- what stands on one line at the front of the text stands at the front of the source -/
theorem SameLine.begins {source text mark : List UInt8} (h : SameLine source text)
    (hmark : newline ∉ mark) (hpre : mark <+: text) : mark <+: source := by
  obtain ⟨shared, after, rfl, hshared, hafter⟩ := h
  refine List.IsPrefix.trans ?_ hshared
  -- a mark that is longer than what is shared would have the newline in it
  rcases List.prefix_or_prefix_of_prefix hpre (List.prefix_append shared after) with h | ⟨more, rfl⟩
  · exact h
  · have hmore : more <+: after := (List.prefix_append_right_inj shared).mp hpre
    cases more with
    | nil => rw [List.append_nil]
    | cons b more =>
      rcases hafter with rfl | ⟨rest, rfl⟩
      · exact nomatch List.prefix_nil.mp hmore
      · obtain ⟨rfl, -⟩ := List.cons_prefix_cons.mp hmore
        exact absurd (List.mem_append_right shared List.mem_cons_self) hmark

theorem Splits.sameLine {d : Delimiters} (hblock : d.blockStart = []) {input : List UInt8}
    {ts : List Token} (h : Splits d input ts) : SameLine input (ts.flatMap Token.kept) := by
  induction h with
  | nil => exact ⟨[], [], rfl, List.nil_prefix, .inl rfl⟩
  | cons hread hrest ih =>
    have hin := hread.eq_append
    cases hread with
    | block hne => exact absurd hblock hne
    | line _ _ htext =>
      cases htext with
      | ended => exact ⟨[], _, rfl, List.nil_prefix, .inr ⟨_, rfl⟩⟩
      | last => exact ⟨[], _, rfl, List.nil_prefix, .inl (hrest.kept_eq_nil rfl)⟩
    | literal =>
      rw [hin]
      exact ih.append _
    | plain =>
      rw [hin]
      exact ih.append _

theorem Splits.shut_line {d : Delimiters} (hblock : d.blockStart = []) (hmark : newline ∉ d.lineMark)
    {input : List UInt8} {ts : List Token} (h : Splits d input ts) :
    d.Shut (ts.flatMap Token.kept) := by
  refine ⟨Delimiters.opens_eq_false (.inl hblock), ?_⟩
  rw [Bool.eq_false_iff, Ne, Delimiters.opens_iff_isPrefix]
  rintro ⟨hne, hpre⟩
  have hopens : Delimiters.opens d.lineMark input = true :=
    Delimiters.opens_iff_isPrefix.mpr ⟨hne, (h.sameLine hblock).begins hmark hpre⟩
  cases h with
  | nil => exact hne (List.prefix_nil.mp hpre)
  | cons hread hrest =>
    cases hread with
    | block hstart => exact hstart hblock
    | line _ _ htext =>
      obtain ⟨b, mark, hb⟩ := List.exists_cons_of_ne_nil hne
      rw [hb] at hpre hmark
      have hnl : b ≠ newline := fun h => hmark (h ▸ List.mem_cons_self)
      exact hrest.not_isPrefix_line htext hnl mark hpre
    | literal _ hl => exact absurd (hopens.symm.trans hl) Bool.noConfusion
    | plain _ hl => exact absurd (hopens.symm.trans hl) Bool.noConfusion

/-! ## two slashes, or a slash and a star -/

def slash : UInt8 := 47

def star : UInt8 := 42

/-- the marks `//` and `/*` -/
structure Delimiters.Slashes (d : Delimiters) : Prop where
  lineMark : d.lineMark = [slash, slash]
  blockStart : d.blockStart = [slash, star]

theorem Delimiters.Slashes.shut_iff {d : Delimiters} (hd : d.Slashes) {input : List UInt8} :
    d.Shut input ↔ ∀ b ∈ [slash, star], ¬ [slash, b] <+: input := by
  have hopens (b : UInt8) :
      Delimiters.opens [slash, b] input = false ↔ ¬ [slash, b] <+: input := by
    rw [Bool.eq_false_iff, Ne, Delimiters.opens_iff_isPrefix]
    simp
  unfold Delimiters.Shut
  rw [hd.lineMark, hd.blockStart, hopens, hopens]
  simp [and_comm]

/-- a slash in the source and a byte kept right behind it were neighbours already -/
theorem Splits.prefix_of_slash {d : Delimiters} (hd : d.Slashes) {input : List UInt8}
    {ts : List Token} (h : Splits d input ts) (hshut : d.Shut (slash :: input)) {b : UInt8}
    (hpre : [b] <+: ts.flatMap Token.kept) : [b] <+: input := by
  cases h with
  | nil => exact hpre
  | cons hread hrest =>
    -- a comment that begins with a slash would make `//` with the one before
    have hslash : ∀ c, ¬ [slash, c] <+: input := by
      intro c hc
      refine hd.shut_iff.mp hshut slash (by simp) ?_
      exact List.cons_prefix_cons.mpr ⟨rfl, (List.prefix_append [slash] [c]).trans hc⟩
    cases hread with
    | block hne hin =>
      rw [hin, hd.blockStart] at hslash
      exact absurd (List.prefix_append _ _) (hslash star)
    | line hb hl =>
      rw [hd.lineMark] at hl
      exact absurd (Delimiters.opens_iff_isPrefix.mp hl).2 (hslash slash)
    | literal hb hl hin =>
      obtain ⟨rfl, -⟩ := List.cons_prefix_cons.mp hpre
      rw [hin]
      exact List.prefix_append [_] _
    | plain hb hl hin =>
      obtain ⟨rfl, -⟩ := List.cons_prefix_cons.mp hpre
      rw [hin]
      exact List.prefix_append [_] _

theorem Splits.shut_slashes {d : Delimiters} (hd : d.Slashes) {input : List UInt8}
    {ts : List Token} (h : Splits d input ts) : d.Shut (ts.flatMap Token.kept) := by
  induction h with
  | nil => exact d.shut_nil
  | cons hread hrest ih =>
    refine hd.shut_iff.mpr fun b hb hpre => ?_
    cases hread with
    | block => exact hd.shut_iff.mp ih b hb hpre
    | line _ _ htext => exact hrest.not_isPrefix_line htext (by decide) [b] hpre
    | @literal q =>
      have hq : slash ≠ q.byte := by cases q <;> decide
      exact hq (List.cons_prefix_cons.mp hpre).1
    | plain hblock hline hin =>
      obtain ⟨rfl, hnext⟩ := List.cons_prefix_cons.mp hpre
      rw [hin] at hblock hline
      have hshut : d.Shut (slash :: _) := ⟨hblock, hline⟩
      refine hd.shut_iff.mp hshut b hb ?_
      exact List.cons_prefix_cons.mpr ⟨rfl, hrest.prefix_of_slash hd hshut hnext⟩

/-! ## steady languages -/

/-- line comments only, with a mark on one line, or the marks `//` and `/*` -/
def Language.Steady (l : Language) : Prop :=
  l.blockStart = "" ∧ '\n' ∉ l.lineMark.toList ∨ l.lineMark = "//" ∧ l.blockStart = "/*"

instance (l : Language) : Decidable l.Steady := inferInstanceAs (Decidable (_ ∨ _))

example : ∀ l ∈ Language.builtin, l.name ∈ ["c", "python", "shell", "php"] → l.Steady := by decide

/-- the newline byte stands in a text for a newline only -/
theorem Language.Steady.settled {l : Language} (hl : l.Steady) {input : List UInt8}
    {ts : List Token} (h : Splits l.delimiters input ts) : Settled l.delimiters ts := by
  rcases hl with ⟨hblock, hmark⟩ | ⟨hline, hblock⟩
  · have hblock' : l.delimiters.blockStart = [] := by
      show Utf8.ofString l.blockStart = []
      rw [hblock]
      rfl
    have hmark' : newline ∉ l.delimiters.lineMark := fun h => hmark (Utf8.mem_of_newline_mem h)
    exact Splits.settled_of_shut (fun _ _ => Splits.shut_line hblock' hmark') h
  · have hslashes : l.delimiters.Slashes := by
      refine ⟨?_, ?_⟩
      · show Utf8.ofString l.lineMark = _
        rw [hline]
        rfl
      · show Utf8.ofString l.blockStart = _
        rw [hblock]
        rfl
    exact Splits.settled_of_shut (fun _ _ => Splits.shut_slashes hslashes) h

theorem Language.Steady.strip_strip {l : Language} (hl : l.Steady) (source : String) :
    strip (strip source l).text l = ⟨(strip source l).text, 0⟩ := by
  obtain ⟨ts, hts⟩ := exists_splits l.delimiters (Utf8.ofString source)
  exact strip_eq_of_removed_eq_zero ((removed_strip_strip_eq_zero hts).mpr (hl.settled hts))

/-! ## sessions -/

variable {config : Config} {path : Path} {options : StripOptions} {s after : Memory}
  {result : Except Failure Report}

/-- after a replacement the file is there to be read, and there is an output to print to -/
theorem Ends.text_of_replaced {p : Path} {n : Nat}
    (h : Ends config path options s (.ok (.replaced p n), after)) :
    ∃ language source, Finds config path s language source ∧
      after.text path = .ok (strip source language).text ∧ after.failPrint = false := by
  cases h with
  | @replaced language source hfinds hfound hprint haccept hrename =>
    refine ⟨language, source, hfinds, Memory.text_store _ path _, ?_⟩
    exact (Memory.decided_flags s options config path source _).1.trans hprint

/-- the one end of a session that finds no comments and can print -/
theorem Ends.eq_noComments {language : Language} {source : String}
    (h : Ends config path options s (result, after))
    (hfinds : Finds config path s language source) (hfound : (strip source language).found = false)
    (hprint : s.failPrint = false) :
    result = .ok .noComments ∧ after = s.say "No comments found in the code.\n" := by
  have hclash : ∀ {language' source'}, Finds config path s language' source' →
      (strip source' language').found = true → False := by
    intro language' source' h hfound'
    obtain ⟨rfl, rfl⟩ := hfinds.unique h
    rw [hfound] at hfound'
    cases hfound'
  cases h with
  | unsupported h =>
    rw [hfinds.language] at h
    cases h
  | unreadable h =>
    rw [hfinds.source] at h
    cases h
  | unsaid _ _ hp =>
    rw [hprint] at hp
    cases hp
  | noComments => exact ⟨rfl, rfl⟩
  | unshown h hf | unreplaced h hf | replaced h hf | undiscarded h hf | discarded h hf =>
    exact (hclash h hf).elim

/-- **Stripping twice is stripping once** in a steady language, and a session on a file that was
just replaced finds no comments. -/
theorem strip_idempotent (l : Language) (hl : l.Steady) :
    (∀ source : String, strip (strip source l).text l = ⟨(strip source l).text, 0⟩) ∧
    ∀ (config : Config) (path p : Path) (options again : StripOptions) (s after : Memory) (n : Nat),
      Language.detect? config.registry path = some l →
      exec (stripFile config path options) s = (.ok (.replaced p n), after) →
      exec (stripFile config path again) after =
        (.ok .noComments, after.say "No comments found in the code.\n") := by
  refine ⟨hl.strip_strip, ?_⟩
  intro config path p options again s after n hdetect hrun
  have hends : Ends config path options s (.ok (.replaced p n), after) :=
    hrun ▸ stripFile_ends config path options s
  obtain ⟨language, source, hfinds, htext, hprint⟩ := hends.text_of_replaced
  obtain rfl : l = language := Option.some.inj (hdetect.symm.trans hfinds.language)
  have hfound : (strip (strip source l).text l).found = false := by
    rw [hl.strip_strip]
    rfl
  obtain ⟨hresult, hafter⟩ :=
    (stripFile_ends config path again after).eq_noComments ⟨hdetect, htext⟩ hfound hprint
  exact Prod.ext hresult hafter

/-- cuts on both sides of a slash, and a session on the file of `Memory.taken` -/
theorem strip_idempotent_c : Language.builtin[0].Steady ∧
    strip (strip "a/ /*b*//*c*// d\n" Language.builtin[0]).text Language.builtin[0] =
      ⟨"a/ / d\n", 0⟩ ∧
    ∃ after, exec (stripFile .default ⟨"a.c"⟩ ⟨true, .never⟩) .taken =
        (.ok (.replaced ⟨"a.c"⟩ 1), after) ∧
      exec (stripFile .default ⟨"a.c"⟩ ⟨false, .never⟩) after =
        (.ok .noComments, after.say "No comments found in the code.\n") := by
  have hsteady : Language.builtin[0].Steady := by decide
  obtain ⟨hstrip, hsession⟩ := strip_idempotent Language.builtin[0] hsteady
  have htext : (strip "a/ /*b*//*c*// d\n" Language.builtin[0]).text = "a/ / d\n" := by
    decide +kernel
  obtain ⟨after, hrun⟩ := exec_stripFile_taken ⟨true, .never⟩
  refine ⟨hsteady, ?_, after, hrun, ?_⟩
  · rw [hstrip, htext]
  · exact hsession _ _ _ _ _ _ _ _ finds_taken.language hrun

end CommentFree
