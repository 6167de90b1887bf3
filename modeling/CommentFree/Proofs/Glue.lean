import CommentFree.Proofs.Rescan

/-!
# Cuts that put a delimiter together

A block comment goes without leaving anything, so the bytes before it and those after it become
neighbours.  In `//**/*` a slash is followed by a comment and a star, and what is left is the start
of a comment.  `Glues` says that a source has such a place: code right before a block comment begins
the start of a block comment, and what is kept after the comment completes it.

For languages whose line mark is one byte and whose start of a block comment has neither quotes nor
newlines (`Delimiters.Bare`) this is the only way in which stripping can leave a comment:

* `Splits.prefix_or_split`   a text found in what is kept stands in the source, or around a cut;
* `settled_iff_not_glues`    so the tokens are settled exactly if no cut puts a start together.
-/

namespace CommentFree

/-- cutting a block comment out puts the start of another one together, which stood on both sides
of it -/
inductive Glues (d : Delimiters) (ts : List Token) : Prop
  | mk {front back : List Token} {begun text missing : List UInt8}
      (hts : ts = front ++ (begun.map Token.plain ++ Token.block text :: back))
      (hstart : d.blockStart = begun ++ missing) (hbegun : begun ≠ []) (hmissing : missing ≠ [])
      (hback : missing <+: back.flatMap Token.kept) : Glues d ts

theorem Glues.cons {d : Delimiters} {ts : List Token} (h : Glues d ts) (t : Token) :
    Glues d (t :: ts) := by
  cases h with
  | @mk front back begun text missing hts hstart hbegun hmissing hback =>
    have hts' : t :: ts = (t :: front) ++ (begun.map Token.plain ++ Token.block text :: back) := by
      rw [hts, List.cons_append]
    exact ⟨hts', hstart, hbegun, hmissing, hback⟩

/-- delimiters of which only the start of a block comment can be put together by a cut, and by the
cut of a block comment only -/
structure Delimiters.Bare (d : Delimiters) : Prop where
  lineMark_length : d.lineMark.length ≤ 1
  lineMark : newline ∉ d.lineMark
  blockStart : newline ∉ d.blockStart
  quote : ∀ q : Quote, q.byte ∉ d.blockStart

/-! ## line marks -/

theorem Splits.opens_lineMark {d : Delimiters} (hd : d.Bare) {input : List UInt8} {ts : List Token}
    (h : Splits d input ts) : Delimiters.opens d.lineMark (ts.flatMap Token.kept) = false := by
  by_cases hnil : d.lineMark = []
  · exact Delimiters.opens_eq_false (.inl hnil)
  obtain ⟨b, hb⟩ : ∃ b, d.lineMark = [b] :=
    List.length_eq_one_iff.mp
      (Nat.le_antisymm hd.lineMark_length (List.length_pos_iff.mpr hnil))
  have hnl : b ≠ newline := by
    rintro rfl
    exact hd.lineMark (hb ▸ List.mem_cons_self)
  -- a byte at the front of both inputs is a mark in both or in none
  have hsame : ∀ {c : UInt8} {x : List UInt8} (y : List UInt8),
      Delimiters.opens d.lineMark (c :: x) = false → Delimiters.opens d.lineMark (c :: y) = false := by
    intro c x y h
    rw [Bool.eq_false_iff, Ne, Delimiters.opens_iff_isPrefix, hb, List.cons_prefix_cons] at h ⊢
    rintro ⟨-, rfl, -⟩
    exact h ⟨List.cons_ne_nil _ _, rfl, List.nil_prefix⟩
  induction h with
  | nil => exact Delimiters.opens_nil _
  | cons hread hrest ih =>
    cases hread with
    | block => exact ih
    | line _ _ htext =>
      rw [hb]
      exact Delimiters.opens_eq_false (.inr (hrest.not_isPrefix_line htext hnl []))
    | literal _ hl hin => exact hsame _ (hin ▸ hl)
    | plain _ hl hin => exact hsame _ (hin ▸ hl)

/-! ## starts of block comments -/

/-- a text without quotes and newlines that is found in what is kept stands in the source as well, or
it stood on both sides of a block comment -/
theorem Splits.prefix_or_split {d : Delimiters} {found : List UInt8} (hnl : newline ∉ found)
    (hq : ∀ q : Quote, q.byte ∉ found) {input : List UInt8} {ts : List Token}
    (h : Splits d input ts) (hfound : found <+: ts.flatMap Token.kept) :
    found <+: input ∨ ∃ begun missing text back, found = begun ++ missing ∧ missing ≠ [] ∧
      ts = begun.map Token.plain ++ Token.block text :: back ∧
      missing <+: back.flatMap Token.kept := by
  induction found generalizing input ts with
  | nil => exact .inl List.nil_prefix
  | cons b found ih =>
    cases h with
    | nil => exact nomatch List.prefix_nil.mp hfound
    | cons hread hrest =>
      cases hread with
      | block => exact .inr ⟨[], _, _, _, rfl, List.cons_ne_nil _ _, rfl, hfound⟩
      | line _ _ htext =>
        have hb : b ≠ newline := fun h => hnl (h ▸ List.mem_cons_self)
        exact absurd hfound (hrest.not_isPrefix_line htext hb found)
      | @literal q =>
        obtain ⟨rfl, -⟩ := List.cons_prefix_cons.mp hfound
        exact absurd List.mem_cons_self (hq q)
      | plain _ _ hin =>
        obtain ⟨rfl, hnext⟩ := List.cons_prefix_cons.mp hfound
        rcases ih (fun h => hnl (List.mem_cons_of_mem b h))
          (fun q h => hq q (List.mem_cons_of_mem b h)) hrest hnext with
          h | ⟨begun, missing, text, back, rfl, hmissing, rfl, hback⟩
        · rw [hin]
          exact .inl (List.cons_prefix_cons.mpr ⟨rfl, h⟩)
        · exact .inr ⟨b :: begun, missing, text, back, rfl, hmissing, rfl, hback⟩

theorem Splits.glues {d : Delimiters} (hd : d.Bare) {input : List UInt8} {ts : List Token}
    (h : Splits d input ts) (hopens : Delimiters.opens d.blockStart (ts.flatMap Token.kept) = true) :
    Glues d ts := by
  induction h with
  | nil =>
    rw [List.flatMap_nil, Delimiters.opens_nil] at hopens
    exact nomatch hopens
  | @cons input rest t ts hread hrest ih =>
    obtain ⟨hne, hpre⟩ := Delimiters.opens_iff_isPrefix.mp hopens
    have hcut : Delimiters.opens d.blockStart input = false → (∀ text, t ≠ .block text) →
        Glues d (t :: ts) := by
      intro hshut hcode
      rcases (Splits.cons hread hrest).prefix_or_split hd.blockStart hd.quote hpre with
        h | ⟨begun, missing, text, back, hstart, hmissing, hts, hback⟩
      · rw [Delimiters.opens_iff_isPrefix.mpr ⟨hne, h⟩] at hshut
        exact nomatch hshut
      · have hfront : t :: ts = [] ++ (begun.map Token.plain ++ Token.block text :: back) := hts
        refine ⟨hfront, hstart, ?_, hmissing, hback⟩
        rintro rfl
        exact hcode text (List.cons.inj hts).1
    cases hread with
    | block => exact (ih hopens).cons _
    | line hb => exact hcut hb nofun
    | literal hb => exact hcut hb nofun
    | plain hb => exact hcut hb nofun

theorem flatMap_kept_plain (bytes : List UInt8) :
    (bytes.map Token.plain).flatMap Token.kept = bytes := by
  induction bytes with
  | nil => rfl
  | cons b bytes ih => exact congrArg (List.cons b) ih

theorem Settled.not_glues {d : Delimiters} {ts : List Token} (h : Settled d ts) : ¬ Glues d ts := by
  rintro ⟨hts, hstart, hbegun, -, hback⟩
  have hshut := (h _ ⟨_, hts.symm⟩).1
  rw [List.flatMap_append, flatMap_kept_plain, hstart, Bool.eq_false_iff, Ne,
    Delimiters.opens_iff_isPrefix] at hshut
  refine hshut ⟨?_, (List.prefix_append_right_inj _).mpr hback⟩
  intro hnil
  exact hbegun (List.append_eq_nil_iff.mp hnil).1

theorem settled_iff_not_glues {d : Delimiters} (hd : d.Bare) {input : List UInt8} {ts : List Token}
    (h : Splits d input ts) : Settled d ts ↔ ¬ Glues d ts := by
  refine ⟨Settled.not_glues, fun hglues => ?_⟩
  induction h with
  | nil => exact settled_nil d
  | cons hread hrest ih =>
    have hall := Splits.cons hread hrest
    refine settled_cons.mpr ⟨⟨?_, hall.opens_lineMark hd⟩, ih fun h => hglues (h.cons _)⟩
    rw [Bool.eq_false_iff]
    intro hopens
    exact hglues (hall.glues hd hopens)

/-! ## built-in languages -/

theorem Language.bare_builtin {l : Language} (hl : l ∈ Language.builtin)
    (hname : l.name ∈ ["ruby", "perl", "markup", "css"]) : l.delimiters.Bare := by
  have hmarks : ∀ l ∈ Language.builtin, l.name ∈ ["ruby", "perl", "markup", "css"] →
      l.delimiters.lineMark.length ≤ 1 ∧ newline ∉ l.delimiters.lineMark ∧
      newline ∉ l.delimiters.blockStart ∧ Quote.double.byte ∉ l.delimiters.blockStart ∧
      Quote.single.byte ∉ l.delimiters.blockStart := by decide
  obtain ⟨hlength, hline, hblock, hdouble, hsingle⟩ := hmarks l hl hname
  refine ⟨hlength, hline, hblock, fun q => ?_⟩
  cases q with
  | double => exact hdouble
  | single => exact hsingle

/-- **What stripping leaves of ruby, perl, markup and css has no comments, unless a cut has put the
start of one together.** -/
theorem strip_strip_block (l : Language) (hl : l ∈ Language.builtin)
    (hname : l.name ∈ ["ruby", "perl", "markup", "css"]) (source : String) (ts : List Token)
    (hts : Splits l.delimiters (Utf8.ofString source) ts) :
    (strip (strip source l).text l).removed = 0 ↔ ¬ Glues l.delimiters ts :=
  (removed_strip_strip_eq_zero hts).trans (settled_iff_not_glues (Language.bare_builtin hl hname) hts)

/-- a slash before a comment and a star after the next character are no start -/
theorem strip_strip_block_css : ∃ ts,
    Splits Language.builtin[6].delimiters (Utf8.ofString "//*a*/ *b") ts ∧
      strip "//*a*/ *b" Language.builtin[6] = ⟨"/ *b", 1⟩ ∧ ¬ Glues Language.builtin[6].delimiters ts := by
  obtain ⟨ts, hts⟩ := exists_splits Language.builtin[6].delimiters (Utf8.ofString "//*a*/ *b")
  have hstrip : strip "//*a*/ *b" Language.builtin[6] = ⟨"/ *b", 1⟩ := by decide +kernel
  have hagain : (strip "/ *b" Language.builtin[6]).removed = 0 := by decide +kernel
  refine ⟨ts, hts, hstrip, ?_⟩
  refine (strip_strip_block Language.builtin[6] (by decide) (by decide) _ ts hts).mp ?_
  rw [hstrip]
  exact hagain

/-- in each of the four there is a source of which stripping leaves a comment -/
theorem strip_leaves_block :
    (strip (strip "==begin=endbegin" Language.builtin[3]).text Language.builtin[3]).removed = 1 ∧
    (strip (strip "==pod=cutpod" Language.builtin[4]).text Language.builtin[4]).removed = 1 ∧
    (strip (strip "<<!---->!--" Language.builtin[5]).text Language.builtin[5]).removed = 1 ∧
    (strip (strip "//**/*" Language.builtin[6]).text Language.builtin[6]).removed = 1 := by
  refine ⟨?_, ?_, ?_, ?_⟩ <;> decide +kernel

end CommentFree
