import CommentFree.Proofs.Reading
import Mathlib.Data.List.Basic

/-!
# Scanning a stripped text again

The stripped text is what the tokens of the source keep, one after the other.  Scanned again it
splits into what is left of these tokens (`Token.left?`), unless a delimiter opens at the front of
one of them: there the bytes after a cut have joined those before it.  So a second scan finds
nothing exactly if no delimiter opens at any of these places (`Settled`):

* `Reads.left`                   what is left of a token is read as a token again;
* `Splits.left`                  so a settled sequence is split into what is left of it;
* `Splits.settled`               a sequence whose rest splits without comments is settled;
* `removed_strip_strip_eq_zero`  both together, for a source;
* `Splits.settled_of_shut`       to see that a sequence is settled, look at its front only.
-/

namespace CommentFree

theorem Delimiters.opens_iff_isPrefix {delimiter input : List UInt8} :
    Delimiters.opens delimiter input = true ↔ delimiter ≠ [] ∧ delimiter <+: input := by
  rw [Delimiters.opens_iff]
  exact and_congr_right fun _ =>
    ⟨fun ⟨rest, h⟩ => ⟨rest, h.symm⟩, fun ⟨rest, h⟩ => ⟨rest, h.symm⟩⟩

theorem Delimiters.opens_nil (delimiter : List UInt8) : Delimiters.opens delimiter [] = false := by
  rw [Bool.eq_false_iff, Ne, Delimiters.opens_iff_isPrefix]
  rintro ⟨hne, hpre⟩
  exact hne (List.prefix_nil.mp hpre)

/-! ## without comments -/

/-- what was copied and counted before does not matter to a run over code -/
theorem Splits.run_eq {d : Delimiters} {input : List UInt8} {ts : List Token} (h : Splits d input ts)
    (n : Nat) (k : List UInt8) :
    (Scanner.run d ⟨.code, n, k⟩ input).output = k.reverse ++ ts.flatMap Token.kept ∧
      (Scanner.run d ⟨.code, n, k⟩ input).removed = n + ts.countP Token.isComment := by
  obtain ⟨m, hm⟩ := h.watch_eq n k []
  rw [← Scanner.watch_fst d _ [], hm]
  refine ⟨?_, rfl⟩
  show (List.reverse (_ ++ k)) = _
  rw [List.reverse_append, List.reverse_reverse]

theorem Splits.scan_eq {source : String} {l : Language} {ts : List Token}
    (h : Splits l.delimiters (Utf8.ofString source) ts) :
    (scan source l).output = ts.flatMap Token.kept ∧
      (scan source l).removed = ts.countP Token.isComment := by
  obtain ⟨houtput, hremoved⟩ := h.run_eq 0 []
  exact ⟨houtput, hremoved.trans (Nat.zero_add _)⟩

theorem Utf8.ofString_inj {a b : String} (h : Utf8.ofString a = Utf8.ofString b) : a = b := by
  have hdecode := congrArg Utf8.decode? h
  rw [Utf8.decode?_ofString, Utf8.decode?_ofString] at hdecode
  exact Option.some.inj hdecode

theorem Token.kept_of_isComment {t : Token} (h : t.isComment = false) : t.kept = t.bytes := by
  cases t with
  | block text => exact nomatch h
  | line text ended => exact nomatch h
  | literal text => rfl
  | plain b => rfl

/-- a source without comments is left as it is -/
theorem strip_eq_of_removed_eq_zero {source : String} {l : Language}
    (h : (strip source l).removed = 0) : strip source l = ⟨source, 0⟩ := by
  obtain ⟨ts, hts⟩ := exists_splits l.delimiters (Utf8.ofString source)
  obtain ⟨hout, hremoved⟩ := hts.scan_eq
  have hnone : ∀ t ∈ ts, t.isComment = false := by
    have hcount : ts.countP Token.isComment = 0 := hremoved.symm.trans h
    intro t ht
    exact Bool.eq_false_iff.mpr (List.countP_eq_zero.mp hcount t ht)
  have hkept : ts.flatMap Token.kept = ts.flatMap Token.bytes :=
    List.flatMap_congr fun t ht => Token.kept_of_isComment (hnone t ht)
  have htext : (strip source l).text = source := by
    apply Utf8.ofString_inj
    rw [ofString_strip_text, hout, hkept, hts.flatMap_bytes]
  calc strip source l = ⟨(strip source l).text, (strip source l).removed⟩ := rfl
    _ = ⟨source, 0⟩ := by rw [htext, h]

/-! ## what is left of a token -/

/-- the token that stands in the stripped text for one of the source -/
def Token.left? : Token → Option Token
  | block _ => none
  | line _ ended => if ended then some (plain newline) else none
  | literal text => some (literal text)
  | plain b => some (plain b)

theorem Token.isComment_of_left? {t u : Token} (h : t.left? = some u) : u.isComment = false := by
  cases t with
  | block text => exact nomatch h
  | line text ended =>
    cases ended with
    | true => exact Option.some.inj h ▸ rfl
    | false => exact nomatch h
  | literal text => exact Option.some.inj h ▸ rfl
  | plain b => exact Option.some.inj h ▸ rfl

/-- no comment starts at the front of an input -/
def Delimiters.Shut (d : Delimiters) (input : List UInt8) : Prop :=
  Delimiters.opens d.blockStart input = false ∧ Delimiters.opens d.lineMark input = false

/-- no comment starts at the front of any token in what the tokens keep -/
def Settled (d : Delimiters) (ts : List Token) : Prop :=
  ∀ rest, rest <:+ ts → d.Shut (rest.flatMap Token.kept)

theorem Delimiters.shut_nil (d : Delimiters) : d.Shut [] :=
  ⟨Delimiters.opens_nil _, Delimiters.opens_nil _⟩

theorem settled_nil (d : Delimiters) : Settled d [] := by
  intro rest hrest
  rw [List.suffix_nil.mp hrest]
  exact d.shut_nil

theorem settled_cons {d : Delimiters} {t : Token} {ts : List Token} :
    Settled d (t :: ts) ↔ d.Shut ((t :: ts).flatMap Token.kept) ∧ Settled d ts := by
  constructor
  · intro h
    exact ⟨h _ List.suffix_rfl, fun rest hrest => h rest (hrest.trans (List.suffix_cons t ts))⟩
  · rintro ⟨hfront, hts⟩ rest hrest
    rcases List.suffix_cons_iff.mp hrest with rfl | hrest
    · exact hfront
    · exact hts rest hrest

theorem Quote.byte_ne_newline (q : Quote) : newline ≠ q.byte := by
  cases q with
  | double => decide
  | single => decide

/-- a literal stays the literal it is, whatever comes after it; nothing may come after an open one -/
theorem LiteralText.before {q : Quote} {input text rest : List UInt8}
    (h : LiteralText q input text rest) {after : List UInt8} (hafter : rest = [] → after = []) :
    LiteralText q (text ++ after) text after := by
  cases h with
  | closed hin hbody hfree => exact .closed (by rw [List.append_assoc]; rfl) hbody hfree
  | unclosed hopen =>
    rw [hafter rfl, List.append_nil]
    exact .unclosed hopen

/-- what is left of a token, before what is left of the others -/
theorem Reads.left {d : Delimiters} {input rest after : List UInt8} {t : Token}
    (h : Reads d input t rest) (hafter : rest = [] → after = []) (hshut : d.Shut (t.kept ++ after)) :
    t.left? = none ∧ t.kept = [] ∨ ∃ u, t.left? = some u ∧ Reads d (t.kept ++ after) u after := by
  obtain ⟨hb, hl⟩ := hshut
  cases h with
  | block => exact .inl ⟨rfl, rfl⟩
  | line _ _ htext =>
    cases htext with
    | ended => exact .inr ⟨_, rfl, .plain hb hl rfl Quote.byte_ne_newline⟩
    | last => exact .inl ⟨rfl, rfl⟩
  | literal _ _ _ htext => exact .inr ⟨_, rfl, .literal hb hl rfl (htext.before hafter)⟩
  | plain _ _ _ hq => exact .inr ⟨_, rfl, .plain hb hl rfl hq⟩

/-! ## what is left of a source -/

theorem Splits.kept_eq_nil {d : Delimiters} {input : List UInt8} {ts : List Token}
    (h : Splits d input ts) (hin : input = []) : ts.flatMap Token.kept = [] := by
  subst hin
  rw [h.unique .nil]
  rfl

/-- what is kept from a line comment on is nothing, or begins with its newline -/
theorem Splits.not_isPrefix_line {d : Delimiters} {input text rest : List UInt8} {ended : Bool}
    {ts : List Token} (hrest : Splits d rest ts) (htext : LineText input text ended rest) {b : UInt8}
    (hb : b ≠ newline) (more : List UInt8) :
    ¬ b :: more <+: (Token.line text ended :: ts).flatMap Token.kept := by
  intro hpre
  cases htext with
  | ended => exact hb (List.cons_prefix_cons.mp hpre).1
  | last =>
    rw [List.flatMap_cons, hrest.kept_eq_nil rfl] at hpre
    exact nomatch List.prefix_nil.mp hpre

theorem Splits.left {d : Delimiters} {input : List UInt8} {ts : List Token} (h : Splits d input ts)
    (hs : Settled d ts) : Splits d (ts.flatMap Token.kept) (ts.filterMap Token.left?) := by
  induction h with
  | nil => exact .nil
  | cons hread hrest ih =>
    obtain ⟨hshut, hs⟩ := settled_cons.mp hs
    rw [List.flatMap_cons] at hshut ⊢
    -- what follows an open literal is nothing, and so is what is kept of it
    rcases hread.left hrest.kept_eq_nil hshut with ⟨hnone, hkept⟩ | ⟨u, hu, hread⟩
    · rw [List.filterMap_cons_none hnone, hkept]
      exact ih hs
    · rw [List.filterMap_cons_some hu]
      exact .cons hread (ih hs)

theorem Splits.shut {d : Delimiters} {input : List UInt8} {us : List Token} (h : Splits d input us)
    (hnone : ∀ u ∈ us, u.isComment = false) : d.Shut input := by
  cases h with
  | nil => exact d.shut_nil
  | cons hread hrest =>
    have hu := hnone _ List.mem_cons_self
    cases hread with
    | block => exact nomatch hu
    | line => exact nomatch hu
    | literal hb hl => exact ⟨hb, hl⟩
    | plain hb hl => exact ⟨hb, hl⟩

theorem Splits.eq_cons {d : Delimiters} {input rest : List UInt8} {u : Token} {us : List Token}
    (h : Splits d input us) (hread : Reads d input u rest) :
    ∃ vs, us = u :: vs ∧ Splits d rest vs := by
  cases h with
  | nil => exact absurd hread.length_lt (Nat.not_lt_zero _)
  | cons hread' hrest' =>
    obtain ⟨rfl, rfl⟩ := hread.unique hread'
    exact ⟨_, rfl, hrest'⟩

theorem Splits.settled {d : Delimiters} {input : List UInt8} {ts us : List Token}
    (h : Splits d input ts) (hu : Splits d (ts.flatMap Token.kept) us)
    (hnone : ∀ u ∈ us, u.isComment = false) : Settled d ts := by
  -- both scans go along the tokens of the first; only where one leaves nothing the second waits
  induction h generalizing us with
  | nil => exact settled_nil d
  | cons hread hrest ih =>
    have hshut := hu.shut hnone
    refine settled_cons.mpr ⟨hshut, ?_⟩
    rw [List.flatMap_cons] at hshut hu
    rcases hread.left hrest.kept_eq_nil hshut with ⟨-, hkept⟩ | ⟨u, -, hread⟩
    · rw [hkept] at hu
      exact ih hu hnone
    · obtain ⟨vs, rfl, hvs⟩ := hu.eq_cons hread
      exact ih hvs fun v hv => hnone v (List.mem_cons_of_mem u hv)

/-- **A second scan finds nothing exactly if the tokens are settled.** -/
theorem removed_strip_strip_eq_zero {source : String} {l : Language} {ts : List Token}
    (h : Splits l.delimiters (Utf8.ofString source) ts) :
    (strip (strip source l).text l).removed = 0 ↔ Settled l.delimiters ts := by
  have htext : Utf8.ofString (strip source l).text = ts.flatMap Token.kept := by
    rw [ofString_strip_text, h.scan_eq.1]
  obtain ⟨us, hus⟩ := exists_splits l.delimiters (Utf8.ofString (strip source l).text)
  have hremoved : (strip (strip source l).text l).removed = us.countP Token.isComment :=
    hus.scan_eq.2
  rw [hremoved, List.countP_eq_zero]
  rw [htext] at hus
  constructor
  · intro hnone
    exact h.settled hus fun u hu => Bool.eq_false_iff.mpr (hnone u hu)
  · intro hs u hu
    rw [hus.unique (h.left hs)] at hu
    obtain ⟨t, -, ht⟩ := List.mem_filterMap.mp hu
    rw [Token.isComment_of_left? ht]
    exact Bool.false_ne_true

theorem Splits.settled_of_shut {d : Delimiters}
    (hshut : ∀ input ts, Splits d input ts → d.Shut (ts.flatMap Token.kept))
    {input : List UInt8} {ts : List Token} (h : Splits d input ts) : Settled d ts := by
  induction h with
  | nil => exact settled_nil d
  | cons hread hrest ih => exact settled_cons.mpr ⟨hshut _ _ (.cons hread hrest), ih⟩

end CommentFree
