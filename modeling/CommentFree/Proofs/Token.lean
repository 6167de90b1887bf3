import CommentFree.Proofs.Scan

/-!
# Sources as tokens

A source is a sequence of tokens.  `Reads d input t rest` says that the token at the front of
`input` is `t`; the first of these that fits decides:

* `block`     at the start of a block comment: through the first end of a block comment after it,
              or to the end of the input (`BlockText`);
* `line`      at a line mark: through the first newline, or to the end (`LineText`);
* `literal`   at a quote: through the next same quote that no unpaired backslash of the literal
              stands before, or to the end (`LiteralText`);
* `plain`     any other byte.

`Splits` puts tokens one after the other.  None of this mentions a scanner:

* `exists_splits`, `Splits.unique`   an input splits into tokens, and in one way only;
* `Splits.flatMap_bytes`             the tokens are all of the input.
-/

namespace CommentFree

/-- a piece of a source -/
inductive Token where
  | block (text : List UInt8)
  /-- `ended` says that a newline, which is no part of `text`, belongs to the comment -/
  | line (text : List UInt8) (ended : Bool)
  | literal (text : List UInt8)
  | plain (b : UInt8)

namespace Token

def bytes : Token → List UInt8
  | block text => text
  | line text ended => text ++ if ended then [newline] else []
  | literal text => text
  | plain b => [b]

def kept : Token → List UInt8
  | block _ => []
  | line _ ended => if ended then [newline] else []
  | literal text => text
  | plain b => [b]

def isComment : Token → Bool
  | block _ | line _ _ => true
  | literal _ | plain _ => false

def literal? : Token → Option (List UInt8)
  | literal text => some text
  | _ => none

end Token

/-! ## where tokens end -/

/-- a block comment after its start: through the first `stop`, or all there is -/
inductive BlockText (stop input : List UInt8) : List UInt8 → List UInt8 → Prop
  | closed {body rest : List UInt8} (hne : stop ≠ []) (hin : input = body ++ (stop ++ rest))
      (hfirst : ∀ n < body.length, ¬ stop <+: input.drop n) :
      BlockText stop input (body ++ stop) rest
  | unclosed (h : stop = [] ∨ ¬ stop <:+: input) : BlockText stop input input []

/-- a line comment: up to its newline, or all there is -/
inductive LineText (input : List UInt8) : List UInt8 → Bool → List UInt8 → Prop
  | ended {text rest : List UInt8} (hnl : newline ∉ text) (hin : input = text ++ newline :: rest) :
      LineText input text true rest
  | last (hnl : newline ∉ input) : LineText input input false []

/-- whether an unpaired backslash stands at the end of a part of a literal -/
def escaped (body : List UInt8) : Bool :=
  (body.reverse.takeWhile (· = backslash)).length % 2 = 1

/-- no quote in `body` ends the literal: an unpaired backslash stands before each -/
def Inside (q : Quote) (body : List UInt8) : Prop :=
  ∀ front back, body = front ++ q.byte :: back → escaped front = true

/-- a literal after its first quote: through the quote that ends it, or all there is -/
inductive LiteralText (q : Quote) (input : List UInt8) : List UInt8 → List UInt8 → Prop
  | closed {body rest : List UInt8} (hin : input = body ++ q.byte :: rest) (hbody : Inside q body)
      (hfree : escaped body = false) : LiteralText q input (body ++ [q.byte]) rest
  | unclosed (h : Inside q input) : LiteralText q input input []

/-! ## tokens one after the other -/

/-- the token at the front of an input, and the bytes after it -/
inductive Reads (d : Delimiters) (input : List UInt8) : Token → List UInt8 → Prop
  | block {tail text rest : List UInt8} (hne : d.blockStart ≠ [])
      (hin : input = d.blockStart ++ tail) (htext : BlockText d.blockEnd tail text rest) :
      Reads d input (.block (d.blockStart ++ text)) rest
  | line {text rest : List UInt8} {ended : Bool}
      (hb : Delimiters.opens d.blockStart input = false)
      (hl : Delimiters.opens d.lineMark input = true) (htext : LineText input text ended rest) :
      Reads d input (.line text ended) rest
  | literal {q : Quote} {tail text rest : List UInt8}
      (hb : Delimiters.opens d.blockStart input = false)
      (hl : Delimiters.opens d.lineMark input = false) (hin : input = q.byte :: tail)
      (htext : LiteralText q tail text rest) : Reads d input (.literal (q.byte :: text)) rest
  | plain {b : UInt8} {rest : List UInt8} (hb : Delimiters.opens d.blockStart input = false)
      (hl : Delimiters.opens d.lineMark input = false) (hin : input = b :: rest)
      (hq : ∀ q : Quote, b ≠ q.byte) : Reads d input (.plain b) rest

/-- the tokens of an input -/
inductive Splits (d : Delimiters) : List UInt8 → List Token → Prop
  | nil : Splits d [] []
  | cons {input rest : List UInt8} {t : Token} {ts : List Token} (hread : Reads d input t rest)
      (hrest : Splits d rest ts) : Splits d input (t :: ts)

/-! ## escapes -/

theorem escaped_nil : escaped [] = false := rfl

theorem escaped_concat (body : List UInt8) (b : UInt8) :
    escaped (body ++ [b]) = (decide (b = backslash) && !escaped body) := by
  unfold escaped
  rw [List.reverse_append, List.reverse_singleton, List.singleton_append, List.takeWhile_cons]
  by_cases hb : b = backslash
  · simp only [hb, decide_true, if_true, List.length_cons, Bool.true_and]
    rw [← decide_not]
    apply decide_eq_decide.mpr
    omega
  · simp [hb]

theorem inside_nil (q : Quote) : Inside q [] := by
  intro front back h
  simp at h

theorem inside_concat {q : Quote} {body : List UInt8} {b : UInt8} :
    Inside q (body ++ [b]) ↔ Inside q body ∧ (b = q.byte → escaped body = true) := by
  constructor
  · intro h
    refine ⟨fun front back hbody => h front (back ++ [b]) (by rw [hbody]; simp), fun hb => ?_⟩
    exact h body [] (by rw [hb])
  · rintro ⟨hbody, hb⟩ front back hsplit
    rcases List.eq_nil_or_concat back with rfl | ⟨back, c, rfl⟩
    · obtain ⟨rfl, hbq⟩ := List.append_inj' hsplit rfl
      exact hb (List.singleton_inj.mp hbq)
    · rw [List.concat_eq_append, ← List.cons_append, ← List.append_assoc] at hsplit
      exact hbody front back (List.append_inj' hsplit rfl).1

/-! ## every input has a token, and one only -/

theorem exists_blockText (stop input : List UInt8) : ∃ text rest, BlockText stop input text rest := by
  by_cases hne : stop = []
  · exact ⟨input, [], .unclosed (.inl hne)⟩
  induction input with
  | nil =>
    refine ⟨[], [], .unclosed (.inr fun h => hne ?_)⟩
    exact List.infix_nil.mp h
  | cons b bs ih =>
    by_cases hhere : stop <+: b :: bs
    · obtain ⟨rest, hrest⟩ := hhere
      have hfirst : ∀ n < ([] : List UInt8).length, ¬ stop <+: (b :: bs).drop n := nofun
      exact ⟨_, rest, .closed hne hrest.symm hfirst⟩
    · obtain ⟨text, rest, htext⟩ := ih
      cases htext with
      | @closed body rest hne hin hfirst =>
        have hin' : b :: bs = (b :: body) ++ (stop ++ rest) := by rw [hin]; rfl
        refine ⟨_, rest, .closed hne hin' ?_⟩
        intro n hn
        cases n with
        | zero => exact hhere
        | succ n => exact hfirst n (Nat.lt_of_succ_lt_succ hn)
      | unclosed h =>
        refine ⟨_, _, .unclosed (.inr fun hin => ?_)⟩
        rcases List.infix_cons_iff.mp hin with hpre | hin
        · exact hhere hpre
        · exact h.elim hne (fun h => h hin)

/-- a first place is not behind any other one -/
theorem length_le_of_first {stop input body body' rest : List UInt8}
    (hin : input = body ++ (stop ++ rest))
    (hfirst : ∀ n < body'.length, ¬ stop <+: input.drop n) : body'.length ≤ body.length := by
  by_contra hlt
  apply hfirst body.length (Nat.lt_of_not_le hlt)
  rw [hin, List.drop_left]
  exact List.prefix_append stop rest

theorem BlockText.unique {stop input text text' rest rest' : List UInt8}
    (h : BlockText stop input text rest) (h' : BlockText stop input text' rest') :
    text = text' ∧ rest = rest' := by
  have hclash : ∀ body rest, stop ≠ [] → input = body ++ (stop ++ rest) →
      ¬ (stop = [] ∨ ¬ stop <:+: input) := by
    intro body rest hne hin h
    rcases h with h | h
    · exact hne h
    · exact h ⟨body, rest, by rw [hin, List.append_assoc]⟩
  cases h with
  | @closed body rest hne hin hfirst =>
    cases h' with
    | @closed body' rest' hne' hin' hfirst' =>
      have hlen : body.length = body'.length :=
        Nat.le_antisymm (length_le_of_first hin' hfirst) (length_le_of_first hin hfirst')
      obtain ⟨rfl, hrest⟩ := List.append_inj (hin.symm.trans hin') hlen
      exact ⟨rfl, List.append_cancel_left hrest⟩
    | unclosed hopen => exact absurd hopen (hclash body rest hne hin)
  | unclosed hopen =>
    cases h' with
    | @closed body' rest' hne' hin' hfirst' => exact absurd hopen (hclash body' rest' hne' hin')
    | unclosed hopen' => exact ⟨rfl, rfl⟩

theorem exists_lineText (input : List UInt8) : ∃ text ended rest, LineText input text ended rest := by
  by_cases hnl : newline ∈ input
  · obtain ⟨text, rest, hin, hnl⟩ := List.eq_append_cons_of_mem hnl
    exact ⟨text, true, rest, .ended hnl hin⟩
  · exact ⟨input, false, [], .last hnl⟩

theorem LineText.unique {input text text' rest rest' : List UInt8} {ended ended' : Bool}
    (h : LineText input text ended rest) (h' : LineText input text' ended' rest') :
    text = text' ∧ ended = ended' ∧ rest = rest' := by
  have hmem : ∀ text rest : List UInt8, input = text ++ newline :: rest → newline ∈ input := by
    intro text rest hin
    rw [hin]
    exact List.mem_append_right text List.mem_cons_self
  cases h with
  | ended hnl hin =>
    cases h' with
    | ended hnl' hin' =>
      have heq := hin.symm.trans hin'
      have hdrop := congrArg (List.dropWhile (· ≠ newline)) heq
      rw [Scanner.dropWhile_line hnl, Scanner.dropWhile_line hnl'] at hdrop
      obtain rfl := (List.cons.inj hdrop).2
      exact ⟨List.append_cancel_right heq, rfl, rfl⟩
    | last hnl' => exact absurd (hmem text rest hin) hnl'
  | last hnl =>
    cases h' with
    | ended hnl' hin' => exact absurd (hmem text' rest' hin') hnl
    | last hnl' => exact ⟨rfl, rfl, rfl⟩

/-- after a part of a literal that does not end it, the literal ends somewhere or nowhere -/
theorem inside_or_closed (q : Quote) (input : List UInt8) :
    ∀ front, Inside q front → Inside q (front ++ input) ∨
      ∃ body rest, input = body ++ q.byte :: rest ∧ Inside q (front ++ body) ∧
        escaped (front ++ body) = false := by
  induction input with
  | nil =>
    intro front hfront
    rw [List.append_nil]
    exact .inl hfront
  | cons b bs ih =>
    intro front hfront
    by_cases hend : b = q.byte ∧ escaped front = false
    · obtain ⟨rfl, hfree⟩ := hend
      refine .inr ⟨[], bs, rfl, ?_, ?_⟩
      · rw [List.append_nil]; exact hfront
      · rw [List.append_nil]; exact hfree
    · have hb : b = q.byte → escaped front = true := fun hb =>
        Bool.not_eq_false _ ▸ fun hfree => hend ⟨hb, hfree⟩
      rw [List.append_cons]
      rcases ih (front ++ [b]) (inside_concat.mpr ⟨hfront, hb⟩) with h | ⟨body, rest, hin, h, hfree⟩
      · exact .inl h
      · refine .inr ⟨b :: body, rest, by rw [hin]; rfl, ?_, ?_⟩
        · rw [List.append_cons]; exact h
        · rw [List.append_cons]; exact hfree

theorem exists_literalText (q : Quote) (input : List UInt8) :
    ∃ text rest, LiteralText q input text rest := by
  rcases inside_or_closed q input [] (inside_nil q) with h | ⟨body, rest, hin, h, hfree⟩
  · exact ⟨input, [], .unclosed h⟩
  · exact ⟨body ++ [q.byte], rest, .closed hin h hfree⟩

theorem LiteralText.unique {q : Quote} {input text text' rest rest' : List UInt8}
    (h : LiteralText q input text rest) (h' : LiteralText q input text' rest') :
    text = text' ∧ rest = rest' := by
  have hclash : ∀ body rest, input = body ++ q.byte :: rest → escaped body = false →
      ¬ Inside q input := by
    intro body rest hin hfree h
    rw [h body rest hin] at hfree
    exact nomatch hfree
  -- of two ends, the later one would have the earlier one inside
  have hend : ∀ body body' rest rest' : List UInt8,
      body ++ q.byte :: rest = body' ++ q.byte :: rest' → Inside q body' → escaped body = false →
      body'.length ≤ body.length := by
    intro body body' rest rest' heq hbody' hfree
    rcases List.append_eq_append_iff.mp heq with ⟨t, rfl, ht⟩ | ⟨t, rfl, ht⟩
    · cases t with
      | nil => simp
      | cons c t =>
        obtain ⟨rfl, -⟩ := List.cons.inj ht
        rw [hbody' body t rfl] at hfree
        exact nomatch hfree
    · simp
  cases h with
  | @closed body rest hin hbody hfree =>
    cases h' with
    | @closed body' rest' hin' hbody' hfree' =>
      have heq := hin.symm.trans hin'
      have hlen : body.length = body'.length :=
        Nat.le_antisymm (hend body' body rest' rest heq.symm hbody hfree')
          (hend body body' rest rest' heq hbody' hfree)
      obtain ⟨rfl, hrest⟩ := List.append_inj heq hlen
      exact ⟨rfl, (List.cons.inj hrest).2⟩
    | unclosed hopen => exact absurd hopen (hclash body rest hin hfree)
  | unclosed hopen =>
    cases h' with
    | @closed body' rest' hin' hbody' hfree' => exact absurd hopen (hclash body' rest' hin' hfree')
    | unclosed hopen' => exact ⟨rfl, rfl⟩

theorem Quote.ofByte?_byte (q : Quote) : Quote.ofByte? q.byte = some q := by
  cases q with
  | double => rfl
  | single => rfl

theorem Quote.eq_byte_of_ofByte? {b : UInt8} {q : Quote} (h : Quote.ofByte? b = some q) :
    b = q.byte := by
  unfold Quote.ofByte? at h
  by_cases h1 : b = 34
  · rw [if_pos h1] at h
    rw [h1, ← Option.some.inj h]
    rfl
  · rw [if_neg h1] at h
    by_cases h2 : b = 39
    · rw [if_pos h2] at h
      rw [h2, ← Option.some.inj h]
      rfl
    · rw [if_neg h2] at h
      exact nomatch h

theorem Quote.ofByte?_eq_none {b : UInt8} (h : ∀ q : Quote, b ≠ q.byte) :
    Quote.ofByte? b = none := by
  rw [Option.eq_none_iff_forall_not_mem]
  intro q hq
  exact h q (Quote.eq_byte_of_ofByte? hq)

theorem exists_reads (d : Delimiters) {input : List UInt8} (hne : input ≠ []) :
    ∃ t rest, Reads d input t rest := by
  by_cases hb : Delimiters.opens d.blockStart input = true
  · obtain ⟨hstart, tail, hin⟩ := Delimiters.opens_iff.mp hb
    obtain ⟨text, rest, htext⟩ := exists_blockText d.blockEnd tail
    exact ⟨_, rest, .block hstart hin htext⟩
  · rw [Bool.not_eq_true] at hb
    by_cases hl : Delimiters.opens d.lineMark input = true
    · obtain ⟨text, ended, rest, htext⟩ := exists_lineText input
      exact ⟨_, rest, .line hb hl htext⟩
    · rw [Bool.not_eq_true] at hl
      obtain ⟨b, tail, hin⟩ := List.exists_cons_of_ne_nil hne
      by_cases hq : ∃ q : Quote, b = q.byte
      · obtain ⟨q, rfl⟩ := hq
        obtain ⟨text, rest, htext⟩ := exists_literalText q tail
        exact ⟨_, rest, .literal hb hl hin htext⟩
      · exact ⟨_, tail, .plain hb hl hin fun q h => hq ⟨q, h⟩⟩

theorem Reads.unique {d : Delimiters} {input rest rest' : List UInt8} {t t' : Token}
    (h : Reads d input t rest) (h' : Reads d input t' rest') : t = t' ∧ rest = rest' := by
  have hblock : ∀ tail, d.blockStart ≠ [] → input = d.blockStart ++ tail →
      Delimiters.opens d.blockStart input ≠ false := by
    intro tail hne hin
    rw [hin, Delimiters.opens_append hne tail]
    exact Bool.noConfusion
  cases h with
  | @block tail text rest hne hin htext =>
    cases h' with
    | block hne' hin' htext' =>
      have htail := List.append_cancel_left (hin.symm.trans hin')
      rw [← htail] at htext'
      obtain ⟨rfl, rfl⟩ := htext.unique htext'
      exact ⟨rfl, rfl⟩
    | line hb' => exact absurd hb' (hblock tail hne hin)
    | literal hb' => exact absurd hb' (hblock tail hne hin)
    | plain hb' => exact absurd hb' (hblock tail hne hin)
  | line hb hl htext =>
    cases h' with
    | @block tail' text' rest' hne' hin' htext' => exact absurd hb (hblock tail' hne' hin')
    | line hb' hl' htext' =>
      obtain ⟨rfl, rfl, rfl⟩ := htext.unique htext'
      exact ⟨rfl, rfl⟩
    | literal hb' hl' => exact absurd (hl.symm.trans hl') Bool.noConfusion
    | plain hb' hl' => exact absurd (hl.symm.trans hl') Bool.noConfusion
  | @literal q tail text rest hb hl hin htext =>
    cases h' with
    | @block tail' text' rest' hne' hin' htext' => exact absurd hb (hblock tail' hne' hin')
    | line hb' hl' => exact absurd (hl.symm.trans hl') Bool.noConfusion
    | @literal q' tail' text' rest' hb' hl' hin' htext' =>
      obtain ⟨hbyte, htail⟩ := List.cons.inj (hin.symm.trans hin')
      have hq : some q = some q' := by rw [← Quote.ofByte?_byte, hbyte, Quote.ofByte?_byte]
      obtain rfl := Option.some.inj hq
      rw [← htail] at htext'
      obtain ⟨rfl, rfl⟩ := htext.unique htext'
      exact ⟨rfl, rfl⟩
    | plain hb' hl' hin' hq' => exact absurd (List.cons.inj (hin'.symm.trans hin)).1 (hq' q)
  | plain hb hl hin hq =>
    cases h' with
    | @block tail' text' rest' hne' hin' htext' => exact absurd hb (hblock tail' hne' hin')
    | line hb' hl' => exact absurd (hl.symm.trans hl') Bool.noConfusion
    | @literal q' tail' text' rest' hb' hl' hin' htext' =>
      exact absurd (List.cons.inj (hin.symm.trans hin')).1 (hq q')
    | plain hb' hl' hin' hq' =>
      obtain ⟨rfl, rfl⟩ := List.cons.inj (hin.symm.trans hin')
      exact ⟨rfl, rfl⟩

theorem Reads.eq_append {d : Delimiters} {input rest : List UInt8} {t : Token}
    (h : Reads d input t rest) : input = t.bytes ++ rest := by
  cases h with
  | block hne hin htext =>
    rw [hin]
    cases htext with
    | closed hne hin hfirst => rw [hin]; simp [Token.bytes]
    | unclosed h => simp [Token.bytes]
  | line hb hl htext =>
    cases htext with
    | ended hnl hin => rw [hin]; simp [Token.bytes]
    | last hnl => simp [Token.bytes]
  | literal hb hl hin htext =>
    rw [hin]
    cases htext with
    | closed hin hbody hfree => rw [hin]; simp [Token.bytes]
    | unclosed h => simp [Token.bytes]
  | plain hb hl hin hq => exact hin

theorem Reads.bytes_ne_nil {d : Delimiters} {input rest : List UInt8} {t : Token}
    (h : Reads d input t rest) : t.bytes ≠ [] := by
  cases h with
  | block hne hin htext => simp [Token.bytes, hne]
  | @line text rest ended hb hl htext =>
    cases htext with
    | ended hnl hin => simp [Token.bytes]
    | last hnl =>
      obtain ⟨hne, tail, hin⟩ := Delimiters.opens_iff.mp hl
      simp [Token.bytes, hin, hne]
  | literal hb hl hin htext => simp [Token.bytes]
  | plain hb hl hin hq => simp [Token.bytes]

theorem Reads.length_lt {d : Delimiters} {input rest : List UInt8} {t : Token}
    (h : Reads d input t rest) : rest.length < input.length := by
  have hpos := List.length_pos_iff.mpr h.bytes_ne_nil
  have hlen := congrArg List.length h.eq_append
  rw [List.length_append] at hlen
  omega

theorem exists_splits (d : Delimiters) (input : List UInt8) : ∃ ts, Splits d input ts := by
  induction hn : input.length using Nat.strong_induction_on generalizing input with
  | _ n ih =>
    by_cases hne : input = []
    · exact ⟨[], hne ▸ .nil⟩
    · obtain ⟨t, rest, hread⟩ := exists_reads d hne
      obtain ⟨ts, hts⟩ := ih rest.length (hn ▸ hread.length_lt) rest rfl
      exact ⟨t :: ts, .cons hread hts⟩

theorem Splits.unique {d : Delimiters} {input : List UInt8} {ts ts' : List Token}
    (h : Splits d input ts) (h' : Splits d input ts') : ts = ts' := by
  induction h generalizing ts' with
  | nil =>
    cases h' with
    | nil => rfl
    | cons hread' hrest' => exact absurd hread'.length_lt (Nat.not_lt_zero _)
  | cons hread hrest ih =>
    cases h' with
    | nil => exact absurd hread.length_lt (Nat.not_lt_zero _)
    | cons hread' hrest' =>
      obtain ⟨rfl, rfl⟩ := hread.unique hread'
      rw [ih hrest']

theorem Splits.flatMap_bytes {d : Delimiters} {input : List UInt8} {ts : List Token}
    (h : Splits d input ts) : ts.flatMap Token.bytes = input := by
  induction h with
  | nil => rfl
  | cons hread hrest ih => rw [List.flatMap_cons, ih, ← hread.eq_append]

end CommentFree
