import CommentFree.Proofs.Boundary
import CommentFree.Proofs.Token

/-!
# The scanner reads tokens

From code mode the scanner goes over a token as a whole: it keeps what the token keeps, counts it if
it is a comment and notes it if it is a literal, and it is in code mode again unless the input ended
inside the token (`Reads.watch_eq`).  Along the tokens of a source (`Splits.watch_eq`) this means
that stripping is taking the comments out of the sequence of tokens.
-/

namespace CommentFree

open Scanner

/-! ## the scanner over a token -/

theorem BlockText.watch_eq {d : Delimiters} {input text rest : List UInt8}
    (h : BlockText d.blockEnd input text rest) (n : Nat) (k : List UInt8)
    (seen : List (List UInt8)) :
    ∃ m, watch d ⟨.comment, n, k⟩ seen input = watch d ⟨m, n, k⟩ seen rest ∧
      (rest ≠ [] → m = .code) := by
  induction input generalizing text with
  | nil =>
    cases h with
    | closed hne hin hfirst => simp [hne] at hin
    | unclosed h => exact ⟨.comment, rfl, nofun⟩
  | cons b bs ih =>
    cases h with
    | @closed body rest hne hin hfirst =>
      cases body with
      | nil =>
        refine ⟨.code, ?_, fun _ => rfl⟩
        exact (Moves.closeBlock rfl hne hin).watch_eq_of_comment (.inr rfl) (.inl rfl) seen
      | cons c body =>
        obtain ⟨rfl, hin'⟩ := List.cons.inj hin
        have he : Delimiters.opens d.blockEnd (b :: bs) = false :=
          Delimiters.opens_eq_false (.inr (hfirst 0 (Nat.succ_pos _)))
        rw [(Moves.skip rfl he rfl).watch_eq_of_comment (.inr rfl) (.inr rfl) seen]
        exact ih (.closed hne hin' fun n hn => hfirst (n + 1) (Nat.succ_lt_succ hn))
    | unclosed h =>
      have he : Delimiters.opens d.blockEnd (b :: bs) = false :=
        Delimiters.opens_eq_false (h.imp_right fun h hpre => h hpre.isInfix)
      rw [(Moves.skip rfl he rfl).watch_eq_of_comment (.inr rfl) (.inr rfl) seen]
      exact ih (.unclosed (h.imp_right fun h hin => h (List.infix_cons hin)))

theorem modeAfter_inside {q : Quote} {front : List UInt8} {b : UInt8}
    (h : Inside q (front ++ [b])) :
    modeAfter b (.literal q (escaped front)) = .literal q (escaped (front ++ [b])) := by
  rw [escaped_concat]
  cases hfront : escaped front with
  | true =>
    show Mode.literal q false = _
    rw [Bool.not_true, Bool.and_false]
  | false =>
    have hb : b ≠ q.byte := by
      intro hb
      rw [(inside_concat.mp h).2 hb] at hfront
      exact nomatch hfront
    show (if b = q.byte then Mode.code else .literal q (b = backslash)) = _
    rw [if_neg hb, Bool.not_false, Bool.and_true]

theorem inside_append {q : Quote} {front back : List UInt8} (h : Inside q (front ++ back)) :
    Inside q front := by
  intro a b hfront
  exact h a (b ++ back) (by rw [hfront, List.append_assoc]; rfl)

/-- over a part of a literal that does not end it; `front` is what was read of it before -/
theorem watch_inside {d : Delimiters} {q : Quote} (body rest : List UInt8) (n : Nat)
    (seen : List (List UInt8)) : ∀ front k l : List UInt8, Inside q (front ++ body) →
      watch d ⟨.literal q (escaped front), n, k⟩ (l :: seen) (body ++ rest) =
        watch d ⟨.literal q (escaped (front ++ body)), n, body.reverse ++ k⟩
          ((body.reverse ++ l) :: seen) rest := by
  induction body with
  | nil =>
    intro front k l _
    rw [List.append_nil]
    rfl
  | cons b body ih =>
    intro front k l h
    rw [List.append_cons] at h
    have hmove : Moves d ⟨.literal q (escaped front), n, k⟩ (b :: (body ++ rest)) _ (body ++ rest) :=
      .copyLiteral rfl rfl
    rw [List.cons_append, hmove.watch_eq, modeAfter_inside (inside_append h)]
    show watch d ⟨.literal q (escaped (front ++ [b])), n, b :: k⟩ ((b :: l) :: seen) (body ++ rest) = _
    rw [ih (front ++ [b]) (b :: k) (b :: l) h, ← List.append_cons]
    simp only [List.reverse_cons, List.append_assoc, List.singleton_append]

theorem LiteralText.watch_eq {d : Delimiters} {q : Quote} {input text rest : List UInt8}
    (h : LiteralText q input text rest) (n : Nat) (k l : List UInt8) (seen : List (List UInt8)) :
    ∃ m, watch d ⟨.literal q false, n, k⟩ (l :: seen) input =
        watch d ⟨m, n, text.reverse ++ k⟩ ((text.reverse ++ l) :: seen) rest ∧
      (rest ≠ [] → m = .code) := by
  cases h with
  | @closed body rest hin hbody hfree =>
    refine ⟨.code, ?_, fun _ => rfl⟩
    rw [hin, ← escaped_nil, watch_inside body (q.byte :: rest) n seen [] k l hbody,
      List.nil_append, hfree]
    have hmove : Moves d ⟨.literal q false, n, body.reverse ++ k⟩ (q.byte :: rest) _ rest :=
      .copyLiteral rfl rfl
    have hclose : modeAfter q.byte (.literal q false) = .code := if_pos rfl
    rw [hmove.watch_eq, hclose]
    show watch d ⟨.code, n, q.byte :: (body.reverse ++ k)⟩ ((q.byte :: (body.reverse ++ l)) :: seen)
      rest = _
    rw [List.reverse_append]
    rfl
  | unclosed hopen =>
    refine ⟨.literal q (escaped input), ?_, nofun⟩
    have hinside : watch d ⟨.literal q (escaped []), n, k⟩ (l :: seen) (input ++ []) = _ :=
      watch_inside input [] n seen [] k l hopen
    rw [List.append_nil] at hinside
    exact hinside

/-- the literals seen after a token -/
def Token.noted (t : Token) (seen : List (List UInt8)) : List (List UInt8) :=
  t.literal?.toList.map List.reverse ++ seen

theorem Reads.watch_eq {d : Delimiters} {input rest : List UInt8} {t : Token}
    (h : Reads d input t rest) (n : Nat) (k : List UInt8) (seen : List (List UInt8)) :
    ∃ m, watch d ⟨.code, n, k⟩ seen input =
        watch d ⟨m, n + t.isComment.toNat, t.kept.reverse ++ k⟩ (t.noted seen) rest ∧
      (rest ≠ [] → m = .code) := by
  cases h with
  | block hne hin htext =>
    rw [(Moves.openBlock rfl hne hin).watch_eq_of_comment (.inl rfl) (.inr rfl) seen]
    exact htext.watch_eq (n + 1) k seen
  | line hb hl htext =>
    refine ⟨.code, ?_, fun _ => rfl⟩
    cases htext with
    | ended hnl hin =>
      exact (Moves.line rfl hb hl hnl hin).watch_eq_of_comment (.inl rfl) (.inl rfl) seen
    | last hnl =>
      exact (Moves.lastLine rfl hb hl hnl).watch_eq_of_comment (.inl rfl) (.inl rfl) seen
  | @literal q tail text rest hb hl hin htext =>
    subst hin
    have hopen : modeAfter q.byte .code = .literal q false := by
      unfold modeAfter
      rw [Quote.ofByte?_byte]
    rw [(Moves.copy rfl hb hl rfl).watch_eq, hopen]
    obtain ⟨m, hm, hcode⟩ := htext.watch_eq n (q.byte :: k) [q.byte] seen
    refine ⟨m, hm.trans ?_, hcode⟩
    show _ = watch d ⟨m, n, (q.byte :: text).reverse ++ k⟩ ((q.byte :: text).reverse :: seen) rest
    rw [List.reverse_cons, List.append_assoc]
    rfl
  | @plain b rest hb hl hin hq =>
    refine ⟨.code, ?_, fun _ => rfl⟩
    subst hin
    have hcode : modeAfter b .code = .code := by
      unfold modeAfter
      rw [Quote.ofByte?_eq_none hq]
    rw [(Moves.copy rfl hb hl rfl).watch_eq, hcode]
    rfl

/-! ## the scanner over a source -/

theorem Splits.watch_eq {d : Delimiters} {input : List UInt8} {ts : List Token}
    (h : Splits d input ts) : ∀ (n : Nat) (k : List UInt8) (seen : List (List UInt8)),
      ∃ m, watch d ⟨.code, n, k⟩ seen input =
        (⟨m, n + ts.countP Token.isComment, (ts.flatMap Token.kept).reverse ++ k⟩,
          ((ts.filterMap Token.literal?).map List.reverse).reverse ++ seen) := by
  induction h with
  | nil =>
    intro n k seen
    exact ⟨.code, watch_nil d _ seen⟩
  | @cons input rest t ts hread hrest ih =>
    intro n k seen
    obtain ⟨m, hm, hcode⟩ := hread.watch_eq n k seen
    have hcount : n + (t :: ts).countP Token.isComment =
        n + t.isComment.toNat + ts.countP Token.isComment := by
      rw [List.countP_cons]
      cases t.isComment with
      | true => simp; omega
      | false => simp
    have hkept : ((t :: ts).flatMap Token.kept).reverse ++ k =
        (ts.flatMap Token.kept).reverse ++ (t.kept.reverse ++ k) := by
      rw [List.flatMap_cons, List.reverse_append, List.append_assoc]
    have hseen : (((t :: ts).filterMap Token.literal?).map List.reverse).reverse ++ seen =
        ((ts.filterMap Token.literal?).map List.reverse).reverse ++ t.noted seen := by
      cases t with
      | block text => rfl
      | line text ended => rfl
      | literal text => simp [Token.noted, Token.literal?]
      | plain b => rfl
    rw [hm, hcount, hkept, hseen]
    -- only the last token can leave another mode than code
    by_cases hnil : rest = []
    · subst hnil
      obtain rfl := hrest.unique .nil
      exact ⟨m, watch_nil d _ _⟩
    · rw [hcode hnil]
      exact ih _ _ _

/-- **Stripping a source and splitting it into tokens agree**: the source splits in one way, the
stripped text is what the tokens keep, and the comments removed are those among the tokens. -/
theorem strip_eq_tokens (source : String) (l : Language) :
    (∃! ts, Splits l.delimiters (Utf8.ofString source) ts) ∧
    ∃ ts, Splits l.delimiters (Utf8.ofString source) ts ∧
      ts.flatMap Token.bytes = Utf8.ofString source ∧
      Utf8.ofString (strip source l).text = ts.flatMap Token.kept ∧
      (strip source l).removed = ts.countP Token.isComment := by
  obtain ⟨ts, hts⟩ := exists_splits l.delimiters (Utf8.ofString source)
  refine ⟨⟨ts, hts, fun ts' hts' => hts'.unique hts⟩, ts, hts, hts.flatMap_bytes, ?_⟩
  obtain ⟨m, hm⟩ := hts.watch_eq 0 [] []
  have hscan : scan source l = ⟨m, ts.countP Token.isComment, (ts.flatMap Token.kept).reverse⟩ := by
    show run l.delimiters .start (Utf8.ofString source) = _
    rw [← watch_fst l.delimiters .start []]
    show (watch l.delimiters ⟨.code, 0, []⟩ [] (Utf8.ofString source)).1 = _
    rw [hm, Nat.zero_add, List.append_nil]
  constructor
  · rw [ofString_strip_text, hscan]
    exact List.reverse_reverse _
  · show (scan source l).removed = _
    rw [hscan]

end CommentFree
