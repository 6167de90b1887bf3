import CommentFree.Proofs.Scan
import CommentFree.Proofs.Utf8

/-!
# The scanner cuts between characters

The scanner works on bytes and looks for delimiters at every byte, also inside a character.  But a
delimiter is the encoding of a text, so where it is found it stands as characters
(`Utf8.encode_cut`), and a comment begins and ends between characters.  `OnText` is the invariant:

* while bytes are copied, the bytes copied and those still to scan make up one text;
* inside a comment the bytes copied are a text by themselves, and the bytes still to scan end one.

At the end the bytes copied are a text (`exists_scan_output`), whose characters are some of those
of the source in their order, and decoding them changes nothing (`ofString_strip_text`).
-/

namespace CommentFree

open Utf8 (encode encode_append encode_cut toList_ne_nil)

namespace Scanner

/-- what a scanner of `text` has copied and has yet to scan, as characters of `text` -/
def OnText (text : List Char) (s : Scanner) (rest : List UInt8) : Prop :=
  match s.mode with
  | .comment => ∃ (done todo : List Char) (cut : List UInt8),
      s.output = encode done ∧ cut ++ rest = encode todo ∧ (done ++ todo).Sublist text
  | _ => ∃ chars : List Char, s.output ++ rest = encode chars ∧ chars.Sublist text

theorem onText_comment {text : List Char} {s : Scanner} {rest : List UInt8}
    (hm : s.mode = .comment) :
    s.OnText text rest ↔ ∃ (done todo : List Char) (cut : List UInt8),
      s.output = encode done ∧ cut ++ rest = encode todo ∧ (done ++ todo).Sublist text := by
  unfold OnText
  rw [hm]

theorem onText_copying {text : List Char} {s : Scanner} {rest : List UInt8}
    (hm : s.mode ≠ .comment) :
    s.OnText text rest ↔
      ∃ chars : List Char, s.output ++ rest = encode chars ∧ chars.Sublist text := by
  unfold OnText
  cases h : s.mode with
  | code => rfl
  | comment => exact absurd h hm
  | literal q e => rfl

theorem modeAfter_ne_comment (b : UInt8) {m : Mode} (hm : m ≠ .comment) :
    modeAfter b m ≠ .comment := by
  cases m with
  | code =>
    cases hq : Quote.ofByte? b with
    | none => simp [modeAfter, hq]
    | some q => simp [modeAfter, hq]
  | comment => exact absurd rfl hm
  | literal q e =>
    cases e with
    | true => simp [modeAfter]
    | false =>
      show (if b = q.byte then Mode.code else .literal q (b = backslash)) ≠ .comment
      by_cases hb : b = q.byte
      · simp [hb]
      · simp [hb]

theorem output_push (m : Mode) (n : Nat) (b : UInt8) (k : List UInt8) :
    output ⟨m, n, b :: k⟩ = k.reverse ++ [b] := List.reverse_cons

/-- copying a byte takes it from one side to the other -/
theorem onText_push {text : List Char} {s : Scanner} {b : UInt8} {rest : List UInt8}
    (hm : s.mode ≠ .comment) (h : s.OnText text (b :: rest)) :
    OnText text ⟨modeAfter b s.mode, s.removed, b :: s.kept⟩ rest := by
  obtain ⟨chars, hchars, hsub⟩ := (onText_copying hm).mp h
  refine (onText_copying (modeAfter_ne_comment b hm)).mpr ⟨chars, ?_, hsub⟩
  rw [output_push, List.append_assoc, ← hchars]
  rfl

/-- where a delimiter is found, the bytes copied and those to scan are texts by themselves -/
theorem onText_opens {text : List Char} {s : Scanner} {input : List UInt8} {mark : String}
    (hm : s.mode ≠ .comment) (h : s.OnText text input)
    (hopens : Delimiters.opens (Utf8.ofString mark) input = true) :
    ∃ front back : List Char, s.output = encode front ∧
      input = encode (mark.toList ++ back) ∧ (front ++ (mark.toList ++ back)).Sublist text := by
  obtain ⟨hne, rest, rfl⟩ := Delimiters.opens_iff.mp hopens
  obtain ⟨chars, hchars, hsub⟩ := (onText_copying hm).mp h
  obtain ⟨front, back, rfl, hfront, hback⟩ := encode_cut (toList_ne_nil mark hne) hchars.symm
  refine ⟨front, back, hfront, ?_, hsub⟩
  rw [encode_append, ← hback, Utf8.ofString]

theorem onText_move {l : Language} {text : List Char} {s s' : Scanner} {input rest : List UInt8}
    (hmove : Moves l.delimiters s input s' rest) (h : s.OnText text input) :
    s'.OnText text rest := by
  cases hmove with
  | openBlock hm hne hin =>
    have hopens : Delimiters.opens (Utf8.ofString l.blockStart) input = true := by
      rw [hin]
      exact Delimiters.opens_append hne rest
    obtain ⟨front, back, hfront, hinput, hsub⟩ := onText_opens (by simp [hm]) h hopens
    refine (onText_comment rfl).mpr ⟨front, back, [], hfront, ?_, ?_⟩
    · rw [hin, encode_append] at hinput
      exact List.append_cancel_left hinput
    · exact ((List.sublist_append_right _ back).append_left front).trans hsub
  | @line skipped rest hm hb hl hnl hin =>
    obtain ⟨front, back, hfront, hinput, hsub⟩ := onText_opens (by simp [hm]) h hl
    -- the newline stands as a character too
    have hcut : encode (l.lineMark.toList ++ back) = skipped ++ (encode ['\n'] ++ rest) := by
      rw [← hinput, hin]
      rfl
    obtain ⟨gone, after, hback, -, hafter⟩ := encode_cut (List.cons_ne_nil _ _) hcut
    refine (onText_copying (by simp)).mpr ⟨front ++ '\n' :: after, ?_, ?_⟩
    · have hout : s.kept.reverse = encode front := hfront
      rw [output_push, hout, encode_append, hafter, List.append_assoc]
      rfl
    · rw [hback] at hsub
      exact ((List.sublist_append_right gone _).append_left front).trans hsub
  | lastLine hm hb hl hnl =>
    obtain ⟨front, back, hfront, -, hsub⟩ := onText_opens (by simp [hm]) h hl
    refine (onText_copying (by simp)).mpr ⟨front, ?_, (List.sublist_append_left front _).trans hsub⟩
    rw [List.append_nil]
    exact hfront
  | copy hm hb hl hin =>
    rw [hin] at h
    rw [← hm]
    exact onText_push (by simp [hm]) h
  | closeBlock hm hne hin =>
    obtain ⟨done, todo, cut, hdone, htodo, hsub⟩ := (onText_comment hm).mp h
    rw [hin] at htodo
    obtain ⟨body, back, rfl, -, hback⟩ :=
      encode_cut (toList_ne_nil l.blockEnd hne) htodo.symm
    refine (onText_copying (by simp)).mpr ⟨done ++ back, ?_, ?_⟩
    · rw [encode_append, ← hback, ← hdone]
      rfl
    · rw [← List.append_assoc body] at hsub
      exact ((List.sublist_append_right _ back).append_left done).trans hsub
  | @skip b rest hm he hin =>
    obtain ⟨done, todo, cut, hdone, htodo, hsub⟩ := (onText_comment hm).mp h
    refine (onText_comment hm).mpr ⟨done, todo, cut ++ [b], hdone, ?_, hsub⟩
    rw [← htodo, hin, List.append_assoc]
    rfl
  | copyLiteral hm hin =>
    rw [hin] at h
    rw [← hm]
    exact onText_push (by simp [hm]) h

end Scanner

/-- **The bytes copied from a source are a text**, made of characters of the source in order. -/
theorem exists_scan_output (source : String) (l : Language) :
    ∃ chars : List Char, (scan source l).output = encode chars ∧ chars.Sublist source.toList := by
  have hstart : Scanner.OnText source.toList .start (Utf8.ofString source) :=
    (Scanner.onText_copying (by simp [Scanner.start])).mpr ⟨source.toList, rfl, List.Sublist.refl _⟩
  have hend : (scan source l).OnText source.toList [] :=
    Scanner.run_invariant (fun _ _ _ _ hmove h => Scanner.onText_move hmove h) _ _ hstart
  by_cases hm : (scan source l).mode = .comment
  · obtain ⟨done, todo, _, hdone, -, hsub⟩ := (Scanner.onText_comment hm).mp hend
    exact ⟨done, hdone, (List.sublist_append_left done todo).trans hsub⟩
  · obtain ⟨chars, hchars, hsub⟩ := (Scanner.onText_copying hm).mp hend
    rw [List.append_nil] at hchars
    exact ⟨chars, hchars, hsub⟩

/-- the text of a stripped source is made of exactly the bytes that were copied -/
theorem ofString_strip_text (source : String) (l : Language) :
    Utf8.ofString (strip source l).text = (scan source l).output := by
  obtain ⟨chars, hchars, -⟩ := exists_scan_output source l
  show Utf8.ofString (Utf8.decodeLossy (scan source l).output) = _
  rw [hchars, Utf8.decodeLossy_encode, Utf8.ofString, String.toList_ofList]

/-- **Stripping breaks no character.**  The bytes copied are well-formed, so reading them meets no
gap, and the text they stand for is made of characters of the source in order. -/
theorem strip_text_valid (source : String) (l : Language) :
    (scan source l).output.toByteArray.IsValidUTF8 ∧
    Utf8.decode? (scan source l).output = some (strip source l).text ∧
    (strip source l).text.toList.Sublist source.toList := by
  obtain ⟨chars, hchars, hsub⟩ := exists_scan_output source l
  have htext : (strip source l).text = String.ofList chars := by
    show Utf8.decodeLossy (scan source l).output = _
    rw [hchars, Utf8.decodeLossy_encode]
  refine ⟨⟨chars, ?_⟩, ?_, ?_⟩
  · rw [hchars]
    rfl
  · rw [hchars, htext, Utf8.decode?_encode]
  · rw [htext, String.toList_ofList]
    exact hsub

end CommentFree
