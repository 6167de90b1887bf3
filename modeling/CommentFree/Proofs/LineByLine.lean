import CommentFree.Proofs.Found
import Mathlib.Data.List.Forall2

/-!
# Without block comments every line stays a line

Where there are line comments only, stripping goes line by line: each line of the source has one
line of the text to it, which is a beginning of it, and the comments are the lines that got shorter
(`strip_lines`).  Newlines are copied one by one, in literals too, but for those behind a comment,
which are put back.

`Trims` is that relation between two lists of elements; it has a rule for each way in which a token
is passed.  It is proved of bytes (`Splits.trims`) and carried over to characters, since a newline
is one byte and no part of another character (`Utf8.splitOn_encode`).
-/

namespace CommentFree

section
variable {α : Type} [DecidableEq α]

/-- Split at `stop`, the pieces of `kept` are beginnings of those of `source`, and `n` of them are
not the whole piece. -/
structure Trims (stop : α) (kept source : List α) (n : Nat) : Prop where
  prefixes : List.Forall₂ (· <+: ·) (kept.splitOn stop) (source.splitOn stop)
  count : ((kept.splitOn stop).zip (source.splitOn stop)).countP (fun p => p.1 ≠ p.2) = n

theorem splitOn_cons_self (stop : α) (rest : List α) :
    (stop :: rest).splitOn stop = [] :: rest.splitOn stop := by
  rw [List.splitOn_cons_eq_if_modifyHead, if_pos (beq_self_eq_true stop)]

theorem splitOn_cons_of_ne {a stop : α} (h : a ≠ stop) (rest : List α) :
    (a :: rest).splitOn stop = (rest.splitOn stop).modifyHead (a :: ·) := by
  rw [List.splitOn_cons_eq_if_modifyHead, if_neg (by simpa using h)]

theorem splitOn_append_of_notMem {stop : α} {front : List α} (h : stop ∉ front) (back : List α) :
    (front ++ back).splitOn stop = (back.splitOn stop).modifyHead (front ++ ·) := by
  induction front with
  | nil =>
    obtain ⟨p, ps, hp⟩ := List.exists_cons_of_ne_nil (List.splitOn_ne_nil stop back)
    rw [List.nil_append, hp]
    rfl
  | cons a front ih =>
    rw [List.mem_cons, not_or] at h
    rw [List.cons_append, splitOn_cons_of_ne (Ne.symm h.1), ih h.2, List.modifyHead_modifyHead]
    rfl

namespace Trims

variable {stop : α} {kept source text : List α} {n : Nat}

theorem nil : Trims stop ([] : List α) [] 0 := ⟨by simp, by simp⟩

/-- a part that is kept stands on the same line in both -/
theorem same (h : Trims stop kept source n) (a : α) : Trims stop (a :: kept) (a :: source) n := by
  obtain ⟨hprefixes, hcount⟩ := h
  by_cases ha : a = stop
  · subst ha
    constructor
    · rw [splitOn_cons_self, splitOn_cons_self]
      exact .cons List.prefix_rfl hprefixes
    · rw [splitOn_cons_self, splitOn_cons_self, List.zip_cons_cons, List.countP_cons, hcount]
      simp
  · -- the element goes to the front of the first piece on both sides
    obtain ⟨p, ps, hp⟩ := List.exists_cons_of_ne_nil (List.splitOn_ne_nil stop kept)
    obtain ⟨q, qs, hq⟩ := List.exists_cons_of_ne_nil (List.splitOn_ne_nil stop source)
    rw [hp, hq] at hprefixes hcount
    obtain ⟨hpq, hrest⟩ := List.forall₂_cons.mp hprefixes
    constructor
    · rw [splitOn_cons_of_ne ha, splitOn_cons_of_ne ha, hp, hq]
      exact .cons (List.cons_prefix_cons.mpr ⟨rfl, hpq⟩) hrest
    · rw [splitOn_cons_of_ne ha, splitOn_cons_of_ne ha, hp, hq, ← hcount]
      simp [List.countP_cons]

theorem append (h : Trims stop kept source n) (front : List α) :
    Trims stop (front ++ kept) (front ++ source) n := by
  induction front with
  | nil => exact h
  | cons a front ih => exact ih.same a

/-- what goes before a `stop` makes one piece shorter -/
theorem cut (h : Trims stop kept source n) (hstop : stop ∉ text) (hne : text ≠ []) :
    Trims stop (stop :: kept) (text ++ stop :: source) (n + 1) := by
  obtain ⟨hprefixes, hcount⟩ := h
  have hsource : (text ++ stop :: source).splitOn stop = text :: source.splitOn stop := by
    rw [List.splitOn_append_cons_self, List.splitOn_eq_singleton hstop]
    rfl
  constructor
  · rw [splitOn_cons_self, hsource]
    exact .cons List.nil_prefix hprefixes
  · rw [splitOn_cons_self, hsource, List.zip_cons_cons, List.countP_cons, hcount]
    simp [Ne.symm hne]

theorem cutLast (hstop : stop ∉ text) (hne : text ≠ []) : Trims stop [] text 1 := by
  constructor
  · rw [List.splitOn_eq_singleton hstop]
    exact .cons List.nil_prefix .nil
  · rw [List.splitOn_eq_singleton hstop]
    simp [Ne.symm hne]

/-- pieces that are not whole are shorter -/
theorem countP_length (h : Trims stop kept source n) :
    ((kept.splitOn stop).zip (source.splitOn stop)).countP
      (fun p => p.1.length < p.2.length) = n := by
  rw [← h.count]
  apply List.countP_congr
  rintro ⟨p, q⟩ hmem
  have hpq : p <+: q := (List.forall₂_iff_zip.mp h.prefixes).2 hmem
  have hle := hpq.length_le
  rw [decide_eq_true_iff, decide_eq_true_iff]
  show p.length < q.length ↔ p ≠ q
  constructor
  · rintro hlt rfl
    omega
  · intro hne
    by_contra hge
    exact hne (hpq.eq_of_length (by omega))

end Trims

end

/-! ## bytes -/

theorem Splits.trims {d : Delimiters} (hblock : d.blockStart = [])
    (hmark : d.lineMark.head? ≠ some newline) {input : List UInt8} {ts : List Token}
    (h : Splits d input ts) :
    Trims newline (ts.flatMap Token.kept) input (ts.countP Token.isComment) := by
  induction h with
  | nil => exact .nil
  | @cons input rest t ts hread hrest ih =>
    have happend := hread.eq_append
    rw [List.flatMap_cons, List.countP_cons]
    cases hread with
    | block hne => exact absurd hblock hne
    | line hb hl htext =>
      have hne := htext.text_ne_nil hmark hl
      cases htext with
      | ended hnl hin =>
        rw [hin]
        exact ih.cut hnl hne
      | last hnl =>
        obtain rfl := hrest.unique .nil
        exact .cutLast hnl hne
    | literal | plain =>
      rw [happend]
      exact ih.append _

/-! ## characters -/

namespace Utf8

theorem encode_inj {a b : List Char} (h : encode a = encode b) : a = b := by
  have htext := congrArg decode? h
  rw [decode?_encode, decode?_encode] at htext
  exact String.ofList_injective (Option.some.inj htext)

theorem splitOn_encode (text : List Char) :
    (encode text).splitOn newline = (text.splitOn '\n').map encode := by
  induction text with
  | nil => rfl
  | cons c cs ih =>
    by_cases hc : c = '\n'
    · rw [hc, splitOn_cons_self, List.map_cons, ← ih]
      exact splitOn_cons_self newline (encode cs)
    · have hnot : newline ∉ encode [c] := by
        intro hmem
        have hchar : '\n' ∈ (String.ofList [c]).toList := by
          apply mem_of_newline_mem
          rwa [ofString, String.toList_ofList]
        rw [String.toList_ofList, List.mem_singleton] at hchar
        exact hc hchar.symm
      obtain ⟨p, ps, hp⟩ := List.exists_cons_of_ne_nil (List.splitOn_ne_nil '\n' cs)
      have hbytes : encode (c :: cs) = encode [c] ++ encode cs := encode_append [c] cs
      rw [hbytes, splitOn_append_of_notMem hnot, ih, splitOn_cons_of_ne hc, hp]
      show (encode [c] ++ encode p) :: _ = encode ([c] ++ p) :: _
      rw [encode_append]

theorem prefix_of_encode {a b : List Char} (h : encode a <+: encode b) : a <+: b := by
  obtain ⟨rest, hrest⟩ := h
  obtain ⟨back, hback, -⟩ := encode_eq_append hrest.symm
  exact ⟨back, hback.symm⟩

end Utf8

/-- lines of bytes are lines of characters -/
theorem Trims.of_encode {kept source : List Char} {n : Nat}
    (h : Trims newline (Utf8.encode kept) (Utf8.encode source) n) : Trims '\n' kept source n := by
  obtain ⟨hprefixes, hcount⟩ := h
  rw [Utf8.splitOn_encode, Utf8.splitOn_encode] at hprefixes hcount
  constructor
  · rw [List.forall₂_map_left_iff, List.forall₂_map_right_iff] at hprefixes
    exact hprefixes.imp fun _ _ => Utf8.prefix_of_encode
  · rw [← hcount, List.zip_map, List.countP_map]
    apply List.countP_congr
    rintro ⟨p, q⟩ -
    rw [Function.comp_apply, decide_eq_true_iff, decide_eq_true_iff]
    show p ≠ q ↔ Utf8.encode p ≠ Utf8.encode q
    exact not_congr ⟨congrArg _, Utf8.encode_inj⟩

/-- **Stripping line comments goes line by line.**  The text has as many lines as the source, each
of them is a beginning of the line of the source, and the comments are as many as the lines that got
shorter. -/
theorem strip_lines (source : String) (l : Language) (hblock : l.blockStart = "")
    (hmark : l.lineMark.toList.head? ≠ some '\n') :
    ((strip source l).text.toList.splitOn '\n').length = (source.toList.splitOn '\n').length ∧
    List.Forall₂ (· <+: ·) ((strip source l).text.toList.splitOn '\n')
      (source.toList.splitOn '\n') ∧
    (strip source l).removed =
      (((strip source l).text.toList.splitOn '\n').zip (source.toList.splitOn '\n')).countP
        (fun p => p.1.length < p.2.length) := by
  obtain ⟨ts, hts⟩ := exists_splits l.delimiters (Utf8.ofString source)
  obtain ⟨hout, hremoved⟩ := hts.scan_eq
  have hstart : l.delimiters.blockStart = [] := by
    show Utf8.ofString l.blockStart = []
    rw [hblock]
    rfl
  have htrims := hts.trims hstart (Utf8.head?_ofString_ne hmark)
  rw [← hout, ← hremoved, ← ofString_strip_text] at htrims
  have hlines := htrims.of_encode
  exact ⟨hlines.prefixes.length_eq, hlines.prefixes, hlines.countP_length.symm⟩

/-- a mark in a literal that goes over two lines, a comment behind code and one that fills its line -/
theorem strip_lines_python :
    strip "s = '#\n' # x\n#y" Language.builtin[1] = ⟨"s = '#\n' \n", 2⟩ ∧
    List.Forall₂ (· <+: ·) (("s = '#\n' \n").toList.splitOn '\n')
      (("s = '#\n' # x\n#y").toList.splitOn '\n') := by
  have hstrip : strip "s = '#\n' # x\n#y" Language.builtin[1] = ⟨"s = '#\n' \n", 2⟩ := by
    decide +kernel
  obtain ⟨-, hprefixes, -⟩ :=
    strip_lines "s = '#\n' # x\n#y" Language.builtin[1] (by decide) (by decide)
  rw [hstrip] at hprefixes
  exact ⟨hstrip, hprefixes⟩

end CommentFree
