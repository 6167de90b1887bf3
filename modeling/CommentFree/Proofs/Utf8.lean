import CommentFree.Text.Utf8
import Mathlib.Tactic.SplitIfs

/-!
# Reading back what was encoded

Encoding a text and reading its bytes gives the text again, with no gap:

* `next_encode`           the first piece of an encoded text is its first character;
* `pieces_encode`         so the pieces are the characters;
* `decode?_encode`, `decodeLossy_encode`.

Bytes of a text can be cut only between characters, because no character starts with a byte from
the middle of another one:

* `encode_eq_append`      a text that begins with the bytes of another text begins with that text;
* `encode_cut`            a non-empty text found anywhere among the bytes of a text stands there as
                          characters, with whole texts before and after it.
-/

namespace CommentFree.Utf8

/-! ## one character -/

theorem next_one {a : UInt8} (ha : a.toNat < 0x80) (rest : List UInt8) :
    next a rest = (some (Char.ofNat a.toNat), rest) := by
  have h : a < 0x80 := by simpa [UInt8.lt_iff_toNat_lt] using ha
  unfold next
  rw [if_pos h]

theorem follow_succ {b : UInt8} (hb : 0x80 ≤ b.toNat ∧ b.toNat ≤ 0xBF) (owed value : Nat)
    (rest : List UInt8) :
    follow (owed + 1) value (b :: rest) = follow owed (value * 64 + b.toNat % 64) rest := by
  have h : 0x80 ≤ b ∧ b ≤ 0xBF := by simpa [UInt8.le_iff_toNat_le] using hb
  rw [follow, if_pos h]

theorem next_more {a b low high : UInt8} {owed bits : Nat} (ha : 0x80 ≤ a.toNat)
    (hl : lead? a = some (owed, bits, low, high))
    (hb : low.toNat ≤ b.toNat ∧ b.toNat ≤ high.toNat) (rest : List UInt8) :
    next a (b :: rest) = follow (owed - 1) (bits * 64 + b.toNat % 64) rest := by
  have h1 : ¬ a < 0x80 := by simp [UInt8.lt_iff_toNat_lt]; omega
  have h2 : low ≤ b ∧ b ≤ high := by simpa [UInt8.le_iff_toNat_le] using hb
  unfold next
  simp only [if_neg h1, hl, if_pos h2]

theorem lead?_two {a : UInt8} (ha : 0xC2 ≤ a.toNat ∧ a.toNat ≤ 0xDF) :
    lead? a = some (1, a.toNat % 32, 0x80, 0xBF) := by
  unfold lead?
  rw [if_pos]
  simpa [UInt8.le_iff_toNat_le] using ha

theorem lead?_three {a : UInt8} (ha : 0xE0 ≤ a.toNat ∧ a.toNat ≤ 0xEF) :
    ∃ low high, lead? a = some (2, a.toNat % 16, low, high) ∧
      low.toNat = (if a.toNat = 0xE0 then 0xA0 else 0x80) ∧
      high.toNat = (if a.toNat = 0xED then 0x9F else 0xBF) := by
  unfold lead?
  simp only [UInt8.le_iff_toNat_le, ← UInt8.toNat_inj, UInt8.reduceToNat]
  by_cases h0 : a.toNat = 0xE0
  · rw [if_neg (by omega), if_pos h0, if_pos h0, if_neg (by omega), h0]
    exact ⟨_, _, rfl, rfl, rfl⟩
  · by_cases hd : a.toNat = 0xED
    · rw [if_neg (by omega), if_neg h0, if_pos hd, if_neg h0, if_pos hd, hd]
      exact ⟨_, _, rfl, rfl, rfl⟩
    · rw [if_neg (by omega), if_neg h0, if_neg hd, if_pos (by omega), if_neg h0, if_neg hd]
      exact ⟨_, _, rfl, rfl, rfl⟩

theorem lead?_four {a : UInt8} (ha : 0xF0 ≤ a.toNat ∧ a.toNat ≤ 0xF4) :
    ∃ low high, lead? a = some (3, a.toNat % 8, low, high) ∧
      low.toNat = (if a.toNat = 0xF0 then 0x90 else 0x80) ∧
      high.toNat = (if a.toNat = 0xF4 then 0x8F else 0xBF) := by
  unfold lead?
  simp only [UInt8.le_iff_toNat_le, ← UInt8.toNat_inj, UInt8.reduceToNat]
  by_cases h0 : a.toNat = 0xF0
  · rw [if_neg (by omega), if_neg (by omega), if_neg (by omega), if_neg (by omega), if_pos h0,
      if_pos h0, if_neg (by omega), h0]
    exact ⟨_, _, rfl, rfl, rfl⟩
  · by_cases h4 : a.toNat = 0xF4
    · rw [if_neg (by omega), if_neg (by omega), if_neg (by omega), if_neg (by omega), if_neg h0,
        if_neg (by omega), if_pos h4, if_neg h0, if_pos h4, h4]
      exact ⟨_, _, rfl, rfl, rfl⟩
    · rw [if_neg (by omega), if_neg (by omega), if_neg (by omega), if_neg (by omega), if_neg h0,
        if_pos (by omega), if_neg h0, if_neg h4]
      exact ⟨_, _, rfl, rfl, rfl⟩

theorem toNat_ofNat {n : Nat} (h : n < 256) : (UInt8.ofNat n).toNat = n :=
  UInt8.toNat_ofNat_of_lt' h

/-- the bytes of a character are read as that character, whatever follows them -/
theorem next_encode (c : Char) (rest : List UInt8) :
    ∃ b bs, String.utf8EncodeChar c = b :: bs ∧ next b (bs ++ rest) = (some c, rest) := by
  have hv : c.val.toNat < 0xD800 ∨ 0xDFFF < c.val.toNat ∧ c.val.toNat < 0x110000 := c.valid
  have hc : Char.ofNat c.val.toNat = c := Char.ofNat_toNat c
  unfold String.utf8EncodeChar
  dsimp only
  generalize c.val.toNat = v at *
  have e6 (n : Nat) : (UInt8.ofNat (n % 64 + 0x80)).toNat = n % 64 + 0x80 :=
    toNat_ofNat (by omega)
  -- one case for each length; `hn` puts the bits of the bytes together again
  split_ifs with h1 h2 h3
  · refine ⟨_, _, rfl, ?_⟩
    have e : (UInt8.ofNat v).toNat = v := toNat_ofNat (by omega)
    rw [List.nil_append, next_one (by omega), e, hc]
  · refine ⟨_, _, rfl, ?_⟩
    have e : (UInt8.ofNat (v / 64 % 32 + 0xC0)).toNat = v / 64 % 32 + 0xC0 :=
      toNat_ofNat (by omega)
    have hn : (v / 64 % 32 + 0xC0) % 32 * 64 + (v % 64 + 0x80) % 64 = v := by omega
    rw [List.cons_append, List.nil_append,
      next_more (by omega) (lead?_two (by omega)) (by rw [e6]; simp; omega), e, e6, hn]
    show (some (Char.ofNat v), rest) = _
    rw [hc]
  · refine ⟨_, _, rfl, ?_⟩
    have e : (UInt8.ofNat (v / 4096 % 16 + 0xE0)).toNat = v / 4096 % 16 + 0xE0 :=
      toNat_ofNat (by omega)
    obtain ⟨low, high, hl, hlow, hhigh⟩ :=
      lead?_three (a := UInt8.ofNat (v / 4096 % 16 + 0xE0)) (by omega)
    have hn : ((v / 4096 % 16 + 0xE0) % 16 * 64 + (v / 64 % 64 + 0x80) % 64) * 64
        + (v % 64 + 0x80) % 64 = v := by omega
    rw [List.cons_append, List.cons_append, List.nil_append,
      next_more (by omega) hl (by rw [e6, hlow, hhigh, e]; split_ifs <;> omega),
      follow_succ (by rw [e6]; omega), e, e6, e6, hn]
    show (some (Char.ofNat v), rest) = _
    rw [hc]
  · refine ⟨_, _, rfl, ?_⟩
    have e : (UInt8.ofNat (v / 262144 % 8 + 0xF0)).toNat = v / 262144 % 8 + 0xF0 :=
      toNat_ofNat (by omega)
    obtain ⟨low, high, hl, hlow, hhigh⟩ :=
      lead?_four (a := UInt8.ofNat (v / 262144 % 8 + 0xF0)) (by omega)
    have hn : (((v / 262144 % 8 + 0xF0) % 8 * 64 + (v / 4096 % 64 + 0x80) % 64) * 64
        + (v / 64 % 64 + 0x80) % 64) * 64 + (v % 64 + 0x80) % 64 = v := by omega
    rw [List.cons_append, List.cons_append, List.cons_append, List.nil_append,
      next_more (by omega) hl (by rw [e6, hlow, hhigh, e]; split_ifs <;> omega),
      follow_succ (by rw [e6]; omega), follow_succ (by rw [e6]; omega), e, e6, e6, e6, hn]
    show (some (Char.ofNat v), rest) = _
    rw [hc]

/-! ## a text -/

theorem pieces_encode (text : List Char) : pieces (encode text) = text.map some := by
  induction text with
  | nil => exact pieces_nil
  | cons c cs ih =>
    obtain ⟨b, bs, hc, hn⟩ := next_encode c (encode cs)
    rw [encode_cons, hc, List.cons_append, pieces_cons, hn, ih, List.map_cons]

theorem decode?_encode (text : List Char) : decode? (encode text) = some (String.ofList text) := by
  have h : (text.map some).mapM id = some text := by
    induction text with
    | nil => rfl
    | cons c cs ih => rw [List.map_cons, List.mapM_cons, ih]; rfl
  rw [decode?, pieces_encode, h]
  rfl

theorem decodeLossy_encode (text : List Char) : decodeLossy (encode text) = String.ofList text := by
  rw [decodeLossy, pieces_encode, List.map_map]
  congr 1
  exact List.map_id text

theorem decode?_ofString (text : String) : decode? (ofString text) = some text := by
  rw [ofString, decode?_encode, String.ofList_toList]

theorem ofString_append (a b : String) : ofString (a ++ b) = ofString a ++ ofString b := by
  unfold ofString
  rw [String.toList_append, encode_append]

/-- characters are told apart by their bytes, and by where these end -/
theorem encodeChar_append_inj {c d : Char} {x y : List UInt8}
    (h : String.utf8EncodeChar c ++ x = String.utf8EncodeChar d ++ y) : c = d ∧ x = y := by
  obtain ⟨b, bs, hc, hb⟩ := next_encode c x
  obtain ⟨e, es, hd, he⟩ := next_encode d y
  rw [hc, hd, List.cons_append, List.cons_append] at h
  obtain ⟨rfl, hrest⟩ := List.cons.inj h
  rw [hrest, he] at hb
  obtain ⟨hdc, hyx⟩ := Prod.mk.inj hb
  exact ⟨(Option.some.inj hdc).symm, hyx.symm⟩

/-- a text that begins with the bytes of another one begins with that text -/
theorem encode_eq_append {text front : List Char} {rest : List UInt8}
    (h : encode text = encode front ++ rest) :
    ∃ back, text = front ++ back ∧ rest = encode back := by
  induction front generalizing text with
  | nil => exact ⟨text, rfl, h.symm⟩
  | cons d ds ih =>
    rw [encode_cons, List.append_assoc] at h
    cases text with
    | nil =>
      obtain ⟨b, bs, hd, _⟩ := next_encode d []
      rw [hd] at h
      exact nomatch h
    | cons c cs =>
      rw [encode_cons] at h
      obtain ⟨rfl, hrest⟩ := encodeChar_append_inj h
      obtain ⟨back, rfl, hb⟩ := ih hrest
      exact ⟨back, rfl, hb⟩

/-! ## cuts -/

/-- a byte that starts a character stands in a text at the start of a character -/
theorem encode_eq_append_cons {text : List Char} {a r : List UInt8} {b : UInt8}
    (hb : b.IsUTF8FirstByte) (h : encode text = a ++ b :: r) :
    ∃ front back, text = front ++ back ∧ a = encode front ∧ b :: r = encode back := by
  induction text generalizing a with
  | nil => exact absurd h.symm (by simp [encode_nil])
  | cons c cs ih =>
    cases a with
    | nil => exact ⟨[], c :: cs, rfl, rfl, h.symm⟩
    | cons a0 as =>
      rw [encode_cons] at h
      rcases List.append_eq_append_iff.mp h with ⟨t, ht, hcs⟩ | ⟨t, ht, hr⟩
      · obtain ⟨front, back, rfl, rfl, hback⟩ := ih hcs
        exact ⟨c :: front, back, rfl, by rw [ht, encode_cons], hback⟩
      · cases t with
        | nil =>
          refine ⟨[c], cs, rfl, ?_, hr⟩
          rw [encode_cons, ht, List.append_nil, encode_nil, List.append_nil]
        | cons t0 ts =>
          -- the byte would be one of `c`, but not its first
          obtain ⟨rfl, _⟩ := List.cons.inj hr
          have hlt : (a0 :: as).length < (String.utf8EncodeChar c).length := by simp [ht]
          have hget : (String.utf8EncodeChar c)[(a0 :: as).length] = b := by simp [ht]
          rw [← hget, UInt8.isUTF8FirstByte_getElem_utf8EncodeChar] at hb
          exact nomatch hb

theorem encode_cons_eq (c : Char) (cs : List Char) :
    ∃ b bs, encode (c :: cs) = b :: bs ∧ b.IsUTF8FirstByte := by
  obtain ⟨b, bs, hc, _⟩ := next_encode c []
  refine ⟨b, bs ++ encode cs, by rw [encode_cons, hc, List.cons_append], ?_⟩
  have hlt : 0 < (String.utf8EncodeChar c).length := by simp [hc]
  have hget : (String.utf8EncodeChar c)[0] = b := by simp [hc]
  rw [← hget, UInt8.isUTF8FirstByte_getElem_utf8EncodeChar]

/-- **Bytes of a text found among the bytes of another one are characters of it**, with whole texts
before and after them. -/
theorem encode_cut {text found : List Char} {a r : List UInt8} (hne : found ≠ [])
    (h : encode text = a ++ (encode found ++ r)) :
    ∃ front back, text = front ++ (found ++ back) ∧ a = encode front ∧ r = encode back := by
  obtain ⟨c, cs, rfl⟩ := List.exists_cons_of_ne_nil hne
  obtain ⟨b, bs, hbs, hb⟩ := encode_cons_eq c cs
  rw [hbs, List.cons_append] at h
  obtain ⟨front, rest, rfl, hfront, hrest⟩ := encode_eq_append_cons hb h
  rw [← List.cons_append, ← hbs] at hrest
  obtain ⟨back, rfl, hback⟩ := encode_eq_append hrest.symm
  exact ⟨front, back, rfl, hfront, hback⟩

theorem mem_of_newline_mem {text : String} (h : '\n'.toUInt8 ∈ ofString text) : '\n' ∈ text.toList := by
  obtain ⟨front, back, hsplit⟩ := List.append_of_mem h
  have hcut : encode text.toList = front ++ (encode ['\n'] ++ back) := hsplit
  obtain ⟨a, b, htext, -, -⟩ := encode_cut (List.cons_ne_nil _ _) hcut
  rw [htext]
  exact List.mem_append_right a List.mem_cons_self

theorem toList_ne_nil (text : String) (h : ofString text ≠ []) : text.toList ≠ [] := by
  intro hnil
  apply h
  rw [ofString, hnil]
  rfl

end CommentFree.Utf8
