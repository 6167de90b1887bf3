import CommentFree.Proofs.Utf8

/-!
# Only texts are read

Bytes that are read without a gap are the bytes of the text that was read (`decode?_eq_some_iff`).
The ranges of the first two bytes are what makes this true: they leave no second spelling of a
character and no surrogate.  `encode_of_next` is the case of one character, by the length that its
first byte promises.
-/

namespace CommentFree.Utf8

/-! ## one character -/

theorem val_ofNat {n : Nat} (h : n < 0xD800 ∨ 0xDFFF < n ∧ n < 0x110000) :
    (Char.ofNat n).val.toNat = n := by
  have hvalid : n.isValidChar := h
  unfold Char.ofNat
  rw [dif_pos hvalid]
  rfl

theorem byte_eq {n : Nat} {b : UInt8} (h : n = b.toNat) : UInt8.ofNat n = b := by
  rw [h, UInt8.ofNat_toNat]

theorem lead?_eq_none {a : UInt8} (ha : a.toNat < 0xC2 ∨ 0xF4 < a.toNat) : lead? a = none := by
  unfold lead?
  simp only [UInt8.le_iff_toNat_le, ← UInt8.toNat_inj, UInt8.reduceToNat]
  iterate 7 rw [if_neg (by omega)]

theorem follow_eq_some {owed value : Nat} {bs rest : List UInt8} {c : Char}
    (h : follow (owed + 1) value bs = (some c, rest)) :
    ∃ b tail, bs = b :: tail ∧ 0x80 ≤ b.toNat ∧ b.toNat ≤ 0xBF ∧
      follow owed (value * 64 + b.toNat % 64) tail = (some c, rest) := by
  cases bs with
  | nil => cases h
  | cons b tail =>
    rw [follow] at h
    by_cases hb : 0x80 ≤ b ∧ b ≤ 0xBF
    · rw [if_pos hb] at h
      exact ⟨b, tail, rfl, UInt8.le_iff_toNat_le.mp hb.1, UInt8.le_iff_toNat_le.mp hb.2, h⟩
    · rw [if_neg hb] at h
      cases h

theorem next_eq_some {a low high : UInt8} {owed bits : Nat} {bs rest : List UInt8} {c : Char}
    (ha : 0x80 ≤ a.toNat) (hlead : lead? a = some (owed, bits, low, high))
    (h : next a bs = (some c, rest)) :
    ∃ b tail, bs = b :: tail ∧ low.toNat ≤ b.toNat ∧ b.toNat ≤ high.toNat ∧
      follow (owed - 1) (bits * 64 + b.toNat % 64) tail = (some c, rest) := by
  have ha' : ¬ a < 0x80 := by simp [UInt8.lt_iff_toNat_lt]; omega
  unfold next at h
  rw [if_neg ha', hlead] at h
  cases bs with
  | nil => cases h
  | cons b tail =>
    dsimp only at h
    by_cases hb : low ≤ b ∧ b ≤ high
    · rw [if_pos hb] at h
      exact ⟨b, tail, rfl, UInt8.le_iff_toNat_le.mp hb.1, UInt8.le_iff_toNat_le.mp hb.2, h⟩
    · rw [if_neg hb] at h
      cases h

section
variable {a : UInt8} {bs rest : List UInt8} {c : Char}

theorem encode_of_one (ha : a.toNat < 0x80) (h : next a bs = (some c, rest)) :
    a :: bs = String.utf8EncodeChar c ++ rest := by
  rw [next_one ha] at h
  obtain ⟨hc, rfl⟩ := Prod.mk.inj h
  have hv : c.val.toNat = a.toNat := by
    rw [← Option.some.inj hc]
    exact val_ofNat (by omega)
  unfold String.utf8EncodeChar
  dsimp only
  rw [hv, if_pos (by omega), byte_eq rfl]
  rfl

theorem encode_of_two (ha : 0xC2 ≤ a.toNat ∧ a.toNat ≤ 0xDF) (h : next a bs = (some c, rest)) :
    a :: bs = String.utf8EncodeChar c ++ rest := by
  obtain ⟨b, tail, rfl, hlow, hhigh, h⟩ := next_eq_some (by omega) (lead?_two ha) h
  simp only [UInt8.reduceToNat] at hlow hhigh
  obtain ⟨hc, rfl⟩ := Prod.mk.inj h
  have hv : c.val.toNat = a.toNat % 32 * 64 + b.toNat % 64 := by
    rw [← Option.some.inj hc]
    exact val_ofNat (by omega)
  unfold String.utf8EncodeChar
  dsimp only
  rw [hv, if_neg (by omega), if_pos (by omega), byte_eq (b := a) (by omega),
    byte_eq (b := b) (by omega)]
  rfl

theorem encode_of_three (ha : 0xE0 ≤ a.toNat ∧ a.toNat ≤ 0xEF) (h : next a bs = (some c, rest)) :
    a :: bs = String.utf8EncodeChar c ++ rest := by
  obtain ⟨low, high, hlead, hlow, hhigh⟩ := lead?_three ha
  obtain ⟨b, tail, rfl, hb, hb', h⟩ := next_eq_some (by omega) hlead h
  obtain ⟨b', tail, rfl, hlow', hhigh', h⟩ := follow_eq_some h
  obtain ⟨hc, rfl⟩ := Prod.mk.inj h
  rw [hlow] at hb
  rw [hhigh] at hb'
  -- nothing that two bytes can spell, and no surrogate
  have hrange : 0x80 ≤ b.toNat ∧ b.toNat ≤ 0xBF ∧ (a.toNat = 0xE0 → 0xA0 ≤ b.toNat) ∧
      (a.toNat = 0xED → b.toNat ≤ 0x9F) := by
    split_ifs at hb hb' <;> omega
  have hv : c.val.toNat = (a.toNat % 16 * 64 + b.toNat % 64) * 64 + b'.toNat % 64 := by
    rw [← Option.some.inj hc]
    exact val_ofNat (by omega)
  unfold String.utf8EncodeChar
  dsimp only
  rw [hv, if_neg (by omega), if_neg (by omega), if_pos (by omega), byte_eq (b := a) (by omega),
    byte_eq (b := b) (by omega), byte_eq (b := b') (by omega)]
  rfl

theorem encode_of_four (ha : 0xF0 ≤ a.toNat ∧ a.toNat ≤ 0xF4) (h : next a bs = (some c, rest)) :
    a :: bs = String.utf8EncodeChar c ++ rest := by
  obtain ⟨low, high, hlead, hlow, hhigh⟩ := lead?_four ha
  obtain ⟨b, tail, rfl, hb, hb', h⟩ := next_eq_some (by omega) hlead h
  obtain ⟨b', tail, rfl, hlow', hhigh', h⟩ := follow_eq_some h
  obtain ⟨b'', tail, rfl, hlow'', hhigh'', h⟩ := follow_eq_some h
  obtain ⟨hc, rfl⟩ := Prod.mk.inj h
  rw [hlow] at hb
  rw [hhigh] at hb'
  -- nothing that three bytes can spell, and nothing above the last character
  have hrange : 0x80 ≤ b.toNat ∧ b.toNat ≤ 0xBF ∧ (a.toNat = 0xF0 → 0x90 ≤ b.toNat) ∧
      (a.toNat = 0xF4 → b.toNat ≤ 0x8F) := by
    split_ifs at hb hb' <;> omega
  have hv : c.val.toNat =
      ((a.toNat % 8 * 64 + b.toNat % 64) * 64 + b'.toNat % 64) * 64 + b''.toNat % 64 := by
    rw [← Option.some.inj hc]
    exact val_ofNat (by omega)
  unfold String.utf8EncodeChar
  dsimp only
  rw [hv, if_neg (by omega), if_neg (by omega), if_neg (by omega), byte_eq (b := a) (by omega),
    byte_eq (b := b) (by omega), byte_eq (b := b') (by omega), byte_eq (b := b'') (by omega)]
  rfl

theorem encode_of_next (h : next a bs = (some c, rest)) :
    a :: bs = String.utf8EncodeChar c ++ rest := by
  by_cases hnone : 0x80 ≤ a.toNat ∧ (a.toNat < 0xC2 ∨ 0xF4 < a.toNat)
  · have ha : ¬ a < 0x80 := by simp [UInt8.lt_iff_toNat_lt]; omega
    unfold next at h
    rw [if_neg ha, lead?_eq_none hnone.2] at h
    exact nomatch h
  by_cases hone : a.toNat < 0x80
  · exact encode_of_one hone h
  by_cases htwo : a.toNat ≤ 0xDF
  · exact encode_of_two (by omega) h
  by_cases hthree : a.toNat ≤ 0xEF
  · exact encode_of_three (by omega) h
  · exact encode_of_four (by omega) h

end

/-! ## a text -/

theorem encode_of_pieces {text : List Char} {bytes : List UInt8}
    (h : pieces bytes = text.map some) : encode text = bytes := by
  induction text generalizing bytes with
  | nil =>
    cases bytes with
    | nil => rfl
    | cons b bs =>
      rw [pieces_cons] at h
      cases h
  | cons c cs ih =>
    cases bytes with
    | nil =>
      rw [pieces_nil] at h
      cases h
    | cons b bs =>
      rw [pieces_cons, List.map_cons] at h
      obtain ⟨hc, hcs⟩ := List.cons.inj h
      rw [encode_cons, ih hcs]
      exact (encode_of_next (Prod.ext hc rfl)).symm

theorem eq_map_some {pieces : List (Option Char)} {text : List Char}
    (h : pieces.mapM id = some text) : pieces = text.map some := by
  induction pieces generalizing text with
  | nil =>
    obtain rfl : [] = text := Option.some.inj h
    rfl
  | cons p ps ih =>
    rw [List.mapM_cons] at h
    obtain ⟨c, hc, h⟩ := Option.bind_eq_some_iff.mp h
    obtain ⟨cs, hcs, h⟩ := Option.bind_eq_some_iff.mp h
    obtain rfl : c :: cs = text := Option.some.inj h
    obtain rfl : p = some c := hc
    rw [ih hcs, List.map_cons]

/-- **Reading and writing are inverse**: the bytes that are read as a text are the bytes of it. -/
theorem decode?_eq_some_iff {bytes : List UInt8} {text : String} :
    decode? bytes = some text ↔ bytes = ofString text := by
  constructor
  · intro h
    obtain ⟨chars, hchars, rfl⟩ := Option.map_eq_some_iff.mp h
    unfold ofString
    rw [String.toList_ofList, encode_of_pieces (eq_map_some hchars)]
  · rintro rfl
    exact decode?_ofString text

end CommentFree.Utf8
