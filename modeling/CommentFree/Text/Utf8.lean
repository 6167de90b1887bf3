/-!
# Bytes and characters

Files, arguments and typed lines arrive as bytes; texts are lists of characters.  `encode` writes
a text in UTF-8, and `pieces` reads bytes back: each piece is a character, or a *gap* (`none`)
for the longest run of bytes that begins a character and is not continued as one.  The two ways to
read a text are views of the pieces:

* `decode?`       the text, provided there is no gap;
* `decodeLossy`   the text with U+FFFD in the place of each gap.
-/

namespace CommentFree.Utf8

def encode (text : List Char) : List UInt8 := text.flatMap String.utf8EncodeChar

theorem encode_nil : encode [] = [] := rfl
theorem encode_cons (c : Char) (cs : List Char) :
    encode (c :: cs) = String.utf8EncodeChar c ++ encode cs := rfl
theorem encode_append (a b : List Char) : encode (a ++ b) = encode a ++ encode b := by
  simp [encode, List.flatMap_append]

def ofString (text : String) : List UInt8 := encode text.toList

/-! ## one piece -/

/-- what the first byte of a longer character promises: the bytes owed after it, the bits it
brings itself, and the range of the second byte, which rules out overlong forms, surrogates and
values above U+10FFFF -/
def lead? (a : UInt8) : Option (Nat × Nat × UInt8 × UInt8) :=
  if 0xC2 ≤ a ∧ a ≤ 0xDF then some (1, a.toNat % 32, 0x80, 0xBF)
  else if a = 0xE0 then some (2, 0, 0xA0, 0xBF)
  else if a = 0xED then some (2, 13, 0x80, 0x9F)
  else if 0xE1 ≤ a ∧ a ≤ 0xEF then some (2, a.toNat % 16, 0x80, 0xBF)
  else if a = 0xF0 then some (3, 0, 0x90, 0xBF)
  else if 0xF1 ≤ a ∧ a ≤ 0xF3 then some (3, a.toNat % 8, 0x80, 0xBF)
  else if a = 0xF4 then some (3, 4, 0x80, 0x8F)
  else none

/-- takes the bytes still owed, six bits each; stops at the first byte that is not one -/
def follow : Nat → Nat → List UInt8 → Option Char × List UInt8
  | 0, value, rest => (some (Char.ofNat value), rest)
  | _ + 1, _, [] => (none, [])
  | owed + 1, value, b :: bs =>
    if 0x80 ≤ b ∧ b ≤ 0xBF then follow owed (value * 64 + b.toNat % 64) bs
    else (none, b :: bs)

/-- the piece that starts with the byte `a`, and the bytes after it -/
def next (a : UInt8) (bs : List UInt8) : Option Char × List UInt8 :=
  if a < 0x80 then (some (Char.ofNat a.toNat), bs)
  else match lead? a, bs with
    | none, _ => (none, bs)
    | some _, [] => (none, [])
    | some (owed, bits, low, high), b :: rest =>
      if low ≤ b ∧ b ≤ high then follow (owed - 1) (bits * 64 + b.toNat % 64) rest
      else (none, bs)

theorem follow_length (owed value : Nat) (bs : List UInt8) :
    (follow owed value bs).2.length ≤ bs.length := by
  induction owed generalizing value bs with
  | zero => simp [follow]
  | succ owed ih =>
    cases bs with
    | nil => simp [follow]
    | cons b bs =>
      simp only [follow]
      split
      · exact Nat.le_trans (ih _ _) (Nat.le_succ _)
      · exact Nat.le_refl _

/-- a piece has at least one byte -/
theorem next_length (a : UInt8) (bs : List UInt8) : (next a bs).2.length ≤ bs.length := by
  unfold next
  split
  · exact Nat.le_refl _
  · split
    · exact Nat.le_refl _
    · exact Nat.le_refl _
    · split
      · exact Nat.le_trans (follow_length _ _ _) (Nat.le_succ _)
      · exact Nat.le_refl _

/-! ## all pieces -/

/-- the pieces of `bytes`, put after those already read, which stand in reverse -/
def piecesOnto (seen : List (Option Char)) : List UInt8 → List (Option Char)
  | [] => seen.reverse
  | b :: bs => piecesOnto ((next b bs).1 :: seen) (next b bs).2
termination_by bytes => bytes.length
decreasing_by exact Nat.lt_succ_of_le (next_length b bs)

def pieces (bytes : List UInt8) : List (Option Char) := piecesOnto [] bytes

/-- pieces read earlier stand in front of the later ones -/
theorem piecesOnto_append (seen before : List (Option Char)) (bytes : List UInt8) :
    piecesOnto (seen ++ before) bytes = before.reverse ++ piecesOnto seen bytes := by
  fun_induction piecesOnto seen bytes with
  | case1 seen => simp [piecesOnto]
  | case2 seen b bs ih => rw [piecesOnto]; exact ih

theorem pieces_nil : pieces [] = [] := by simp [pieces, piecesOnto]

theorem pieces_cons (b : UInt8) (bs : List UInt8) :
    pieces (b :: bs) = (next b bs).1 :: pieces (next b bs).2 := by
  rw [pieces, piecesOnto]; exact piecesOnto_append [] [(next b bs).1] (next b bs).2

/-- the text of the bytes, if they are well-formed throughout -/
def decode? (bytes : List UInt8) : Option String :=
  ((pieces bytes).mapM id).map String.ofList

/-- the text of the bytes, with U+FFFD for each gap -/
def decodeLossy (bytes : List UInt8) : String :=
  String.ofList ((pieces bytes).map (·.getD '\uFFFD'))

end CommentFree.Utf8
