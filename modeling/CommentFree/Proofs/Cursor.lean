import CommentFree.Proofs.Body

/-!
# The scan by position

The scanner can also be written as a loop over positions of a source that stays as it is: four flags
say what the position is in, and every round looks at the bytes from there and moves on by a
delimiter, by a line or by one byte (`Cursor.round`).  A round has no result if it looks for a
delimiter behind the end.

Not every combination of flags makes sense, and not every position is one.  That the loop stays
clear of the others follows from the scanner it stands for:

* `Cursor.Stands`    the flags are those of a mode, and what is left to scan begins at the position;
* `Stands.round`     a round has a result and does what `Scanner.step` does;
* `AtHead.stands`    so at the head of every round the cursor stands for a state that the scanner
                     comes by.
-/

namespace CommentFree

/-! ## flags -/

structure Flags where
  inComment : Bool
  inString : Bool
  inChar : Bool
  escape : Bool
  deriving DecidableEq

namespace Flags

def off : Flags := ⟨false, false, false, false⟩

def inCode (f : Flags) : Bool := !f.inComment && !f.inString && !f.inChar

/-- a quote that counts begins or ends a literal -/
def toggle (b : UInt8) (f : Flags) : Flags :=
  if !f.inComment && !f.escape then
    if b = Quote.double.byte && !f.inChar then { f with inString := !f.inString }
    else if b = Quote.single.byte && !f.inString then { f with inChar := !f.inChar }
    else f
  else f

/-- the flags after the byte `b` -/
def after (b : UInt8) (f : Flags) : Flags :=
  { f.toggle b with
    escape := ((f.toggle b).inString || (f.toggle b).inChar) && b = backslash && !f.escape }

/-- the flags of a mode -/
def ofMode : Mode → Flags
  | .code => off
  | .comment => { off with inComment := true }
  | .literal .double e => { off with inString := true, escape := e }
  | .literal .single e => { off with inChar := true, escape := e }

theorem inCode_ofMode {m : Mode} (h : m ≠ .code) : (ofMode m).inCode = false := by
  cases m with
  | code => exact absurd rfl h
  | comment => rfl
  | literal q e => cases q <;> rfl

theorem inComment_ofMode {m : Mode} (h : m ≠ .comment) : (ofMode m).inComment = false := by
  cases m with
  | code => rfl
  | comment => exact absurd rfl h
  | literal q e => cases q <;> rfl

theorem after_ofMode_code (b : UInt8) : off.after b = ofMode (Scanner.modeAfter b .code) := by
  by_cases hdouble : b = Quote.double.byte
  · subst hdouble
    rfl
  by_cases hsingle : b = Quote.single.byte
  · subst hsingle
    rfl
  · have hnone : Quote.ofByte? b = none := by
      apply Quote.ofByte?_eq_none
      intro q
      cases q with
      | double => exact hdouble
      | single => exact hsingle
    simp [after, toggle, off, ofMode, Scanner.modeAfter, hnone, hdouble, hsingle]

theorem after_ofMode (b : UInt8) (m : Mode) :
    (ofMode m).after b = ofMode (Scanner.modeAfter b m) := by
  cases m with
  | code => exact after_ofMode_code b
  | comment => rfl
  | literal q e =>
    cases e with
    | true => cases q <;> simp [after, toggle, off, ofMode, Scanner.modeAfter]
    | false =>
      show _ = ofMode (if b = q.byte then .code else .literal q (b = backslash))
      by_cases hquote : b = q.byte
      · subst hquote
        cases q <;> rfl
      · rw [if_neg hquote]
        cases q <;> simp [after, toggle, off, ofMode, hquote]

end Flags

/-! ## rounds -/

/-- whether a delimiter stands at a position; there is no answer behind the end -/
def delimiterAt? (bytes : List UInt8) (position : Nat) (delimiter : List UInt8) : Option Bool :=
  if position ≤ bytes.length then some (Delimiters.opens delimiter (bytes.drop position)) else none

/-- the position of the first newline from a position on, or the end -/
def lineEnd (bytes : List UInt8) (position : Nat) : Nat :=
  if h : position < bytes.length then
    if bytes[position] = newline then position else lineEnd bytes (position + 1)
  else position
termination_by bytes.length - position

structure Cursor where
  flags : Flags
  removed : Nat
  /-- the bytes copied so far, in order -/
  output : List UInt8
  position : Nat
  deriving DecidableEq

namespace Cursor

def start : Cursor := ⟨.off, 0, [], 0⟩

def openBlock (d : Delimiters) (c : Cursor) : Cursor :=
  { c with
    flags := { c.flags with inComment := true }
    removed := c.removed + 1
    position := c.position + d.blockStart.length }

def skipLine (bytes : List UInt8) (c : Cursor) : Cursor :=
  { c with
    removed := c.removed + 1
    output := c.output ++ if lineEnd bytes c.position < bytes.length then [newline] else []
    position := lineEnd bytes c.position + 1 }

def closeBlock (d : Delimiters) (b : UInt8) (c : Cursor) : Cursor :=
  { c with
    flags := { c.flags.after b with inComment := false }
    position := c.position + d.blockEnd.length }

def skipByte (b : UInt8) (c : Cursor) : Cursor :=
  { c with flags := c.flags.after b, position := c.position + 1 }

def copyByte (b : UInt8) (c : Cursor) : Cursor :=
  { c with flags := c.flags.after b, output := c.output ++ [b], position := c.position + 1 }

/-- copies the byte at the position, or looks there for the end of the comment -/
def passByte (d : Delimiters) (bytes : List UInt8) (c : Cursor) : Option Cursor := do
  let b ← bytes[c.position]?
  if (c.flags.after b).inComment then
    if ← delimiterAt? bytes c.position d.blockEnd then return c.closeBlock d b
    else return c.skipByte b
  else return c.copyByte b

/-- one round of the loop -/
def round (d : Delimiters) (bytes : List UInt8) (c : Cursor) : Option Cursor := do
  if c.flags.inCode then
    if ← delimiterAt? bytes c.position d.blockStart then return c.openBlock d
    else if ← delimiterAt? bytes c.position d.lineMark then return c.skipLine bytes
    else c.passByte d bytes
  else c.passByte d bytes

/-- the cursor at the head of the loop after `n` rounds -/
inductive AtHead (d : Delimiters) (bytes : List UInt8) : Nat → Cursor → Prop
  | start : AtHead d bytes 0 start
  | next {n : Nat} {c c' : Cursor} (h : AtHead d bytes n c) (hlt : c.position < bytes.length)
      (hround : c.round d bytes = some c') : AtHead d bytes (n + 1) c'

end Cursor

theorem delimiterAt?_of_le {bytes : List UInt8} {position : Nat} (h : position ≤ bytes.length)
    (delimiter : List UInt8) :
    delimiterAt? bytes position delimiter =
      some (Delimiters.opens delimiter (bytes.drop position)) := if_pos h

theorem drop_lineEnd (bytes : List UInt8) (position : Nat) :
    bytes.drop (lineEnd bytes position) = (bytes.drop position).dropWhile (· ≠ newline) := by
  fun_induction lineEnd bytes position with
  | case1 position h hnl =>
    rw [List.drop_eq_getElem_cons h, List.dropWhile_cons, if_neg (by simp [hnl])]
  | case2 position h hnl ih =>
    rw [ih, List.drop_eq_getElem_cons h, List.dropWhile_cons, if_pos (by simp [hnl])]
  | case3 position h => rw [List.drop_of_length_le (Nat.le_of_not_lt h), List.dropWhile_nil]

theorem lineEnd_le {bytes : List UInt8} {position : Nat} (h : position ≤ bytes.length) :
    lineEnd bytes position ≤ bytes.length := by
  fun_induction lineEnd bytes position with
  | case1 => exact h
  | case2 position hlt hnl ih => exact ih hlt
  | case3 => exact h

/-- a move keeps no more bytes than it takes -/
theorem Scanner.Moves.length_kept {d : Delimiters} {s s' : Scanner} {input rest : List UInt8}
    (h : Scanner.Moves d s input s' rest) :
    s'.kept.length + rest.length ≤ s.kept.length + input.length := by
  cases h with
  | openBlock hm hne hin | closeBlock hm hne hin | line hm hb hl hnl hin | copy hm hb hl hin
  | skip hm he hin | copyLiteral hm hin =>
    rw [hin]
    simp only [List.length_append, List.length_cons]
    omega
  | lastLine hm hb hl hnl => exact Nat.add_le_add_left (Nat.zero_le _) _

theorem Scanner.Reaches.length_kept {d : Delimiters} {s s' : Scanner} {input rest : List UInt8}
    (h : Scanner.Reaches d s input s' rest) :
    s'.kept.length + rest.length ≤ s.kept.length + input.length := by
  induction h with
  | here => exact Nat.le_refl _
  | @step s s' b bs rest h ih => exact ih.trans (Scanner.step_moves d s b bs).length_kept

theorem Scanner.Reaches.concat {d : Delimiters} {s s' : Scanner} {input bs : List UInt8}
    {b : UInt8} (h : Scanner.Reaches d s input s' (b :: bs)) :
    Scanner.Reaches d s input (Scanner.step d s' b bs).1 (Scanner.step d s' b bs).2 := by
  generalize hrest : b :: bs = rest at h
  induction h with
  | here =>
    subst hrest
    exact .step .here
  | step h ih => exact .step (ih hrest)

namespace Cursor

/-! ## what a cursor stands for -/

/-- the cursor is at a scanner with the bytes `rest` still to scan -/
structure Stands (bytes : List UInt8) (c : Cursor) (s : Scanner) (rest : List UInt8) : Prop where
  flags : c.flags = .ofMode s.mode
  removed : c.removed = s.removed
  output : c.output = s.output
  left : rest = bytes.drop c.position
  bound : c.position ≤ bytes.length + 1

variable {d : Delimiters} {bytes : List UInt8}

theorem stands_start (bytes : List UInt8) : Stands bytes start .start bytes :=
  ⟨rfl, rfl, rfl, rfl, Nat.zero_le _⟩

theorem Stands.lt {c : Cursor} {s : Scanner} {b : UInt8} {bs : List UInt8}
    (h : Stands bytes c s (b :: bs)) : c.position < bytes.length := by
  have hlength := congrArg List.length h.left
  rw [List.length_drop, List.length_cons] at hlength
  omega

theorem Stands.exists_cons {c : Cursor} {s : Scanner} {rest : List UInt8}
    (h : Stands bytes c s rest) (hlt : c.position < bytes.length) : ∃ b bs, rest = b :: bs := by
  rw [h.left]
  exact ⟨_, _, List.drop_eq_getElem_cons hlt⟩

section
variable {c : Cursor} {s : Scanner} {b : UInt8} {bs : List UInt8} (h : Stands bytes c s (b :: bs))
include h

theorem Stands.getElem? : bytes[c.position]? = some b := by
  have hhead : (bytes.drop c.position).head? = some b := by rw [← h.left]; rfl
  rwa [List.head?_drop] at hhead

theorem Stands.delimiterAt? (delimiter : List UInt8) :
    delimiterAt? bytes c.position delimiter = some (Delimiters.opens delimiter (b :: bs)) := by
  rw [delimiterAt?_of_le (Nat.le_of_lt h.lt), ← h.left]

/-- moving on by bytes that are there -/
theorem Stands.ahead {taken rest : List UInt8} (hin : b :: bs = taken ++ rest) :
    rest = bytes.drop (c.position + taken.length) ∧
      c.position + taken.length ≤ bytes.length := by
  have hlt := h.lt
  have hdrop : bytes.drop c.position = taken ++ rest := by rw [← h.left, hin]
  constructor
  · rw [← List.drop_drop, hdrop, List.drop_left]
  · have hlength := congrArg List.length hdrop
    rw [List.length_drop, List.length_append] at hlength
    omega

theorem Stands.after : c.flags.after b = .ofMode (Scanner.modeAfter b s.mode) := by
  rw [h.flags, Flags.after_ofMode]

theorem Stands.passByte_copying (hm : s.mode ≠ .comment) :
    c.passByte d bytes = some (c.copyByte b) := by
  have hin : (c.flags.after b).inComment = false := by
    rw [h.after, Flags.inComment_ofMode (Scanner.modeAfter_ne_comment b hm)]
  simp [passByte, h.getElem?, hin]

theorem Stands.passByte_comment (hm : s.mode = .comment) :
    c.passByte d bytes = some (if Delimiters.opens d.blockEnd (b :: bs) then c.closeBlock d b
      else c.skipByte b) := by
  have hin : (c.flags.after b).inComment = true := by rw [h.after, hm]; rfl
  unfold passByte
  rw [h.getElem?, h.delimiterAt?]
  show (if (c.flags.after b).inComment = true then _ else _) = _
  rw [if_pos hin]
  cases Delimiters.opens d.blockEnd (b :: bs) <;> rfl

theorem Stands.round_other (hm : s.mode ≠ .code) : c.round d bytes = c.passByte d bytes := by
  unfold Cursor.round
  rw [h.flags, Flags.inCode_ofMode hm]
  rfl

theorem Stands.round_code (hm : s.mode = .code) :
    c.round d bytes =
      if Delimiters.opens d.blockStart (b :: bs) then some (c.openBlock d)
      else if Delimiters.opens d.lineMark (b :: bs) then some (c.skipLine bytes)
      else c.passByte d bytes := by
  have hcode : c.flags.inCode = true := by rw [h.flags, hm]; rfl
  simp only [Cursor.round, hcode, h.delimiterAt?]
  rfl

theorem Stands.openBlock (hm : s.mode = .code) {rest : List UInt8}
    (hin : b :: bs = d.blockStart ++ rest) :
    Stands bytes (c.openBlock d) ⟨.comment, s.removed + 1, s.kept⟩ rest := by
  obtain ⟨hleft, hbound⟩ := h.ahead hin
  refine ⟨?_, congrArg (· + 1) h.removed, h.output, hleft, Nat.le_succ_of_le hbound⟩
  show { c.flags with inComment := true } = Flags.ofMode .comment
  rw [h.flags, hm]
  rfl

theorem Stands.skipLine (hm : s.mode = .code) {text rest : List UInt8} (hnl : newline ∉ text)
    (hin : b :: bs = text ++ newline :: rest) :
    Stands bytes (c.skipLine bytes) ⟨.code, s.removed + 1, newline :: s.kept⟩ rest := by
  have hdrop : bytes.drop (lineEnd bytes c.position) = newline :: rest := by
    rw [drop_lineEnd, ← h.left, hin, Scanner.dropWhile_line hnl]
  have hlt : lineEnd bytes c.position < bytes.length := by
    have hlength := congrArg List.length hdrop
    rw [List.length_drop, List.length_cons] at hlength
    omega
  refine ⟨?_, congrArg (· + 1) h.removed, ?_, ?_, Nat.succ_le_succ (Nat.le_of_lt hlt)⟩
  · show c.flags = _
    rw [h.flags, hm]
  · show c.output ++ (if _ then _ else _) = _
    rw [if_pos hlt, Scanner.output_push, h.output]
    rfl
  · show rest = bytes.drop (lineEnd bytes c.position + 1)
    rw [← List.drop_drop, hdrop]
    rfl

/-- without a newline the position goes one behind the end -/
theorem Stands.skipLastLine (hm : s.mode = .code) (hnl : newline ∉ b :: bs) :
    Stands bytes (c.skipLine bytes) ⟨.code, s.removed + 1, s.kept⟩ [] := by
  have hdrop : bytes.drop (lineEnd bytes c.position) = [] := by
    rw [drop_lineEnd, ← h.left, Scanner.dropWhile_lastLine hnl]
  have hge : bytes.length ≤ lineEnd bytes c.position := List.drop_eq_nil_iff.mp hdrop
  have hle := lineEnd_le (Nat.le_of_lt h.lt)
  refine ⟨?_, congrArg (· + 1) h.removed, ?_, ?_, Nat.succ_le_succ hle⟩
  · show c.flags = _
    rw [h.flags, hm]
  · show c.output ++ (if _ then _ else _) = _
    rw [if_neg (Nat.not_lt.mpr hge), List.append_nil, h.output]
    rfl
  · show [] = bytes.drop (lineEnd bytes c.position + 1)
    rw [← List.drop_drop, hdrop]
    rfl

theorem Stands.closeBlock (hm : s.mode = .comment) {rest : List UInt8}
    (hin : b :: bs = d.blockEnd ++ rest) :
    Stands bytes (c.closeBlock d b) ⟨.code, s.removed, s.kept⟩ rest := by
  obtain ⟨hleft, hbound⟩ := h.ahead hin
  refine ⟨?_, h.removed, h.output, hleft, Nat.le_succ_of_le hbound⟩
  show { c.flags.after b with inComment := false } = Flags.ofMode .code
  rw [h.after, hm]
  rfl

theorem Stands.skipByte (hm : s.mode = .comment) : Stands bytes (c.skipByte b) s bs := by
  have hcons : b :: bs = [b] ++ bs := rfl
  obtain ⟨hleft, hbound⟩ := h.ahead hcons
  refine ⟨?_, h.removed, h.output, hleft, Nat.le_succ_of_le hbound⟩
  show c.flags.after b = _
  rw [h.after, hm]
  rfl

theorem Stands.copyByte :
    Stands bytes (c.copyByte b) ⟨Scanner.modeAfter b s.mode, s.removed, b :: s.kept⟩ bs := by
  have hcons : b :: bs = [b] ++ bs := rfl
  obtain ⟨hleft, hbound⟩ := h.ahead hcons
  refine ⟨h.after, h.removed, ?_, hleft, Nat.le_succ_of_le hbound⟩
  show c.output ++ [b] = _
  rw [Scanner.output_push, h.output]
  rfl

/-- **A round is a step of the scanner.** -/
theorem Stands.round (d : Delimiters) : ∃ c', c.round d bytes = some c' ∧
    Stands bytes c' (Scanner.step d s b bs).1 (Scanner.step d s b bs).2 := by
  have hmove := Scanner.step_moves d s b bs
  generalize (Scanner.step d s b bs).1 = s' at hmove ⊢
  generalize (Scanner.step d s b bs).2 = rest at hmove ⊢
  cases hmove with
  | openBlock hm hne hin =>
    have hopens : Delimiters.opens d.blockStart (b :: bs) = true := by
      rw [hin]
      exact Delimiters.opens_append hne rest
    refine ⟨c.openBlock d, ?_, h.openBlock hm hin⟩
    rw [h.round_code hm, if_pos hopens]
  | line hm hb hl hnl hin =>
    refine ⟨c.skipLine bytes, ?_, h.skipLine hm hnl hin⟩
    rw [h.round_code hm, hb, if_neg Bool.false_ne_true, if_pos hl]
  | lastLine hm hb hl hnl =>
    refine ⟨c.skipLine bytes, ?_, h.skipLastLine hm hnl⟩
    rw [h.round_code hm, hb, if_neg Bool.false_ne_true, if_pos hl]
  | copy hm hb hl hin =>
    obtain ⟨rfl, rfl⟩ := List.cons.inj hin
    refine ⟨c.copyByte b, ?_, hm ▸ h.copyByte⟩
    rw [h.round_code hm, hb, hl, if_neg Bool.false_ne_true, if_neg Bool.false_ne_true,
      h.passByte_copying (by simp [hm])]
  | closeBlock hm hne hin =>
    have hopens : Delimiters.opens d.blockEnd (b :: bs) = true := by
      rw [hin]
      exact Delimiters.opens_append hne rest
    refine ⟨c.closeBlock d b, ?_, h.closeBlock hm hin⟩
    rw [h.round_other (by simp [hm]), h.passByte_comment hm, if_pos hopens]
  | skip hm he hin =>
    obtain ⟨rfl, rfl⟩ := List.cons.inj hin
    refine ⟨c.skipByte b, ?_, h.skipByte hm⟩
    rw [h.round_other (by simp [hm]), h.passByte_comment hm, he, if_neg Bool.false_ne_true]
  | copyLiteral hm hin =>
    obtain ⟨rfl, rfl⟩ := List.cons.inj hin
    refine ⟨c.copyByte b, ?_, hm ▸ h.copyByte⟩
    rw [h.round_other (by simp [hm]), h.passByte_copying (by simp [hm])]

end

/-! ## the loop -/

theorem Stands.position_lt {c c' : Cursor} {s s' : Scanner} {input rest : List UInt8}
    (h : Stands bytes c s input) (h' : Stands bytes c' s' rest)
    (hlt : rest.length < input.length) : c.position < c'.position := by
  rw [h.left, h'.left, List.length_drop, List.length_drop] at hlt
  omega

/-- where there is something left, a round moves on -/
theorem Stands.exists_round {c : Cursor} {s : Scanner} {rest : List UInt8}
    (h : Stands bytes c s rest) (d : Delimiters) (hlt : c.position < bytes.length) :
    ∃ c', c.round d bytes = some c' ∧ c.position < c'.position := by
  obtain ⟨b, bs, rfl⟩ := h.exists_cons hlt
  obtain ⟨c', hround, h'⟩ := h.round d
  exact ⟨c', hround, h.position_lt h' (Scanner.step_length d s b bs)⟩

/-- **At the head of every round the cursor stands for a state that the scanner comes by.** -/
theorem AtHead.stands {n : Nat} {c : Cursor} (h : AtHead d bytes n c) :
    n ≤ c.position ∧ n ≤ bytes.length ∧
      ∃ s rest, Scanner.Reaches d .start bytes s rest ∧ Stands bytes c s rest := by
  induction h with
  | start => exact ⟨Nat.le_refl _, Nat.zero_le _, .start, bytes, .here, stands_start bytes⟩
  | @next n c c' h hlt hround ih =>
    obtain ⟨hn, -, s, rest, hreaches, hstands⟩ := ih
    obtain ⟨b, bs, rfl⟩ := hstands.exists_cons hlt
    obtain ⟨c'', hround', h'⟩ := hstands.round d
    obtain rfl : c' = c'' := Option.some.inj (hround.symm.trans hround')
    have hmoved := hstands.position_lt h' (Scanner.step_length d s b bs)
    exact ⟨by omega, by omega, _, _, hreaches.concat, h'⟩

/-- the loop comes to the end from every head -/
theorem AtHead.exists_end {n : Nat} {c : Cursor} (h : AtHead d bytes n c) :
    ∃ n' c', AtHead d bytes n' c' ∧ bytes.length ≤ c'.position := by
  by_cases hlt : c.position < bytes.length
  · obtain ⟨-, -, s, rest, -, hstands⟩ := h.stands
    obtain ⟨c', hround, hmoved⟩ := hstands.exists_round d hlt
    exact (AtHead.next h hlt hround).exists_end
  · exact ⟨n, c, h, Nat.le_of_not_lt hlt⟩
termination_by bytes.length - c.position

/-- what holds of a cursor at the head of a round -/
structure Sound (bytes : List UInt8) (c : Cursor) : Prop where
  oneRegion : [c.flags.inComment, c.flags.inString, c.flags.inChar].count true ≤ 1
  escape : c.flags.escape = true → c.flags.inString = true ∨ c.flags.inChar = true
  output : c.output.length ≤ min c.position bytes.length
  position : c.position ≤ bytes.length + 1

theorem Stands.sound {c : Cursor} {s : Scanner} {rest : List UInt8} (h : Stands bytes c s rest)
    (hreaches : Scanner.Reaches d .start bytes s rest) : c.Sound bytes := by
  have hkept := hreaches.length_kept
  rw [h.left, List.length_drop, show Scanner.start.kept.length = 0 from rfl] at hkept
  refine ⟨?_, ?_, ?_, h.bound⟩
  · rw [h.flags]
    cases s.mode with
    | code | comment => decide
    | literal q e => cases q <;> cases e <;> decide
  · rw [h.flags]
    cases s.mode with
    | code | comment => decide
    | literal q e => cases q <;> cases e <;> decide
  · rw [h.output, Scanner.output, List.length_reverse]
    omega

end Cursor

/-- **The loop stays within the source, and ends.**  At the head of every round at most one region
is entered, a byte is escaped only in a literal, no more is copied than is passed, and the position
is at most one behind the end.  A round before the end never looks for a delimiter behind it, for
then it would have no result, and it moves on.  So after no more rounds than there are bytes the
loop is at the end, with what the scanner has copied and counted. -/
theorem scan_by_position (source : String) (l : Language) :
    (∀ n c, Cursor.AtHead l.delimiters (Utf8.ofString source) n c →
      c.Sound (Utf8.ofString source) ∧ n ≤ (Utf8.ofString source).length ∧
      (c.position < (Utf8.ofString source).length → ∃ c',
        c.round l.delimiters (Utf8.ofString source) = some c' ∧ c.position < c'.position) ∧
      ∃ s rest, Scanner.Reaches l.delimiters .start (Utf8.ofString source) s rest ∧
        c.Stands (Utf8.ofString source) s rest) ∧
    ∃ n c, Cursor.AtHead l.delimiters (Utf8.ofString source) n c ∧
      (Utf8.ofString source).length ≤ c.position ∧ c.flags = .ofMode (scan source l).mode ∧
      c.output = (scan source l).output ∧ c.removed = (strip source l).removed := by
  constructor
  · intro n c h
    obtain ⟨-, hn, s, rest, hreaches, hstands⟩ := h.stands
    exact ⟨hstands.sound hreaches, hn, hstands.exists_round _, s, rest, hreaches, hstands⟩
  · have hstart : Cursor.AtHead l.delimiters (Utf8.ofString source) 0 .start := .start
    obtain ⟨n, c, h, hend⟩ := hstart.exists_end
    obtain ⟨-, -, s, rest, hreaches, hstands⟩ := h.stands
    have hnil : rest = [] := by rw [hstands.left, List.drop_of_length_le hend]
    have hscan : scan source l = s := by
      rw [scan, hreaches.run_eq, hnil, Scanner.run_nil]
    refine ⟨n, c, h, hend, ?_, ?_, ?_⟩
    · rw [hscan, hstands.flags]
    · rw [hscan, hstands.output]
    · show c.removed = (scan source l).removed
      rw [hscan, hstands.removed]

/-- an escaped quote, and a line comment that takes the position behind the end -/
def quoteThenLine : List UInt8 := Utf8.ofString "'\\''//"

theorem scan_by_position_behind :
    Cursor.AtHead Language.builtin[0].delimiters quoteThenLine 2
      ⟨⟨false, false, true, true⟩, 0, [39, 92], 2⟩ ∧
    (∃ c', Cursor.round Language.builtin[0].delimiters quoteThenLine
      ⟨⟨false, false, true, true⟩, 0, [39, 92], 2⟩ = some c' ∧ 2 < c'.position) ∧
    Cursor.AtHead Language.builtin[0].delimiters quoteThenLine 5 ⟨.off, 1, [39, 92, 39, 39], 7⟩ ∧
    Cursor.Sound quoteThenLine ⟨.off, 1, [39, 92, 39, 39], 7⟩ := by
  obtain ⟨hheads, -⟩ := scan_by_position "'\\''//" Language.builtin[0]
  have h0 : Cursor.AtHead Language.builtin[0].delimiters quoteThenLine 0 .start := .start
  have h1 := @Cursor.AtHead.next _ _ _ _ ⟨⟨false, false, true, false⟩, 0, [39], 1⟩ h0
    (by decide) (by decide)
  have h2 := @Cursor.AtHead.next _ _ _ _ ⟨⟨false, false, true, true⟩, 0, [39, 92], 2⟩ h1
    (by decide) (by decide)
  have h3 := @Cursor.AtHead.next _ _ _ _ ⟨⟨false, false, true, false⟩, 0, [39, 92, 39], 3⟩ h2
    (by decide) (by decide)
  have h4 := @Cursor.AtHead.next _ _ _ _ ⟨.off, 0, [39, 92, 39, 39], 4⟩ h3 (by decide) (by decide)
  have h5 := @Cursor.AtHead.next _ _ _ _ ⟨.off, 1, [39, 92, 39, 39], 7⟩ h4 (by decide)
    (by decide +kernel)
  exact ⟨h2, (hheads _ _ h2).2.2.1 (by decide), h5, (hheads _ _ h5).1⟩

end CommentFree
