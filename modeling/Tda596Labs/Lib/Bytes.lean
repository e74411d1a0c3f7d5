import Mathlib.Data.List.Lex

/-! # Bytes

The contents of files and of messages are sequences of bytes.  They are compared byte by byte, as strings are, cut
into lines, and written to a file at an offset.
-/

namespace Tda596Labs

/-- Bytes in the order of their values. -/
instance instLinearOrderByte : LinearOrder UInt8 where
  le_refl := UInt8.le_refl
  le_trans _ _ _ := UInt8.le_trans
  lt_iff_le_not_ge _ _ := by simp only [UInt8.le_iff_toNat_le, UInt8.lt_iff_toNat_lt]; omega
  le_antisymm _ _ := UInt8.le_antisymm
  le_total := UInt8.le_total
  toDecidableLE := inferInstance

abbrev Bytes := List UInt8

/-- A text of ASCII characters. -/
def ascii (text : String) : Bytes := text.toList.map fun char => char.toNat.toUInt8

/-! ## Lines -/

/-- The lines of a file; a last line without a newline counts as a line. -/
def linesOf : Bytes → List Bytes
  | [] => []
  | byte :: bytes =>
    if byte = 10 then [] :: linesOf bytes
    else match linesOf bytes with
      | [] => [[byte]]
      | line :: lines => (byte :: line) :: lines

theorem linesOf_append (front bytes : Bytes) :
    linesOf (front ++ 10 :: bytes) = linesOf (front ++ [10]) ++ linesOf bytes := by
  induction front with
  | nil => simp [linesOf]
  | cons byte front ih =>
    simp only [List.cons_append, linesOf, ih]
    by_cases newline : byte = 10
    · simp [newline]
    · simp only [if_neg newline]
      cases whole : linesOf (front ++ [10]) with
      | nil =>
        -- a file that contains a newline has a line
        cases front with
        | nil => simp [linesOf] at whole
        | cons first front =>
          simp only [List.cons_append, linesOf] at whole
          split at whole
          · cases whole
          · split at whole <;> cases whole
      | cons line lines => simp

theorem linesOf_line {line : Bytes} (plain : 10 ∉ line) : linesOf (line ++ [10]) = [line] := by
  induction line with
  | nil => rfl
  | cons byte line ih =>
    simp only [List.mem_cons, not_or] at plain
    simp [linesOf, Ne.symm plain.1, ih plain.2]

/-! ## Writing in place -/

/-- A write at an offset; a gap before it is filled with zeros. -/
def writeAt (content : Bytes) (offset : Nat) (chunk : Bytes) : Bytes :=
  content.take offset ++ List.replicate (offset - content.length) 0 ++ chunk ++
    content.drop (offset + chunk.length)

theorem writeAt_end (content chunk : Bytes) : writeAt content content.length chunk = content ++ chunk := by
  simp [writeAt]

end Tda596Labs
