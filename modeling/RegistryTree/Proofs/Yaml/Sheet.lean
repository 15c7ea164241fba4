import RegistryTree.Proofs.Yaml.Cursor
import RegistryTree.Yaml.Sheet

/-!
# Moving to a column

A sheet goes on at a column in one of two ways. Where the line has content, it is ended and the next
is indented; where it has nothing but indentation and is not too far, it is filled up with spaces.

> `Sheet.toColumn_of_content`, `Sheet.toColumn_of_far`: the sheet on a new line.
> `Sheet.toColumn_next`: the sheet behind an indicator that a block follows.
-/

namespace RegistryTree.Yaml.Sheet

variable {p : Sheet} {d : Nat}

/-- A new line with its indentation. -/
def newLine (d : Nat) (p : Sheet) : Sheet :=
  ((p.lineBreak '\n').put (List.replicate d ' ')).mark true true

theorem text_newLine (d : Nat) (p : Sheet) :
    (p.newLine d).text = p.text ++ '\n' :: List.replicate d ' ' := by
  rw [newLine, text_mark, text_put, text_lineBreak, List.append_assoc]
  rfl

@[simp] theorem column_newLine : (p.newLine d).column = d := by
  simp [newLine, mark, put, lineBreak]

@[simp] theorem spaced_newLine : (p.newLine d).spaced = true := rfl

@[simp] theorem column_put (s : List Char) : (p.put s).column = p.column + s.length := rfl

@[simp] theorem indenting_put (s : List Char) : (p.put s).indenting = p.indenting := rfl

/-- A line that has been ended is filled up to the column. -/
theorem toColumn_lineBreak (c : Char) :
    (p.lineBreak c).toColumn d = ((p.lineBreak c).put (List.replicate d ' ')).mark true true := by
  cases d with
  | zero => rfl
  | succ d => simp [toColumn, lineBreak, put, mark]

theorem toColumn_of_break (h : (!p.indenting || d < p.column || (p.column = d && !p.spaced)) = true) :
    p.toColumn d = p.newLine d := by
  rw [toColumn, if_pos h]
  cases d with
  | zero => rfl
  | succ d => simp [newLine, lineBreak, put, mark]

/-- Where the line has content, a new one begins. -/
theorem toColumn_of_content (h : p.indenting = false) : p.toColumn d = p.newLine d :=
  toColumn_of_break (by simp [h])

/-- Where the line reaches beyond the column, a new one begins. -/
theorem toColumn_of_far (h : d < p.column) : p.toColumn d = p.newLine d :=
  toColumn_of_break (by simp [h])

/-- Behind an indicator that a block follows, one space leads to the column of the block. -/
theorem toColumn_next (hindenting : p.indenting = true) (hcolumn : p.column + 1 = d) :
    p.toColumn d = (p.put [' ']).mark true true := by
  subst hcolumn
  have hstay : ¬(!p.indenting || p.column + 1 < p.column ||
      (p.column = p.column + 1 && !p.spaced)) = true := by
    simp [hindenting]
  rw [toColumn, if_neg hstay]
  simp [hindenting]

end RegistryTree.Yaml.Sheet
