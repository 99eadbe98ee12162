import TangNano.Library.CheckedArray
import TangNano.Os.Text

/-!
# The command buffer

Class `cursor_buffer`: an array, the place of the cursor and the end of the
input.  The operations move the elements after the cursor by one place.
-/

namespace TangNano.Os

open CheckedArray (moveUp moveDown moveUp_apply moveDown_apply)

/-- One place stays free for the terminator. -/
structure CursorBuffer (size : ℕ) where
  line : ℕ → Byte
  cursor : ℕ
  end_ : ℕ
  cursor_le : cursor ≤ end_
  end_lt : end_ < size

namespace CursorBuffer

variable {size : ℕ}

def insert (ch : Byte) (b : CursorBuffer size) : Bool × CursorBuffer size :=
  if hfull : b.end_ = size - 1 then (false, b)
  else
    have hcursor : b.cursor + 1 ≤ b.end_ + 1 := Nat.succ_le_succ b.cursor_le
    have hend : b.end_ + 1 < size := by have := b.end_lt; omega
    if b.cursor = b.end_ then
      (true, ⟨Function.update b.line b.cursor ch, b.cursor + 1, b.end_ + 1, hcursor, hend⟩)
    else
      (true, ⟨Function.update (moveUp b.cursor (b.end_ + 1) b.line) b.cursor ch, b.cursor + 1,
        b.end_ + 1, hcursor, hend⟩)

def backspace (b : CursorBuffer size) : Bool × CursorBuffer size :=
  if b.cursor = 0 then (false, b)
  else
    have hcursor : b.cursor - 1 ≤ b.end_ - 1 := Nat.sub_le_sub_right b.cursor_le 1
    have hend : b.end_ - 1 < size := (Nat.sub_le _ _).trans_lt b.end_lt
    if b.cursor = b.end_ then (true, ⟨b.line, b.cursor - 1, b.end_ - 1, hcursor, hend⟩)
    else
      (true, ⟨moveDown (b.end_ - (b.cursor - 1)) (b.cursor - 1) b.line, b.cursor - 1, b.end_ - 1,
        hcursor, hend⟩)

def del (b : CursorBuffer size) : CursorBuffer size :=
  if hcursor : b.cursor = b.end_ then b
  else
    ⟨moveDown (b.end_ - (b.cursor + 1)) b.cursor b.line, b.cursor, b.end_ - 1,
      by have := b.cursor_le; omega, (Nat.sub_le _ _).trans_lt b.end_lt⟩

def reset (b : CursorBuffer size) : CursorBuffer size :=
  ⟨b.line, 0, 0, le_rfl, (Nat.zero_le _).trans_lt b.end_lt⟩

def setTerminator (b : CursorBuffer size) : CursorBuffer size :=
  { b with line := Function.update b.line b.end_ 0 }

def isFull (b : CursorBuffer size) : Bool := b.end_ == size - 1

def moveCursorLeft (b : CursorBuffer size) : Bool × CursorBuffer size :=
  if b.cursor = 0 then (false, b)
  else (true, { b with cursor := b.cursor - 1, cursor_le := (Nat.sub_le _ _).trans b.cursor_le })

def moveCursorRight (b : CursorBuffer size) : Bool × CursorBuffer size :=
  if hcursor : b.cursor = b.end_ then (false, b)
  else
    (true, { b with cursor := b.cursor + 1, cursor_le := by have := b.cursor_le; omega })

/-- The elements that `apply_on_elements_from_cursor_to_end` visits. -/
def elementsFromCursorToEnd (b : CursorBuffer size) : Text :=
  (List.range (b.end_ - b.cursor)).map fun k ↦ b.line (b.cursor + k)

def elementsAfterCursorCount (b : CursorBuffer size) : ℕ := b.end_ - b.cursor

def span (b : CursorBuffer size) : Text := (List.range b.end_).map b.line

/-! ## The two parts of the input -/

def elementsBeforeCursor (b : CursorBuffer size) : Text := (List.range b.cursor).map b.line

/-- The input is a text with a cursor in it. -/
structure Holds (before after : Text) (b : CursorBuffer size) : Prop where
  before : b.elementsBeforeCursor = before
  after : b.elementsFromCursorToEnd = after

variable {before after : Text} {b : CursorBuffer size}

theorem Holds.cursor (h : b.Holds before after) : b.cursor = before.length := by
  rw [← h.before, elementsBeforeCursor, List.length_map, List.length_range]

theorem Holds.count (h : b.Holds before after) : b.elementsAfterCursorCount = after.length := by
  rw [← h.after, elementsFromCursorToEnd, List.length_map, List.length_range]
  rfl

theorem Holds.span (h : b.Holds before after) : b.span = before ++ after := by
  rw [← h.before, ← h.after, CursorBuffer.span, elementsBeforeCursor, elementsFromCursorToEnd]
  obtain ⟨n, hn⟩ := Nat.exists_eq_add_of_le b.cursor_le
  rw [hn, Nat.add_sub_cancel_left, List.range_add, List.map_append, List.map_map]
  rfl

theorem Holds.end_eq (h : b.Holds before after) : b.end_ = before.length + after.length := by
  rw [← h.cursor, ← h.count, elementsAfterCursorCount, Nat.add_sub_cancel' b.cursor_le]

theorem Holds.last {ch : Byte} (h : b.Holds (before ++ [ch]) after) :
    (List.range (b.cursor - 1)).map b.line = before ∧ b.line (b.cursor - 1) = ch := by
  have hcursor := h.cursor
  rw [List.length_append, List.length_singleton] at hcursor
  have hbefore := h.before
  rw [elementsBeforeCursor, hcursor, List.range_succ, List.map_append,
    List.map_singleton] at hbefore
  obtain ⟨hinit, hlast⟩ := List.append_inj' hbefore rfl
  rw [hcursor, Nat.add_sub_cancel]
  exact ⟨hinit, List.head_eq_of_cons_eq hlast⟩

theorem Holds.first {ch : Byte} (h : b.Holds before (ch :: after)) :
    b.line b.cursor = ch ∧
      (List.range (b.end_ - (b.cursor + 1))).map (fun k ↦ b.line (b.cursor + 1 + k)) = after := by
  have hcount := h.count
  rw [elementsAfterCursorCount, List.length_cons] at hcount
  have hrest : b.end_ - (b.cursor + 1) = after.length := by omega
  have hafter := h.after
  rw [elementsFromCursorToEnd, hcount, List.range_succ_eq_map,
    List.map_cons, List.map_map] at hafter
  obtain ⟨hfirst, htail⟩ := List.cons.inj hafter
  refine ⟨hfirst, ?_⟩
  rw [hrest]
  refine Eq.trans ?_ htail
  apply List.map_congr_left
  intro k _
  rw [Function.comp_apply, Nat.succ_eq_add_one, Nat.add_right_comm, Nat.add_assoc]

theorem Holds.cursor_eq_zero (h : b.Holds before after) : b.cursor = 0 ↔ before = [] := by
  rw [h.cursor, List.length_eq_zero_iff]

theorem Holds.cursor_eq_end (h : b.Holds before after) : b.cursor = b.end_ ↔ after = [] := by
  rw [h.cursor, h.end_eq, ← List.length_eq_zero_iff]
  omega

theorem holds_reset (b : CursorBuffer size) : b.reset.Holds [] [] := ⟨rfl, rfl⟩

/-- A character is put between the two parts. -/
theorem Holds.insert (h : b.Holds before after) (hfull : b.isFull = false) (ch : Byte) :
    (b.insert ch).2.Holds (before ++ [ch]) after := by
  have hend : b.end_ ≠ size - 1 := by
    rw [isFull, beq_eq_false_iff_ne] at hfull
    exact hfull
  have hle := b.cursor_le
  have hsub : b.end_ + 1 - (b.cursor + 1) = b.end_ - b.cursor := Nat.add_sub_add_right ..
  rw [← h.before, ← h.after, CursorBuffer.insert, dif_neg hend]
  dsimp only
  split
  · next heq =>
      refine ⟨?_, ?_⟩
      · dsimp only [elementsBeforeCursor]
        rw [List.range_succ, List.map_append, List.map_singleton, Function.update_self]
        congr 1
        exact List.map_congr_left fun k hk ↦
          Function.update_of_ne (List.mem_range.mp hk).ne ..
      · dsimp only [elementsFromCursorToEnd]
        rw [hsub, heq, Nat.sub_self]
        rfl
  · next hne =>
      refine ⟨?_, ?_⟩
      · dsimp only [elementsBeforeCursor]
        rw [List.range_succ, List.map_append, List.map_singleton, Function.update_self]
        congr 1
        apply List.map_congr_left
        intro k hk
        have hlt := List.mem_range.mp hk
        rw [Function.update_of_ne hlt.ne, moveUp_apply, if_neg (by omega)]
      · dsimp only [elementsFromCursorToEnd]
        rw [hsub]
        apply List.map_congr_left
        intro k hk
        have hlt := List.mem_range.mp hk
        rw [Function.update_of_ne (by omega), moveUp_apply, if_pos (by omega)]
        congr 1
        omega

theorem insert_of_isFull (h : b.isFull = true) (ch : Byte) : b.insert ch = (false, b) := by
  rw [isFull, beq_iff_eq] at h
  exact dif_pos h

theorem insert_fst (h : b.isFull = false) (ch : Byte) : (b.insert ch).1 = true := by
  rw [isFull, beq_eq_false_iff_ne] at h
  rw [CursorBuffer.insert, dif_neg h]
  dsimp only
  split <;> rfl

/-- The terminator is put after the end. -/
theorem Holds.setTerminator (h : b.Holds before after) : b.setTerminator.Holds before after := by
  have hcursor := b.cursor_le
  refine ⟨Eq.trans ?_ h.before, Eq.trans ?_ h.after⟩
  · apply List.map_congr_left
    intro k hk
    have hlt : k < b.cursor := List.mem_range.mp hk
    have hne : k ≠ b.end_ := by omega
    exact Function.update_of_ne hne ..
  · apply List.map_congr_left
    intro k hk
    have hlt : k < b.end_ - b.cursor := List.mem_range.mp hk
    have hne : b.cursor + k ≠ b.end_ := by omega
    exact Function.update_of_ne hne ..

theorem Holds.isFull (h : b.Holds before after) :
    b.isFull = true ↔ before.length + after.length = size - 1 := by
  rw [← h.end_eq, CursorBuffer.isFull, beq_iff_eq]

/-- The last character before the cursor is taken out. -/
theorem Holds.backspace {ch : Byte} (h : b.Holds (before ++ [ch]) after) :
    b.backspace.1 = true ∧ b.backspace.2.Holds before after := by
  obtain ⟨hinit, -⟩ := h.last
  have hzero : b.cursor ≠ 0 := by simp [h.cursor_eq_zero]
  have hle := b.cursor_le
  have hsub : b.end_ - 1 - (b.cursor - 1) = b.end_ - b.cursor := by omega
  rw [CursorBuffer.backspace, if_neg hzero]
  dsimp only
  split
  · next heq =>
      refine ⟨rfl, hinit, ?_⟩
      have hafter : after = [] := h.cursor_eq_end.mp heq
      rw [hafter]
      dsimp only [elementsFromCursorToEnd]
      rw [hsub, heq, Nat.sub_self]
      rfl
  · next hne =>
      refine ⟨rfl, ?_, ?_⟩
      · rw [← hinit]
        dsimp only [elementsBeforeCursor]
        apply List.map_congr_left
        intro k hk
        have hlt := List.mem_range.mp hk
        rw [moveDown_apply, if_neg (by omega)]
      · rw [← h.after]
        dsimp only [elementsFromCursorToEnd]
        rw [hsub]
        apply List.map_congr_left
        intro k hk
        have hlt := List.mem_range.mp hk
        rw [moveDown_apply, if_pos (by omega)]
        congr 1
        omega

theorem Holds.backspace_none (h : b.Holds [] after) : b.backspace = (false, b) :=
  if_pos (h.cursor_eq_zero.mpr rfl)

/-- The first character after the cursor is taken out. -/
theorem Holds.del {ch : Byte} (h : b.Holds before (ch :: after)) : b.del.Holds before after := by
  obtain ⟨-, htail⟩ := h.first
  have hne : b.cursor ≠ b.end_ := by simp [h.cursor_eq_end]
  have hle := b.cursor_le
  have hsub : b.end_ - 1 - b.cursor = b.end_ - (b.cursor + 1) := by omega
  rw [CursorBuffer.del, dif_neg hne]
  refine ⟨?_, ?_⟩
  · rw [← h.before]
    dsimp only [elementsBeforeCursor]
    apply List.map_congr_left
    intro k hk
    have hlt := List.mem_range.mp hk
    rw [moveDown_apply, if_neg (by omega)]
  · rw [← htail]
    dsimp only [elementsFromCursorToEnd]
    rw [hsub]
    apply List.map_congr_left
    intro k hk
    have hlt := List.mem_range.mp hk
    rw [moveDown_apply, if_pos (by omega)]
    congr 1
    omega

theorem Holds.del_none (h : b.Holds before []) : b.del = b :=
  dif_pos (h.cursor_eq_end.mpr rfl)

theorem Holds.moveCursorLeft {ch : Byte} (h : b.Holds (before ++ [ch]) after) :
    b.moveCursorLeft.1 = true ∧ b.moveCursorLeft.2.Holds before (ch :: after) := by
  obtain ⟨hinit, hlast⟩ := h.last
  have hzero : b.cursor ≠ 0 := by simp [h.cursor_eq_zero]
  have hle := b.cursor_le
  have hsub : b.end_ - (b.cursor - 1) = b.end_ - b.cursor + 1 := by omega
  rw [CursorBuffer.moveCursorLeft, if_neg hzero]
  refine ⟨rfl, hinit, ?_⟩
  rw [← h.after]
  dsimp only [elementsFromCursorToEnd]
  rw [hsub, List.range_succ_eq_map, List.map_cons, List.map_map, Nat.add_zero, hlast]
  congr 1
  apply List.map_congr_left
  intro k _
  rw [Function.comp_apply]
  congr 1
  omega

theorem Holds.moveCursorLeft_none (h : b.Holds [] after) : b.moveCursorLeft = (false, b) :=
  if_pos (h.cursor_eq_zero.mpr rfl)

theorem Holds.moveCursorRight {ch : Byte} (h : b.Holds before (ch :: after)) :
    b.moveCursorRight.1 = true ∧ b.moveCursorRight.2.Holds (before ++ [ch]) after := by
  obtain ⟨hfirst, htail⟩ := h.first
  have hne : b.cursor ≠ b.end_ := by simp [h.cursor_eq_end]
  rw [CursorBuffer.moveCursorRight, dif_neg hne]
  refine ⟨rfl, ?_, htail⟩
  rw [← h.before, ← hfirst]
  dsimp only [elementsBeforeCursor]
  rw [List.range_succ, List.map_append, List.map_singleton]

theorem Holds.moveCursorRight_none (h : b.Holds before []) : b.moveCursorRight = (false, b) :=
  dif_pos (h.cursor_eq_end.mpr rfl)

end CursorBuffer

end TangNano.Os
