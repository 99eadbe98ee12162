import TangNano.Os.CheckedBuffer

/-!
# The command buffer as an editor

What `cursor_buffer` is for: a text with a cursor in it that can be edited on
both sides.
-/

namespace TangNano.Os

structure LineEditor (α : Type*) where
  left : List α
  right : List α

namespace LineEditor

section Steps

variable {α : Type*}

/-- In an array of `size` elements there is room for one less. -/
def step (size : ℕ) (op : BufferOp α) (e : LineEditor α) : Returned × LineEditor α :=
  match op with
  | .insert ch =>
      if e.left.length + e.right.length = size - 1 then (.flag false, e)
      else (.flag true, ⟨e.left ++ [ch], e.right⟩)
  | .backspace =>
      match e.left.getLast? with
      | none => (.flag false, e)
      | some _ => (.flag true, ⟨e.left.dropLast, e.right⟩)
  | .del => (.nothing, ⟨e.left, e.right.tail⟩)
  | .moveCursorLeft =>
      match e.left.getLast? with
      | none => (.flag false, e)
      | some ch => (.flag true, ⟨e.left.dropLast, ch :: e.right⟩)
  | .moveCursorRight =>
      match e.right with
      | [] => (.flag false, e)
      | ch :: right => (.flag true, ⟨e.left ++ [ch], right⟩)
  | .reset => (.nothing, ⟨[], []⟩)
  | .setTerminator => (.nothing, e)

def run (size : ℕ) : List (BufferOp α) → LineEditor α → List Returned × LineEditor α
  | [], e => ([], e)
  | op :: ops, e =>
      let r := e.step size op
      let rs := run size ops r.2
      (r.1 :: rs.1, rs.2)

theorem step_backspace (size : ℕ) (left right : List α) (ch : α) :
    step size .backspace ⟨left ++ [ch], right⟩ = (.flag true, ⟨left, right⟩) := by
  simp [step]

theorem step_moveCursorLeft (size : ℕ) (left right : List α) (ch : α) :
    step size .moveCursorLeft ⟨left ++ [ch], right⟩ = (.flag true, ⟨left, ch :: right⟩) := by
  simp [step]

end Steps

end LineEditor

namespace CheckedBuffer

open CheckedArray

section Parts

variable {α : Type*} (size : ℕ)

/-- The elements before the cursor. -/
def left (b : CheckedBuffer α) : Option (List α) := slice size b.cursor 0 b.line

/-- The elements from the cursor to the end. -/
def right (b : CheckedBuffer α) : Option (List α) := slice size (b.end_ - b.cursor) b.cursor b.line

end Parts

section Characters

variable {size : ℕ}

def editor (b : CursorBuffer size) : LineEditor Byte :=
  ⟨b.elementsBeforeCursor, b.elementsFromCursorToEnd⟩

theorem holds_editor (b : CursorBuffer size) : b.Holds (editor b).left (editor b).right :=
  ⟨rfl, rfl⟩

theorem editor_eq {b : CursorBuffer size} {before after : Text} (h : b.Holds before after) :
    editor b = ⟨before, after⟩ := by
  rw [editor, h.before, h.after]

/-- Each function does to the array what the editor does to the text. -/
theorem charCall_editor (op : BufferOp Byte) (b : CursorBuffer size) :
    ((charCall op b).1, editor (charCall op b).2) = (editor b).step size op := by
  have h := holds_editor b
  generalize (editor b).left = before at h
  generalize (editor b).right = after at h
  rw [editor_eq h]
  cases op with
  | insert ch =>
      cases hfull : b.isFull with
      | true =>
          rw [charCall, b.insert_of_isFull hfull, LineEditor.step, if_pos (h.isFull.mp hfull),
            editor_eq h]
      | false =>
          have hlength : before.length + after.length ≠ size - 1 :=
            h.isFull.not.mp (Bool.eq_false_iff.mp hfull)
          rw [charCall, b.insert_fst hfull, LineEditor.step, if_neg hlength,
            editor_eq (h.insert hfull ch)]
  | backspace =>
      induction before using List.reverseRecOn with
      | nil =>
          rw [charCall, h.backspace_none, editor_eq h]
          rfl
      | append_singleton before ch _ =>
          obtain ⟨htrue, hholds⟩ := h.backspace
          rw [charCall, htrue, editor_eq hholds, LineEditor.step_backspace]
  | del =>
      cases after with
      | nil =>
          rw [charCall, h.del_none, editor_eq h]
          rfl
      | cons ch after =>
          rw [charCall, editor_eq h.del]
          rfl
  | moveCursorLeft =>
      induction before using List.reverseRecOn with
      | nil =>
          rw [charCall, h.moveCursorLeft_none, editor_eq h]
          rfl
      | append_singleton before ch _ =>
          obtain ⟨htrue, hholds⟩ := h.moveCursorLeft
          rw [charCall, htrue, editor_eq hholds, LineEditor.step_moveCursorLeft]
  | moveCursorRight =>
      cases after with
      | nil =>
          rw [charCall, h.moveCursorRight_none, editor_eq h]
          rfl
      | cons ch after =>
          obtain ⟨htrue, hholds⟩ := h.moveCursorRight
          rw [charCall, htrue, editor_eq hholds]
          rfl
  | reset => rfl
  | setTerminator =>
      rw [charCall, editor_eq h.setTerminator]
      rfl

/-- A run stays in the array and does to it what the editor does to the text. -/
theorem run_ofBuffer (ops : List (BufferOp Byte)) (b : CursorBuffer size) :
    ∃ b' : CursorBuffer size,
      (ofBuffer b).run size 1 ops = some (((editor b).run size ops).1, ofBuffer b') ∧
        editor b' = ((editor b).run size ops).2 := by
  induction ops generalizing b with
  | nil => exact ⟨b, rfl, rfl⟩
  | cons op ops ih =>
      have hstep := charCall_editor op b
      obtain ⟨b', hrun, heditor⟩ := ih (charCall op b).2
      refine ⟨b', ?_, ?_⟩
      · rw [run, call_ofBuffer, Option.bind_some, hrun, Option.map_some, LineEditor.run, ← hstep]
      · rw [heditor, LineEditor.run, ← hstep]

theorem left_ofBuffer (b : CursorBuffer size) : (ofBuffer b).left size = some (editor b).left := by
  have hend := b.end_lt
  have hcursor := b.cursor_le
  have hslice : slice size b.cursor 0 b.line = _ := slice_of_le (by omega)
  rw [left, hslice]
  simp only [Nat.zero_add]
  rfl

theorem right_ofBuffer (b : CursorBuffer size) :
    (ofBuffer b).right size = some (editor b).right := by
  have hend := b.end_lt
  have hcursor := b.cursor_le
  have hle : b.cursor + (b.end_ - b.cursor) ≤ size := by omega
  exact slice_of_le hle

/-- From the empty buffer on, `cursor_buffer` is the editor: it returns the same, holds
the same before and after the cursor, and never leaves its array. -/
theorem buffer_is_editor (hsize : 1 ≤ size) (ops : List (BufferOp Byte)) :
    let e := (LineEditor.mk [] []).run size ops
    ∃ b : CheckedBuffer Byte, (empty : CheckedBuffer Byte).run size 1 ops = some (e.1, b) ∧
      b.left size = some e.2.left ∧ b.right size = some e.2.right ∧
      b.span size = some (e.2.left ++ e.2.right) := by
  dsimp only
  let start : CursorBuffer size := ⟨fun _ ↦ default, 0, 0, le_rfl, hsize⟩
  obtain ⟨b, hrun, heditor⟩ := run_ofBuffer ops start
  refine ⟨ofBuffer b, hrun, ?_, ?_, ?_⟩
  · rw [left_ofBuffer, heditor]
    rfl
  · rw [right_ofBuffer, heditor]
    rfl
  · rw [span_ofBuffer, (holds_editor b).span, heditor]
    rfl

/-- A `b` goes before the `a`; there is no room for a third character. -/
theorem buffer_is_editor_full :
    ∃ b : CheckedBuffer Byte,
      (empty : CheckedBuffer Byte).run 3 1
          [.insert 0x61, .moveCursorLeft, .insert 0x62, .insert 0x63, .setTerminator] =
        some ([.flag true, .flag true, .flag true, .flag false, .nothing], b) ∧
      b.left 3 = some [0x62] ∧ b.right 3 = some [0x61] ∧ b.span 3 = some [0x62, 0x61] :=
  @buffer_is_editor 3 (by decide) _

end Characters

end CheckedBuffer

end TangNano.Os
