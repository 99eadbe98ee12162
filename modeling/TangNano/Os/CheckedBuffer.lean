import TangNano.Library.CheckedArray
import TangNano.Os.CursorBuffer

/-!
# The command buffer with its accesses

Class `cursor_buffer` for elements of `width` bytes, with an array whose bounds
are checked.  The limit of the input is taken from the size of the array in
bytes.
-/

namespace TangNano.Os

open CheckedArray

/-- The members of `cursor_buffer`, whatever they hold. -/
structure CheckedBuffer (α : Type*) where
  line : ℕ → α
  cursor : ℕ
  end_ : ℕ

/-- A function of the class with its argument. -/
inductive BufferOp (α : Type*)
  | insert (ch : α)
  | backspace
  | del
  | moveCursorLeft
  | moveCursorRight
  | reset
  | setTerminator

/-- What a function of the class returns. -/
inductive Returned
  | nothing
  | flag (value : Bool)
deriving DecidableEq, Repr

namespace CheckedBuffer

section Functions

variable {α : Type*} (size width : ℕ)

/-- A buffer that has just been built. -/
def empty [Inhabited α] : CheckedBuffer α := ⟨fun _ ↦ default, 0, 0⟩

def insert (ch : α) (b : CheckedBuffer α) : Option (Returned × CheckedBuffer α) :=
  if b.end_ = size * width - 1 then some (.flag false, b)
  else if b.cursor = b.end_ then
    (write size b.cursor ch b.line).map fun line ↦ (.flag true, ⟨line, b.cursor + 1, b.end_ + 1⟩)
  else
    ((shiftUp size b.cursor (b.end_ + 1) b.line).bind (write size b.cursor ch)).map fun line ↦
      (.flag true, ⟨line, b.cursor + 1, b.end_ + 1⟩)

def backspace (b : CheckedBuffer α) : Option (Returned × CheckedBuffer α) :=
  if b.cursor = 0 then some (.flag false, b)
  else if b.cursor = b.end_ then some (.flag true, ⟨b.line, b.cursor - 1, b.end_ - 1⟩)
  else
    (shiftDown size (b.end_ - (b.cursor - 1)) (b.cursor - 1) b.line).map fun line ↦
      (.flag true, ⟨line, b.cursor - 1, b.end_ - 1⟩)

def del (b : CheckedBuffer α) : Option (Returned × CheckedBuffer α) :=
  if b.cursor = b.end_ then some (.nothing, b)
  else
    (shiftDown size (b.end_ - (b.cursor + 1)) b.cursor b.line).map fun line ↦
      (.nothing, ⟨line, b.cursor, b.end_ - 1⟩)

def reset (b : CheckedBuffer α) : Option (Returned × CheckedBuffer α) :=
  some (.nothing, ⟨b.line, 0, 0⟩)

def setTerminator [Inhabited α] (b : CheckedBuffer α) : Option (Returned × CheckedBuffer α) :=
  (write size b.end_ default b.line).map fun line ↦ (.nothing, { b with line := line })

def moveCursorLeft (b : CheckedBuffer α) : Option (Returned × CheckedBuffer α) :=
  if b.cursor = 0 then some (.flag false, b)
  else some (.flag true, { b with cursor := b.cursor - 1 })

def moveCursorRight (b : CheckedBuffer α) : Option (Returned × CheckedBuffer α) :=
  if b.cursor = b.end_ then some (.flag false, b)
  else some (.flag true, { b with cursor := b.cursor + 1 })

/-- The elements that `span` hands out. -/
def span (b : CheckedBuffer α) : Option (List α) := slice size b.end_ 0 b.line

def call [Inhabited α] (op : BufferOp α) (b : CheckedBuffer α) :
    Option (Returned × CheckedBuffer α) :=
  match op with
  | .insert ch => b.insert size width ch
  | .backspace => b.backspace size
  | .del => b.del size
  | .moveCursorLeft => b.moveCursorLeft
  | .moveCursorRight => b.moveCursorRight
  | .reset => b.reset
  | .setTerminator => b.setTerminator size

/-- The calls one after the other, with what they return. -/
def run [Inhabited α] : List (BufferOp α) → CheckedBuffer α →
    Option (List Returned × CheckedBuffer α)
  | [], b => some ([], b)
  | op :: ops, b =>
      (b.call size width op).bind fun r ↦ (run ops r.2).map fun rs ↦ (r.1 :: rs.1, rs.2)

end Functions

/-! ## Characters -/

section Characters

variable {size : ℕ}

abbrev ofBuffer (b : CursorBuffer size) : CheckedBuffer Byte := ⟨b.line, b.cursor, b.end_⟩

/-- The functions of a buffer of characters. -/
def charCall (op : BufferOp Byte) (b : CursorBuffer size) : Returned × CursorBuffer size :=
  match op with
  | .insert ch => (.flag (b.insert ch).1, (b.insert ch).2)
  | .backspace => (.flag b.backspace.1, b.backspace.2)
  | .del => (.nothing, b.del)
  | .moveCursorLeft => (.flag b.moveCursorLeft.1, b.moveCursorLeft.2)
  | .moveCursorRight => (.flag b.moveCursorRight.1, b.moveCursorRight.2)
  | .reset => (.nothing, b.reset)
  | .setTerminator => (.nothing, b.setTerminator)

theorem insert_ofBuffer (b : CursorBuffer size) (ch : Byte) :
    (ofBuffer b).insert size 1 ch = some (.flag (b.insert ch).1, ofBuffer (b.insert ch).2) := by
  have hend := b.end_lt
  have hcursor := b.cursor_le
  unfold insert CursorBuffer.insert
  dsimp only [ofBuffer]
  rw [Nat.mul_one]
  by_cases hfull : b.end_ = size - 1
  · rw [if_pos hfull, dif_pos hfull]
  rw [if_neg hfull, dif_neg hfull]
  split
  · next heq => rw [write_of_lt (by omega), Option.map_some]
  · next hne =>
      rw [shiftUp_of_lt _ (by omega), Option.bind_some, write_of_lt (by omega),
        Option.map_some]

theorem backspace_ofBuffer (b : CursorBuffer size) :
    (ofBuffer b).backspace size = some (.flag b.backspace.1, ofBuffer b.backspace.2) := by
  have hend := b.end_lt
  have hcursor := b.cursor_le
  unfold backspace CursorBuffer.backspace
  dsimp only [ofBuffer]
  by_cases hzero : b.cursor = 0
  · rw [if_pos hzero, if_pos hzero]
  rw [if_neg hzero, if_neg hzero]
  split
  · rfl
  · next hne => rw [shiftDown_of_lt (by omega), Option.map_some]

theorem del_ofBuffer (b : CursorBuffer size) :
    (ofBuffer b).del size = some (.nothing, ofBuffer b.del) := by
  have hend := b.end_lt
  have hcursor := b.cursor_le
  unfold del CursorBuffer.del
  dsimp only [ofBuffer]
  by_cases heq : b.cursor = b.end_
  · rw [if_pos heq, dif_pos heq]
  · rw [if_neg heq, dif_neg heq]
    rw [shiftDown_of_lt (by omega), Option.map_some]

/-- No function of a buffer of characters leaves the array. -/
theorem call_ofBuffer (op : BufferOp Byte) (b : CursorBuffer size) :
    (ofBuffer b).call size 1 op = some ((charCall op b).1, ofBuffer (charCall op b).2) := by
  cases op with
  | insert ch => exact insert_ofBuffer b ch
  | backspace => exact backspace_ofBuffer b
  | del => exact del_ofBuffer b
  | moveCursorLeft =>
      dsimp only [call, charCall, moveCursorLeft, CursorBuffer.moveCursorLeft, ofBuffer]
      split <;> rfl
  | moveCursorRight =>
      dsimp only [call, charCall, moveCursorRight, CursorBuffer.moveCursorRight, ofBuffer]
      split <;> rfl
  | reset => rfl
  | setTerminator =>
      dsimp only [call, charCall, setTerminator, CursorBuffer.setTerminator, ofBuffer]
      rw [write_of_lt b.end_lt]
      rfl

theorem span_ofBuffer (b : CursorBuffer size) : (ofBuffer b).span size = some b.span := by
  have hslice : slice size b.end_ 0 b.line = _ := slice_of_le (by have := b.end_lt; omega)
  rw [span, ofBuffer, hslice, CursorBuffer.span]
  simp only [Nat.zero_add]

end Characters

end CheckedBuffer

end TangNano.Os
