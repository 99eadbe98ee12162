import TangNano.Os.LineEditor

/-!
# The command buffer for elements of any size

The class `cursor_buffer` takes its limit from the size of the array in bytes,
so that it is safe for elements of one byte only.
-/

namespace TangNano.Os

namespace CheckedBuffer

open CheckedArray

section Bounds

variable {α : Type*} {size width : ℕ}

/-- The cursor is not after the end, and the end is a place of the array. -/
structure Within (size : ℕ) (b : CheckedBuffer α) : Prop where
  cursor_le : b.cursor ≤ b.end_
  end_le : b.end_ ≤ size - 1

/-- No call of a run leaves the array, and the invariant holds before and after each. -/
def Safe [Inhabited α] (size width : ℕ) : List (BufferOp α) → CheckedBuffer α → Prop
  | [], b => Within size b
  | op :: ops, b =>
      Within size b ∧ ∃ r, b.call size width op = some r ∧ Safe size width ops r.2

/-- Each `insert` of a run finds at least two places free, that of the terminator among them. -/
def RoomForInserts (size : ℕ) : List (BufferOp α) → LineEditor α → Prop
  | [], _ => True
  | op :: ops, e =>
      (∀ ch, op = .insert ch → e.left.length + e.right.length + 1 < size) ∧
        RoomForInserts size ops (e.step size op).2

/-- The cursor and the end are those of the editor. -/
structure Tracks (e : LineEditor α) (b : CheckedBuffer α) : Prop where
  cursor_eq : b.cursor = e.left.length
  end_eq : b.end_ = e.left.length + e.right.length

variable {b : CheckedBuffer α} {e : LineEditor α}

theorem insert_of_room (h : Within size b) (hlimit : b.end_ ≠ size * width - 1)
    (hroom : b.end_ + 1 < size) (ch : α) :
    ∃ line, b.insert size width ch = some (.flag true, ⟨line, b.cursor + 1, b.end_ + 1⟩) := by
  have hle := h.cursor_le
  rw [insert, if_neg hlimit]
  split
  · rw [write_of_lt (by omega)]
    exact ⟨_, rfl⟩
  · rw [shiftUp_of_lt _ hroom, Option.bind_some, write_of_lt (by omega)]
    exact ⟨_, rfl⟩

/-- Below the limit the end goes on, if there is room or not. -/
theorem end_of_insert (hlimit : b.end_ ≠ size * width - 1) {ch : α}
    {r : Returned × CheckedBuffer α} (h : b.insert size width ch = some r) :
    r.2.end_ = b.end_ + 1 := by
  rw [insert, if_neg hlimit] at h
  split at h
  all_goals
    obtain ⟨line, -, rfl⟩ := Option.map_eq_some_iff.mp h
    rfl

theorem backspace_of_within (hsize : 1 ≤ size) (h : Within size b) (hpos : b.cursor ≠ 0) :
    ∃ line, b.backspace size = some (.flag true, ⟨line, b.cursor - 1, b.end_ - 1⟩) := by
  have hle := h.cursor_le
  have hend := h.end_le
  rw [backspace, if_neg hpos]
  split
  · exact ⟨_, rfl⟩
  · rw [shiftDown_of_lt (by omega)]
    exact ⟨_, rfl⟩

theorem del_of_within (hsize : 1 ≤ size) (h : Within size b) (hne : b.cursor ≠ b.end_) :
    ∃ line, b.del size = some (.nothing, ⟨line, b.cursor, b.end_ - 1⟩) := by
  have hle := h.cursor_le
  have hend := h.end_le
  rw [del, if_neg hne, shiftDown_of_lt (by omega)]
  exact ⟨_, rfl⟩

theorem Tracks.insert (h : Tracks e b) (hin : Within size b) (hwidth : 1 ≤ width) {ch : α}
    (hroom : width = 1 ∨ e.left.length + e.right.length + 1 < size) :
    ∃ r, b.insert size width ch = some r ∧ Within size r.2 ∧
      Tracks (e.step size (.insert ch)).2 r.2 := by
  have hle := hin.cursor_le
  have hlast := hin.end_le
  have hend := h.end_eq
  rw [LineEditor.step]
  by_cases hfull : e.left.length + e.right.length = size - 1
  · -- the limit is that of the array
    have hone : width = 1 := hroom.resolve_right (by omega)
    rw [CheckedBuffer.insert, hone, Nat.mul_one, if_pos (hend.trans hfull), if_pos hfull]
    exact ⟨_, rfl, hin, h⟩
  · have hbytes : size ≤ size * width := Nat.le_mul_of_pos_right size hwidth
    have hfree : b.end_ + 1 < size := by omega
    obtain ⟨line, hinsert⟩ := insert_of_room hin (show b.end_ ≠ size * width - 1 by omega) hfree ch
    rw [if_neg hfull]
    refine ⟨_, hinsert, ⟨Nat.succ_le_succ hle, Nat.le_sub_one_of_lt hfree⟩, ?_, ?_⟩
    · rw [h.cursor_eq, List.length_append, List.length_singleton]
    · rw [hend, List.length_append, List.length_singleton, Nat.add_right_comm]

theorem Tracks.backspace (h : Tracks e b) (hsize : 1 ≤ size) (hin : Within size b) :
    ∃ r, b.backspace size = some r ∧ Within size r.2 ∧ Tracks (e.step size .backspace).2 r.2 := by
  have hle := hin.cursor_le
  have hlast := hin.end_le
  obtain ⟨left, right⟩ := e
  have hcursor : b.cursor = left.length := h.cursor_eq
  have hend : b.end_ = left.length + right.length := h.end_eq
  induction left using List.reverseRecOn with
  | nil =>
      rw [CheckedBuffer.backspace, if_pos (show b.cursor = 0 from hcursor)]
      exact ⟨_, rfl, hin, h⟩
  | append_singleton left ch _ =>
      rw [List.length_append, List.length_singleton] at hcursor hend
      obtain ⟨line, hbackspace⟩ := backspace_of_within hsize hin (show b.cursor ≠ 0 by omega)
      rw [LineEditor.step_backspace]
      refine ⟨_, hbackspace, ⟨Nat.sub_le_sub_right hle 1, (Nat.sub_le _ _).trans hlast⟩, ?_, ?_⟩
      · rw [hcursor, Nat.add_sub_cancel]
      · rw [hend, Nat.add_right_comm, Nat.add_sub_cancel]

theorem Tracks.del (h : Tracks e b) (hsize : 1 ≤ size) (hin : Within size b) :
    ∃ r, b.del size = some r ∧ Within size r.2 ∧ Tracks (e.step size .del).2 r.2 := by
  have hlast := hin.end_le
  obtain ⟨left, right⟩ := e
  have hcursor : b.cursor = left.length := h.cursor_eq
  have hend : b.end_ = left.length + right.length := h.end_eq
  cases right with
  | nil =>
      rw [CheckedBuffer.del, if_pos (hcursor.trans hend.symm)]
      exact ⟨_, rfl, hin, h⟩
  | cons ch right =>
      rw [List.length_cons] at hend
      obtain ⟨line, hdel⟩ := del_of_within hsize hin (show b.cursor ≠ b.end_ by omega)
      refine ⟨_, hdel, ⟨?_, (Nat.sub_le _ _).trans hlast⟩, hcursor, ?_⟩
      · rw [hcursor, hend]
        exact Nat.le_add_right _ _
      · rw [hend]
        rfl

theorem Tracks.moveCursorLeft (h : Tracks e b) (hin : Within size b) :
    ∃ r, b.moveCursorLeft = some r ∧ Within size r.2 ∧
      Tracks (e.step size .moveCursorLeft).2 r.2 := by
  have hle := hin.cursor_le
  obtain ⟨left, right⟩ := e
  have hcursor : b.cursor = left.length := h.cursor_eq
  have hend : b.end_ = left.length + right.length := h.end_eq
  induction left using List.reverseRecOn with
  | nil =>
      rw [CheckedBuffer.moveCursorLeft, if_pos (show b.cursor = 0 from hcursor)]
      exact ⟨_, rfl, hin, h⟩
  | append_singleton left ch _ =>
      rw [List.length_append, List.length_singleton] at hcursor hend
      rw [CheckedBuffer.moveCursorLeft, if_neg (by omega), LineEditor.step_moveCursorLeft]
      refine ⟨_, rfl, ⟨(Nat.sub_le _ _).trans hle, hin.end_le⟩, ?_, ?_⟩
      · rw [hcursor, Nat.add_sub_cancel]
      · rw [hend, List.length_cons, Nat.add_assoc, Nat.add_comm 1]

theorem Tracks.moveCursorRight (h : Tracks e b) (hin : Within size b) :
    ∃ r, b.moveCursorRight = some r ∧ Within size r.2 ∧
      Tracks (e.step size .moveCursorRight).2 r.2 := by
  obtain ⟨left, right⟩ := e
  have hcursor : b.cursor = left.length := h.cursor_eq
  have hend : b.end_ = left.length + right.length := h.end_eq
  cases right with
  | nil =>
      rw [CheckedBuffer.moveCursorRight, if_pos (hcursor.trans hend.symm)]
      exact ⟨_, rfl, hin, h⟩
  | cons ch right =>
      rw [List.length_cons] at hend
      rw [CheckedBuffer.moveCursorRight, if_neg (by omega)]
      refine ⟨_, rfl, ⟨?_, hin.end_le⟩, ?_, ?_⟩
      · rw [hcursor, hend]
        exact Nat.add_le_add_left (Nat.succ_le_succ (Nat.zero_le _)) _
      · simp only [LineEditor.step, List.length_append, List.length_singleton, hcursor]
      · simp only [LineEditor.step, List.length_append, List.length_singleton, hend]
        omega

/-- A call stays within the array if its limit is that of the array or an `insert` finds room. -/
theorem Tracks.call [Inhabited α] (h : Tracks e b) (hsize : 1 ≤ size) (hwidth : 1 ≤ width)
    (hin : Within size b) {op : BufferOp α}
    (hroom : width = 1 ∨ ∀ ch, op = .insert ch → e.left.length + e.right.length + 1 < size) :
    ∃ r, b.call size width op = some r ∧ Within size r.2 ∧ Tracks (e.step size op).2 r.2 := by
  cases op with
  | insert ch => exact h.insert hin hwidth (hroom.imp_right fun hfree ↦ hfree ch rfl)
  | backspace => exact h.backspace hsize hin
  | del => exact h.del hsize hin
  | moveCursorLeft => exact h.moveCursorLeft hin
  | moveCursorRight => exact h.moveCursorRight hin
  | reset => exact ⟨_, rfl, ⟨le_rfl, Nat.zero_le _⟩, rfl, rfl⟩
  | setTerminator =>
      have hlast := hin.end_le
      rw [CheckedBuffer.call, setTerminator, write_of_lt (by omega)]
      exact ⟨_, rfl, ⟨hin.cursor_le, hlast⟩, h.cursor_eq, h.end_eq⟩

/-! ## Runs -/

theorem Safe.within [Inhabited α] {ops : List (BufferOp α)} (h : b.Safe size width ops) :
    Within size b := by
  cases ops with
  | nil => exact h
  | cons op ops => exact h.1

theorem Safe.run [Inhabited α] {ops : List (BufferOp α)} (h : b.Safe size width ops) :
    ∃ r, b.run size width ops = some r := by
  induction ops generalizing b with
  | nil => exact ⟨_, rfl⟩
  | cons op ops ih =>
      obtain ⟨-, r, hcall, hrest⟩ := h
      obtain ⟨rs, hrun⟩ := ih hrest
      rw [CheckedBuffer.run, hcall, Option.bind_some, hrun]
      exact ⟨_, rfl⟩

/-- The limit of wider elements is past the array, and `insert` does not refuse the last place. -/
theorem Tracks.room_of_insert (h : Tracks e b) (hsize : 1 ≤ size) (hwidth : 1 < width) {ch : α}
    {r : Returned × CheckedBuffer α} (hin : Within size b)
    (hinsert : b.insert size width ch = some r) (hnext : Within size r.2) :
    e.left.length + e.right.length + 1 < size := by
  have hend := h.end_eq
  have hlast := hin.end_le
  have hbytes : size * 1 < size * width := Nat.mul_lt_mul_of_pos_left hwidth hsize
  have hafter := end_of_insert (by omega) hinsert
  have hlast' := hnext.end_le
  omega

theorem Tracks.safe_from_iff [Inhabited α] (h : Tracks e b) (hsize : 1 ≤ size) (hwidth : 1 ≤ width)
    (hin : Within size b) (ops : List (BufferOp α)) :
    b.Safe size width ops ↔ width = 1 ∨ RoomForInserts size ops e := by
  induction ops generalizing b e with
  | nil => exact iff_of_true hin (.inr trivial)
  | cons op ops ih =>
      constructor
      · rintro ⟨-, r, hcall, hrest⟩
        refine or_iff_not_imp_left.mpr fun hne ↦ ?_
        have hroom : ∀ ch, op = .insert ch → e.left.length + e.right.length + 1 < size := by
          rintro ch rfl
          exact h.room_of_insert hsize (Nat.lt_of_le_of_ne hwidth (Ne.symm hne)) hin hcall
            hrest.within
        obtain ⟨r', hcall', hin', htracks⟩ := h.call hsize hwidth hin (.inr hroom)
        obtain rfl := Option.some.inj (hcall.symm.trans hcall')
        exact ⟨hroom, ((ih htracks hin').mp hrest).resolve_left hne⟩
      · intro hroom
        obtain ⟨r, hcall, hin', htracks⟩ := h.call hsize hwidth hin (hroom.imp_right And.left)
        exact ⟨hin, r, hcall, (ih htracks hin').mpr (hroom.imp_right And.right)⟩

/-- From the empty buffer on a run is safe exactly if an element is one byte or each
`insert` finds two places free. -/
theorem safe_iff [Inhabited α] (hsize : 1 ≤ size) (hwidth : 1 ≤ width)
    (ops : List (BufferOp α)) :
    (empty : CheckedBuffer α).Safe size width ops ↔
      width = 1 ∨ RoomForInserts size ops ⟨[], []⟩ := by
  have htracks : Tracks ⟨[], []⟩ (empty : CheckedBuffer α) := ⟨rfl, rfl⟩
  exact htracks.safe_from_iff hsize hwidth ⟨le_rfl, Nat.zero_le _⟩ ops

theorem safe_iff_words :
    (empty : CheckedBuffer Word).Safe 8 4 [.insert 1, .moveCursorLeft, .setTerminator] ↔
      4 = 1 ∨ RoomForInserts 8 [.insert (1 : Word), .moveCursorLeft, .setTerminator] ⟨[], []⟩ :=
  safe_iff (by decide) (by decide) _

/-- The ninth word is written past the end of an array of eight. -/
theorem not_safe : ¬ ∀ ops : List (BufferOp Word), (empty : CheckedBuffer Word).Safe 8 4 ops := by
  intro h
  obtain ⟨r, hrun⟩ := (h (List.replicate 9 (.insert 0))).run
  have hnone : (empty : CheckedBuffer Word).run 8 4 (List.replicate 9 (.insert 0)) = none := rfl
  rw [hnone] at hrun
  cases hrun

end Bounds

end CheckedBuffer

end TangNano.Os
