import Mathlib.Data.List.GetD
import TangNano.Library.Bytes

/-!
# Lines on a terminal

A line is a row of cells with a cursor.  Characters that are printed go over
what is there.  The rules say what a line shows before and after the cursor.
-/

namespace TangNano

/-- What the next character belongs to. -/
inductive Terminal.Mode
  | text
  | escape
  | bracket
deriving DecidableEq, Repr

structure Terminal where
  cells : ℕ → Byte
  cursor : ℕ
  mode : Terminal.Mode

namespace Terminal

def blank : Byte := 0x20

def Printable (ch : Byte) : Prop := 0x20 ≤ ch ∧ ch ≤ 0x7e

instance (ch : Byte) : Decidable (Printable ch) := inferInstanceAs (Decidable (_ ∧ _))

def receive (t : Terminal) (ch : Byte) : Terminal :=
  match t.mode with
  | .text =>
      if ch = 0x1b then { t with mode := .escape }
      else if ch = 0x08 then { t with cursor := t.cursor - 1 }
      else if ch = 0x7f then
        { t with cells := Function.update t.cells (t.cursor - 1) blank, cursor := t.cursor - 1 }
      else if Printable ch then
        { t with cells := Function.update t.cells t.cursor ch, cursor := t.cursor + 1 }
      else t
  | .escape => { t with mode := if ch = 0x5b then .bracket else .text }
  | .bracket =>
      { t with
        cursor := if ch = 0x44 then t.cursor - 1 else if ch = 0x43 then t.cursor + 1 else t.cursor
        mode := .text }

def receiveAll (t : Terminal) (chs : List Byte) : Terminal := chs.foldl receive t

@[simp] theorem receiveAll_nil (t : Terminal) : t.receiveAll [] = t := rfl

@[simp] theorem receiveAll_cons (t : Terminal) (ch : Byte) (chs : List Byte) :
    t.receiveAll (ch :: chs) = (t.receive ch).receiveAll chs := rfl

theorem receiveAll_append (t : Terminal) (chs chs' : List Byte) :
    t.receiveAll (chs ++ chs') = (t.receiveAll chs).receiveAll chs' := List.foldl_append

/-- From the prompt on there is a text and nothing else, and the cursor is between
two parts of it. -/
structure Shows (prompt : ℕ) (before after : List Byte) (t : Terminal) : Prop where
  mode : t.mode = .text
  cursor : t.cursor = prompt + before.length
  cells : ∀ k, t.cells (prompt + k) = (before ++ after).getD k blank

variable {prompt : ℕ} {before after : List Byte} {t : Terminal} {ch : Byte}

theorem Printable.not_control (h : Printable ch) : ch ≠ 0x1b ∧ ch ≠ 0x08 ∧ ch ≠ 0x7f := by
  refine ⟨?_, ?_, ?_⟩ <;> rintro rfl <;> exact absurd h (by decide)

/-- The cell under the cursor is overwritten. -/
theorem Shows.put (h : Shows prompt before after t) (ch : Byte) :
    Shows prompt before (ch :: after.tail)
      { t with cells := Function.update t.cells t.cursor ch } := by
  refine ⟨h.mode, h.cursor, fun k ↦ ?_⟩
  dsimp only
  rw [h.cursor]
  rcases Nat.lt_trichotomy k before.length with hlt | rfl | hgt
  · rw [Function.update_of_ne (by omega), h.cells, List.getD_append _ _ _ _ hlt,
      List.getD_append _ _ _ _ hlt]
  · rw [Function.update_self, List.getD_append_right _ _ _ _ le_rfl, Nat.sub_self]
    rfl
  · obtain ⟨d, rfl⟩ := Nat.exists_eq_add_of_lt hgt
    have hsub : before.length + d + 1 - before.length = d + 1 := by omega
    rw [Function.update_of_ne (by omega), h.cells, List.getD_append_right _ _ _ _ (by omega),
      List.getD_append_right _ _ _ _ (by omega), hsub]
    cases after <;> rfl

theorem Shows.moveLeft (h : Shows prompt (before ++ [ch]) after t) :
    Shows prompt before (ch :: after) { t with cursor := t.cursor - 1 } := by
  refine ⟨h.mode, ?_, fun k ↦ ?_⟩
  · dsimp only
    rw [h.cursor, List.length_append, List.length_singleton, ← Nat.add_assoc, Nat.add_sub_cancel]
  · rw [h.cells k, List.append_assoc, List.singleton_append]

theorem Shows.moveRight (h : Shows prompt before (ch :: after) t) :
    Shows prompt (before ++ [ch]) after { t with cursor := t.cursor + 1 } := by
  refine ⟨h.mode, ?_, fun k ↦ ?_⟩
  · dsimp only
    rw [h.cursor, List.length_append, List.length_singleton, Nat.add_assoc]
  · rw [h.cells k, List.append_assoc, List.singleton_append]

theorem Shows.printOne (h : Shows prompt before after t) (hch : Printable ch) :
    Shows prompt (before ++ [ch]) after.tail (t.receive ch) := by
  obtain ⟨hescape, hback, hrubout⟩ := hch.not_control
  have hreceive : t.receive ch =
      { t with cells := Function.update t.cells t.cursor ch, cursor := t.cursor + 1 } := by
    rw [receive, h.mode]
    dsimp only
    rw [if_neg hescape, if_neg hback, if_neg hrubout, if_pos hch]
  rw [hreceive]
  exact (h.put ch).moveRight

/-- What is printed goes over what comes next. -/
theorem Shows.print {chs : List Byte} (hchs : ∀ ch ∈ chs, Printable ch)
    (h : Shows prompt before after t) :
    Shows prompt (before ++ chs) (after.drop chs.length) (t.receiveAll chs) := by
  induction chs generalizing before after t with
  | nil => rwa [List.append_nil]
  | cons ch chs ih =>
      have hone := h.printOne (hchs ch List.mem_cons_self)
      have hrest := ih (fun c hc ↦ hchs c (List.mem_cons_of_mem _ hc)) hone
      rw [List.append_assoc, List.singleton_append, List.drop_tail] at hrest
      exact hrest

theorem Shows.back (h : Shows prompt (before ++ [ch]) after t) :
    Shows prompt before (ch :: after) (t.receive 0x08) := by
  have hreceive : t.receive 0x08 = { t with cursor := t.cursor - 1 } := by
    rw [receive, h.mode]
    rfl
  rw [hreceive]
  exact h.moveLeft

/-- The cursor steps back over what has been printed. -/
theorem Shows.backs (chs : List Byte) (h : Shows prompt (before ++ chs) after t) :
    Shows prompt before (chs ++ after) (t.receiveAll (List.replicate chs.length 0x08)) := by
  induction chs using List.reverseRecOn generalizing after t with
  | nil => rwa [List.append_nil] at h
  | append_singleton chs ch ih =>
      rw [← List.append_assoc] at h
      have hrest := ih h.back
      rw [List.length_append, List.length_singleton, List.replicate_succ, receiveAll_cons,
        List.append_assoc]
      exact hrest

theorem Shows.rubout (h : Shows prompt (before ++ [ch]) after t) :
    Shows prompt before (blank :: after) (t.receive 0x7f) := by
  have hreceive : t.receive 0x7f = { t with
      cells := Function.update t.cells (t.cursor - 1) blank, cursor := t.cursor - 1 } := by
    rw [receive, h.mode]
    rfl
  rw [hreceive]
  exact h.moveLeft.put blank

theorem Shows.arrowLeft (h : Shows prompt (before ++ [ch]) after t) :
    Shows prompt before (ch :: after) (t.receiveAll [0x1b, 0x5b, 0x44]) := by
  have hreceive : t.receiveAll [0x1b, 0x5b, 0x44] = { t with cursor := t.cursor - 1 } := by
    obtain ⟨cells, cursor, mode⟩ := t
    obtain rfl : mode = .text := h.mode
    rfl
  rw [hreceive]
  exact h.moveLeft

theorem Shows.arrowRight (h : Shows prompt before (ch :: after) t) :
    Shows prompt (before ++ [ch]) after (t.receiveAll [0x1b, 0x5b, 0x43]) := by
  have hreceive : t.receiveAll [0x1b, 0x5b, 0x43] = { t with cursor := t.cursor + 1 } := by
    obtain ⟨cells, cursor, mode⟩ := t
    obtain rfl : mode = .text := h.mode
    rfl
  rw [hreceive]
  exact h.moveRight

/-- A blank at the end cannot be told from none. -/
theorem Shows.trim (h : Shows prompt before (after ++ [blank]) t) :
    Shows prompt before after t := by
  refine ⟨h.mode, h.cursor, fun k ↦ ?_⟩
  rw [h.cells k, ← List.append_assoc]
  rcases Nat.lt_or_ge k (before ++ after).length with hlt | hge
  · rw [List.getD_append _ _ _ _ hlt]
  · rw [List.getD_append_right _ _ _ _ hge, List.getD_eq_default _ _ hge]
    cases k - (before ++ after).length <;> rfl

/-- The rest of the line is printed again, a blank after it, and the cursor steps
back. -/
theorem Shows.reprint {rest : List Byte} (hrest : ∀ ch ∈ rest, Printable ch)
    (hlength : after.length ≤ rest.length + 1) (h : Shows prompt before after t) :
    Shows prompt before rest
      (t.receiveAll (rest ++ [blank] ++ List.replicate (rest.length + 1) 0x08)) := by
  have hprintable : ∀ ch ∈ rest ++ [blank], Printable ch := by
    intro ch hch
    rcases List.mem_append.mp hch with hmem | hmem
    · exact hrest ch hmem
    · rw [List.mem_singleton.mp hmem]
      decide
  have hprint := h.print hprintable
  have hlength' : (rest ++ [blank]).length = rest.length + 1 := by
    rw [List.length_append, List.length_singleton]
  have hback := hprint.backs (rest ++ [blank])
  rw [hlength', List.drop_eq_nil_of_le hlength, List.append_nil] at hback
  rw [receiveAll_append]
  exact hback.trim

end Terminal

end TangNano
