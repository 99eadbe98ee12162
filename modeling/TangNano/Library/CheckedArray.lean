import Mathlib.Data.List.Basic
import Mathlib.Logic.Function.Basic

/-!
# Arrays with bounds

Loops over an array, and the same loops over one of `size` elements in which an
access past the end fails.  An array is a function of which only the first values
are looked at.
-/

namespace TangNano.CheckedArray

/-! ## Loops -/

section Loops

variable {α : Type*}

/-- The elements from `i` down to `low + 1` are replaced by those before them. -/
def moveUp (low : ℕ) : ℕ → (ℕ → α) → ℕ → α
  | 0, a => a
  | i + 1, a => if i + 1 > low then moveUp low i (Function.update a (i + 1) (a i)) else a

/-- The next `n` elements from `i` on are replaced by those after them. -/
def moveDown : ℕ → ℕ → (ℕ → α) → ℕ → α
  | 0, _, a => a
  | n + 1, i, a => moveDown n (i + 1) (Function.update a i (a (i + 1)))

theorem moveUp_apply (low i : ℕ) (a : ℕ → α) (k : ℕ) :
    moveUp low i a k = if low < k ∧ k ≤ i then a (k - 1) else a k := by
  induction i generalizing a with
  | zero => exact (if_neg (by omega)).symm
  | succ i ih =>
      rw [moveUp]
      split
      · next hi =>
          rw [ih]
          by_cases hk : k = i + 1
          · subst hk
            rw [if_neg (by omega), if_pos (by omega), Function.update_self, Nat.add_sub_cancel]
          · by_cases hin : low < k ∧ k ≤ i
            · rw [if_pos hin, if_pos (by omega), Function.update_of_ne (by omega)]
            · rw [if_neg hin, if_neg (by omega), Function.update_of_ne hk]
      · next hi => rw [if_neg (by omega)]

theorem moveDown_apply (n i : ℕ) (a : ℕ → α) (k : ℕ) :
    moveDown n i a k = if i ≤ k ∧ k < i + n then a (k + 1) else a k := by
  induction n generalizing i a with
  | zero => exact (if_neg (by omega)).symm
  | succ n ih =>
      rw [moveDown, ih]
      by_cases hk : k = i
      · subst hk
        rw [if_neg (by omega), if_pos (by omega), Function.update_self]
      · by_cases hin : i + 1 ≤ k ∧ k < i + 1 + n
        · rw [if_pos hin, if_pos (by omega), Function.update_of_ne (by omega)]
        · rw [if_neg hin, if_neg (by omega), Function.update_of_ne hk]

end Loops

/-! ## Loops with checks -/

section Access

variable {α : Type*} (size : ℕ)

def read (i : ℕ) (a : ℕ → α) : Option α := if i < size then some (a i) else none

def write (i : ℕ) (x : α) (a : ℕ → α) : Option (ℕ → α) :=
  if i < size then some (Function.update a i x) else none

/-- `moveUp` with checks. -/
def shiftUp (low : ℕ) : ℕ → (ℕ → α) → Option (ℕ → α)
  | 0, a => some a
  | i + 1, a =>
      if i + 1 > low then do
        let x ← read size i a
        let a ← write size (i + 1) x a
        shiftUp low i a
      else some a

/-- `moveDown` with checks. -/
def shiftDown : ℕ → ℕ → (ℕ → α) → Option (ℕ → α)
  | 0, _, a => some a
  | n + 1, i, a => do
      let x ← read size (i + 1) a
      let a ← write size i x a
      shiftDown n (i + 1) a

/-- The place of the first of `n` elements from `i` on for which `p` holds. -/
def search (p : α → Bool) : ℕ → ℕ → (ℕ → α) → Option ℕ
  | 0, i, _ => some i
  | n + 1, i, a =>
      (read size i a).bind fun x ↦ if p x then some i else search p n (i + 1) a

/-- The `n` elements from `i` on. -/
def slice : ℕ → ℕ → (ℕ → α) → Option (List α)
  | 0, _, _ => some []
  | n + 1, i, a => do
      let x ← read size i a
      let xs ← slice n (i + 1) a
      return x :: xs

variable {size} {a : ℕ → α} {i : ℕ}

theorem read_of_lt (h : i < size) : read size i a = some (a i) := if_pos h

theorem write_of_lt (h : i < size) (x : α) : write size i x a = some (Function.update a i x) :=
  if_pos h

theorem write_eq_none_iff (x : α) : write size i x a = none ↔ size ≤ i := by
  unfold write
  split
  · next h => exact iff_of_false (Option.some_ne_none _) (Nat.not_le.mpr h)
  · next h => exact iff_of_true rfl (Nat.not_lt.mp h)

theorem shiftUp_of_lt (low : ℕ) (h : i < size) :
    shiftUp size low i a = some (moveUp low i a) := by
  induction i generalizing a with
  | zero => rfl
  | succ i ih =>
      rw [shiftUp, moveUp]
      split
      · rw [read_of_lt (Nat.lt_of_succ_lt h), Option.bind_eq_bind, Option.bind_some, write_of_lt h,
          Option.bind_eq_bind, Option.bind_some, ih (Nat.lt_of_succ_lt h)]
      · rfl

theorem shiftDown_of_lt {n : ℕ} (h : i + n < size) :
    shiftDown size n i a = some (moveDown n i a) := by
  induction n generalizing a i with
  | zero => rfl
  | succ n ih =>
      rw [shiftDown, moveDown, read_of_lt (by omega), Option.bind_eq_bind, Option.bind_some,
        write_of_lt (by omega), Option.bind_eq_bind, Option.bind_some, ih (by omega)]

theorem slice_of_le {n : ℕ} (h : i + n ≤ size) :
    slice size n i a = some ((List.range n).map fun k ↦ a (i + k)) := by
  induction n generalizing i with
  | zero => rfl
  | succ n ih =>
      rw [slice, read_of_lt (by omega), Option.bind_eq_bind, Option.bind_some, ih (by omega),
        Option.bind_eq_bind, Option.bind_some, List.range_succ_eq_map, List.map_cons, List.map_map]
      congr 2
      apply List.map_congr_left
      intro k _
      rw [Function.comp_apply, Nat.succ_eq_add_one, Nat.add_right_comm, Nat.add_assoc]

theorem search_of_le (p : α → Bool) {n : ℕ} (h : i + n ≤ size) :
    search size p n i a = some (i + ((List.range' i n).map a).findIdx p) := by
  induction n generalizing i with
  | zero => rfl
  | succ n ih =>
      rw [search, read_of_lt (by omega), Option.bind_some, List.range'_succ, List.map_cons,
        List.findIdx_cons, ih (by omega)]
      cases p (a i) with
      | true => rfl
      | false =>
          rw [if_neg Bool.false_ne_true, cond_false, Nat.add_assoc, Nat.add_comm 1]

end Access

end TangNano.CheckedArray
