import Mathlib.Tactic
import TangNano.Library.CheckedArray

/-!
# Lists in arrays

The class `list`: an array with a length.  Seen from outside it is a `List`.
-/

namespace TangNano.Os

/-- `size` elements, of which the first `len` are in the list. -/
structure BoundedList (α : Type*) (size : ℕ) where
  data : ℕ → α
  len : ℕ

namespace BoundedList

variable {α : Type*} {size : ℕ}

/-- The last place of the array stays free. -/
def add (elem : α) (l : BoundedList α size) : Bool × BoundedList α size :=
  if l.len = size - 1 then (false, l)
  else (true, ⟨Function.update l.data l.len elem, l.len + 1⟩)

/-- The elements after place `i` move down by one. -/
def removeFrom (i : ℕ) (l : BoundedList α size) : BoundedList α size :=
  ⟨CheckedArray.moveDown (l.len - 1 - i) i l.data, l.len - 1⟩

def removeAt (pos : ℕ) (l : BoundedList α size) : Bool × BoundedList α size :=
  if pos ≥ l.len then (false, l) else (true, l.removeFrom pos)

/-- The value without an element is that of `{}`. -/
def at' [Inhabited α] (pos : ℕ) (l : BoundedList α size) : α :=
  if pos ≥ l.len then default else l.data pos

def isAtEnd (pos : ℕ) (l : BoundedList α size) : Bool := pos == l.len

/-- The place of the first of `count` elements from `i` on at which `f` is false. -/
def untilFalse (f : α → Bool) (data : ℕ → α) (i : ℕ) : ℕ → ℕ
  | 0 => i
  | count + 1 => if f (data i) then untilFalse f data (i + 1) count else i

def forEachUntilFalse (f : α → Bool) (l : BoundedList α size) : ℕ := untilFalse f l.data 0 l.len

/-- The first element equal to `elem` is removed. -/
def remove [DecidableEq α] (elem : α) (l : BoundedList α size) : Bool × BoundedList α size :=
  let i := l.forEachUntilFalse (· ≠ elem)
  if i < l.len then (true, l.removeFrom i) else (false, l)

def toList (l : BoundedList α size) : List α := (List.range l.len).map l.data

/-! ## Seen from outside -/

@[simp] theorem length_toList (l : BoundedList α size) : l.toList.length = l.len := by
  simp [toList]

theorem getElem?_toList (l : BoundedList α size) (i : ℕ) :
    l.toList[i]? = if i < l.len then some (l.data i) else none := by
  unfold toList
  split
  · next hi => simp [hi]
  · next hi => simp [Nat.not_lt.mp hi]

theorem toList_add {l : BoundedList α size} {elem : α} (h : (l.add elem).1 = true) :
    (l.add elem).2.toList = l.toList ++ [elem] := by
  unfold add at h ⊢
  split at h
  · exact absurd h Bool.false_ne_true
  · next hlen =>
      rw [if_neg hlen]
      unfold toList
      dsimp only
      rw [List.range_succ, List.map_append, List.map_singleton, Function.update_self]
      congr 1
      apply List.map_congr_left
      intro i hi
      exact Function.update_of_ne (List.mem_range.mp hi).ne _ _

theorem add_eq_self {l : BoundedList α size} {elem : α} (h : (l.add elem).1 = false) :
    (l.add elem).2 = l := by
  unfold add at h ⊢
  split at h
  · next hlen => rw [if_pos hlen]
  · exact absurd h.symm Bool.false_ne_true

theorem len_add_lt {l : BoundedList α size} (elem : α) (h : l.len < size) :
    (l.add elem).2.len < size := by
  unfold add
  split
  · exact h
  · next hlen =>
      change l.len + 1 < size
      omega

theorem toList_removeFrom {l : BoundedList α size} {i : ℕ} (h : i < l.len) :
    (l.removeFrom i).toList = l.toList.eraseIdx i := by
  apply List.ext_getElem?
  intro k
  have hlen : (l.removeFrom i).len = l.len - 1 := rfl
  have hdata : (l.removeFrom i).data k = CheckedArray.moveDown (l.len - 1 - i) i l.data k := rfl
  rw [getElem?_toList, hlen, hdata, CheckedArray.moveDown_apply,
    List.getElem?_eraseIdx, getElem?_toList, getElem?_toList]
  by_cases hk : k < i
  · have hout : ¬ (i ≤ k ∧ k < i + (l.len - 1 - i)) := by omega
    rw [if_pos hk, if_neg hout, if_pos (show k < l.len - 1 by omega),
      if_pos (show k < l.len by omega)]
  · rw [if_neg hk]
    by_cases hend : k < l.len - 1
    · have hin : i ≤ k ∧ k < i + (l.len - 1 - i) := by omega
      rw [if_pos hend, if_pos hin, if_pos (show k + 1 < l.len by omega)]
    · rw [if_neg hend, if_neg (show ¬ k + 1 < l.len by omega)]

theorem untilFalse_eq (f : α → Bool) (data : ℕ → α) (i count : ℕ) :
    untilFalse f data i count =
      i + ((List.range' i count).map data).findIdx (fun x ↦ !f x) := by
  induction count generalizing i with
  | zero => rfl
  | succ count ih =>
      rw [untilFalse, List.range'_succ, List.map_cons, List.findIdx_cons, ih]
      cases f (data i) with
      | true =>
          simp
          omega
      | false => simp

theorem forEachUntilFalse_eq (f : α → Bool) (l : BoundedList α size) :
    l.forEachUntilFalse f = l.toList.findIdx (fun x ↦ !f x) := by
  rw [forEachUntilFalse, untilFalse_eq, Nat.zero_add, ← List.range_eq_range', toList]

theorem toList_remove [DecidableEq α] (l : BoundedList α size) (elem : α) :
    (l.remove elem).2.toList = l.toList.erase elem := by
  have hfind : l.forEachUntilFalse (· ≠ elem) = l.toList.idxOf elem := by
    rw [forEachUntilFalse_eq, List.idxOf]
    congr 1
    funext x
    by_cases hx : x = elem <;> simp [hx]
  rw [List.erase_eq_eraseIdx_of_idxOf rfl, remove, hfind]
  by_cases h : l.toList.idxOf elem < l.len
  · rw [if_pos h]
    exact toList_removeFrom h
  · rw [if_neg h, List.eraseIdx_of_length_le (by rw [length_toList]; omega)]

/-- Where an element is found it is read. -/
theorem at'_eq [Inhabited α] {l : BoundedList α size} {pos : ℕ} (h : pos < l.len) :
    l.toList[pos]? = some (l.at' pos) := by
  rw [getElem?_toList, if_pos h, at', if_neg (Nat.not_le.mpr h)]

end BoundedList

end TangNano.Os
