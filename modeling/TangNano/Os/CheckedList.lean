import TangNano.Library.CheckedArray
import TangNano.Os.BoundedList

/-!
# Lists in arrays with their accesses

The class `list` with an array whose bounds are checked, and what a list of at
most `size` elements ought to do.
-/

namespace TangNano.Os

/-- A function of `list` that changes it. -/
inductive ListOp (α : Type*)
  | add (elem : α)
  | remove (elem : α)
  | removeAt (pos : ℕ)

namespace BoundedList

open CheckedArray

section Calls

variable {α : Type*} {size : ℕ}

def checkedAdd (elem : α) (l : BoundedList α size) : Option (Bool × BoundedList α size) :=
  if l.len = size - 1 then some (false, l)
  else (write size l.len elem l.data).map fun data ↦ (true, ⟨data, l.len + 1⟩)

def checkedRemoveFrom (i : ℕ) (l : BoundedList α size) : Option (Bool × BoundedList α size) :=
  (CheckedArray.shiftDown size (l.len - 1 - i) i l.data).map fun data ↦ (true, ⟨data, l.len - 1⟩)

def checkedRemove [DecidableEq α] (elem : α) (l : BoundedList α size) :
    Option (Bool × BoundedList α size) :=
  (search size (· = elem) l.len 0 l.data).bind fun i ↦
    if i < l.len then l.checkedRemoveFrom i else some (false, l)

def checkedRemoveAt (pos : ℕ) (l : BoundedList α size) : Option (Bool × BoundedList α size) :=
  if pos ≥ l.len then some (false, l) else l.checkedRemoveFrom pos

def call [DecidableEq α] (op : ListOp α) (l : BoundedList α size) :
    Option (Bool × BoundedList α size) :=
  match op with
  | .add elem => l.checkedAdd elem
  | .remove elem => l.checkedRemove elem
  | .removeAt pos => l.checkedRemoveAt pos

/-- What the function does to a list of at most `size` elements. -/
def intended [DecidableEq α] (size : ℕ) (op : ListOp α) (xs : List α) : Bool × List α :=
  match op with
  | .add elem => if xs.length < size then (true, xs ++ [elem]) else (false, xs)
  | .remove elem => if elem ∈ xs then (true, xs.erase elem) else (false, xs)
  | .removeAt pos => if pos < xs.length then (true, xs.eraseIdx pos) else (false, xs)

/-- No call of a run leaves the array, and each does what is intended. -/
def Conforms [DecidableEq α] : List (ListOp α) → BoundedList α size → Prop
  | [], l => l.len ≤ size
  | op :: ops, l =>
      ∃ r l', l.call op = some (r, l') ∧ intended size op l.toList = (r, l'.toList) ∧
        (r = false → l' = l) ∧ l'.len ≤ size ∧ Conforms ops l'

/-- Before each `add` of a run at least two places of the array are free. -/
def RoomForAdds [DecidableEq α] (size : ℕ) : List (ListOp α) → List α → Prop
  | [], _ => True
  | op :: ops, xs =>
      (∀ elem, op = .add elem → xs.length + 1 < size) ∧
        RoomForAdds size ops (intended size op xs).2

/-! ## One call -/

theorem checkedAdd_of_lt {l : BoundedList α size} (h : l.len + 1 < size) (elem : α) :
    l.checkedAdd elem = some (true, (l.add elem).2) := by
  have hne : l.len ≠ size - 1 := by omega
  rw [checkedAdd, if_neg hne, write_of_lt (by omega), Option.map_some, add, if_neg hne]

theorem checkedRemoveFrom_of_lt {l : BoundedList α size} {i : ℕ} (hlen : l.len ≤ size)
    (hi : i < l.len) : l.checkedRemoveFrom i = some (true, l.removeFrom i) := by
  rw [checkedRemoveFrom, shiftDown_of_lt (by omega), Option.map_some, removeFrom]

theorem checkedRemove_of_le [DecidableEq α] {l : BoundedList α size} (hlen : l.len ≤ size)
    (elem : α) :
    l.checkedRemove elem =
      if elem ∈ l.toList then some (true, l.removeFrom (l.toList.idxOf elem))
      else some (false, l) := by
  have hsearch : search size (fun x ↦ decide (x = elem)) l.len 0 l.data =
      some (l.toList.idxOf elem) := by
    rw [search_of_le _ (by omega), Nat.zero_add, ← List.range_eq_range']
    rfl
  rw [checkedRemove, hsearch, Option.bind_some]
  by_cases hmem : elem ∈ l.toList
  · have hlt : l.toList.idxOf elem < l.len := by
      rw [← length_toList]
      exact List.idxOf_lt_length_of_mem hmem
    rw [if_pos hlt, if_pos hmem, checkedRemoveFrom_of_lt hlen hlt]
  · have hle : ¬ l.toList.idxOf elem < l.len := by
      rw [← length_toList, List.idxOf_eq_length hmem]
      exact lt_irrefl _
    rw [if_neg hle, if_neg hmem]

theorem len_removeFrom_le {l : BoundedList α size} (hlen : l.len ≤ size) (i : ℕ) :
    (l.removeFrom i).len ≤ size := (Nat.sub_le _ _).trans hlen

/-- A call that finds room does what is intended. -/
theorem call_conforms [DecidableEq α] {l : BoundedList α size} (hlen : l.len ≤ size)
    {op : ListOp α} (hroom : ∀ elem, op = .add elem → l.len + 1 < size) :
    ∃ r l', l.call op = some (r, l') ∧ intended size op l.toList = (r, l'.toList) ∧
      (r = false → l' = l) ∧ l'.len ≤ size := by
  cases op with
  | add elem =>
      have hlt := hroom elem rfl
      have htrue : (l.add elem).1 = true := by
        rw [add, if_neg (by omega)]
      have hlen' : l.toList.length < size := by
        rw [length_toList]
        omega
      refine ⟨true, (l.add elem).2, checkedAdd_of_lt hlt elem, ?_, by rintro ⟨⟩, ?_⟩
      · rw [intended, if_pos hlen', toList_add htrue]
      · exact (len_add_lt elem (by omega)).le
  | remove elem =>
      rw [call, checkedRemove_of_le hlen]
      by_cases hmem : elem ∈ l.toList
      · have hlt : l.toList.idxOf elem < l.len := by
          rw [← length_toList]
          exact List.idxOf_lt_length_of_mem hmem
        refine ⟨true, _, if_pos hmem, ?_, by rintro ⟨⟩, len_removeFrom_le hlen _⟩
        rw [intended, if_pos hmem, toList_removeFrom hlt, List.erase_eq_eraseIdx_of_idxOf rfl]
      · exact ⟨false, l, if_neg hmem, if_neg hmem, fun _ ↦ rfl, hlen⟩
  | removeAt pos =>
      rw [call, checkedRemoveAt]
      by_cases hpos : pos < l.len
      · have hpos' : pos < l.toList.length := by rwa [length_toList]
        rw [if_neg (Nat.not_le.mpr hpos), checkedRemoveFrom_of_lt hlen hpos]
        refine ⟨true, _, rfl, ?_, by rintro ⟨⟩, len_removeFrom_le hlen pos⟩
        rw [intended, if_pos hpos', toList_removeFrom hpos]
      · have hpos' : ¬ pos < l.toList.length := by rwa [length_toList]
        exact ⟨false, l, if_pos (Nat.not_lt.mp hpos), if_neg hpos', fun _ ↦ rfl, hlen⟩

/-- In an array with one free place `add` refuses, in a full one it writes past the end. -/
theorem room_of_add [DecidableEq α] {l l' : BoundedList α size} (hsize : 1 ≤ size)
    (hlen : l.len ≤ size) {elem : α} {r : Bool} (hcall : l.call (.add elem) = some (r, l'))
    (hintended : intended size (.add elem) l.toList = (r, l'.toList)) : l.len + 1 < size := by
  by_contra hroom
  by_cases hfree : l.len = size - 1
  · have hlt : l.toList.length < size := by
      rw [length_toList]
      omega
    rw [call, checkedAdd, if_pos hfree, Option.some_inj, Prod.mk.injEq] at hcall
    rw [intended, if_pos hlt, ← hcall.1, Prod.mk.injEq] at hintended
    exact Bool.noConfusion hintended.1
  · have hwrite : write size l.len elem l.data = none := (write_eq_none_iff elem).mpr (by omega)
    rw [call, checkedAdd, if_neg hfree, hwrite] at hcall
    cases hcall

/-- A run does what is intended exactly if each `add` finds two free places. -/
theorem conforms_iff [DecidableEq α] (hsize : 1 ≤ size) (ops : List (ListOp α))
    (l : BoundedList α size) (hlen : l.len ≤ size) :
    l.Conforms ops ↔ RoomForAdds size ops l.toList := by
  induction ops generalizing l with
  | nil => exact iff_of_true hlen trivial
  | cons op ops ih =>
      rw [Conforms, RoomForAdds]
      constructor
      · rintro ⟨r, l', hcall, hintended, -, hlen', hrest⟩
        refine ⟨?_, ?_⟩
        · rintro elem rfl
          rw [length_toList]
          exact room_of_add hsize hlen hcall hintended
        · rw [hintended]
          exact (ih l' hlen').mp hrest
      · rintro ⟨hroom, hrest⟩
        rw [length_toList] at hroom
        obtain ⟨r, l', hcall, hintended, hrefused, hlen'⟩ := call_conforms hlen hroom
        rw [hintended] at hrest
        exact ⟨r, l', hcall, hintended, hrefused, hlen', (ih l' hlen').mpr hrest⟩

theorem conforms_iff_of_six :
    (⟨id, 6⟩ : BoundedList ℕ 8).Conforms [.remove 3, .add 3, .add 7] ↔
      RoomForAdds 8 [.remove 3, .add 3, .add 7] (⟨id, 6⟩ : BoundedList ℕ 8).toList :=
  conforms_iff (by decide) _ _ (by decide)

/-- In a full list of eight the ninth element is written past the end. -/
theorem not_conforms :
    ¬ ∀ (ops : List (ListOp ℕ)) (l : BoundedList ℕ 8), l.len ≤ 8 → l.Conforms ops := by
  intro h
  obtain ⟨r, l', hcall, -⟩ := h [.add 8] ⟨id, 8⟩ le_rfl
  have hnone : (⟨id, 8⟩ : BoundedList ℕ 8).call (.add 8) = none := rfl
  rw [hnone] at hcall
  cases hcall

end Calls

end BoundedList

end TangNano.Os
