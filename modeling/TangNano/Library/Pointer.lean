import Mathlib.Data.List.Basic

/-!
# Sequences behind pointers

A memory has a value at some addresses, and a read at another address fails.
A loop that goes through a sequence by a pointer calls a function on one
element after the other until it says no.
-/

namespace TangNano

/-- What is at an address, if there is anything. -/
abbrev Memory (α : Type*) := ℕ → Option α

namespace Memory

section Sequences

variable {α σ : Type*}

/-- A memory with a sequence from address 0 on and nothing else. -/
def ofList (xs : List α) : Memory α := fun p ↦ xs[p]?

/-- The sequence is in the memory from address `p` on. -/
def At (mem : Memory α) : ℕ → List α → Prop
  | _, [] => True
  | p, x :: xs => mem p = some x ∧ At mem (p + 1) xs

/-- At most `n` elements from `p` on are handed to `f`.  The address of the first one that it
refuses, or of the end, and the state of `f`. -/
def walk (mem : Memory α) (f : σ → α → Option (Bool × σ)) : ℕ → ℕ → σ → Option (ℕ × σ)
  | 0, p, s => some (p, s)
  | n + 1, p, s =>
      (mem p).bind fun x ↦ (f s x).bind fun r ↦
        if r.1 then walk mem f n (p + 1) r.2 else some (p, r.2)

variable {mem : Memory α} {p : ℕ} {xs ys : List α}

theorem at_append : mem.At p (xs ++ ys) ↔ mem.At p xs ∧ mem.At (p + xs.length) ys := by
  induction xs generalizing p with
  | nil => exact (and_iff_right trivial).symm
  | cons x xs ih =>
      rw [List.cons_append, At, At, ih, and_assoc, List.length_cons, Nat.add_right_comm,
        Nat.add_assoc]

theorem at_of_getElem? (h : ∀ i < xs.length, mem (p + i) = xs[i]?) : mem.At p xs := by
  induction xs generalizing p with
  | nil => trivial
  | cons x xs ih =>
      refine ⟨h 0 (Nat.succ_pos _), ih fun i hi ↦ ?_⟩
      have hnext := h (i + 1) (Nat.succ_lt_succ hi)
      rwa [List.getElem?_cons_succ, Nat.add_comm i, ← Nat.add_assoc] at hnext

theorem at_ofList (before xs after : List α) :
    (ofList (before ++ xs ++ after)).At before.length xs := by
  apply at_of_getElem?
  intro i hi
  rw [ofList, List.append_assoc, List.getElem?_append_right (Nat.le_add_right _ _),
    Nat.add_sub_cancel_left, List.getElem?_append_left hi]

/-- A function without a state gets as far as it holds. -/
theorem walk_of_at (f : α → Bool) (h : mem.At p xs) :
    mem.walk (fun _ x ↦ some (f x, ())) xs.length p () =
      some (p + (xs.takeWhile f).length, ()) := by
  induction xs generalizing p with
  | nil => rfl
  | cons x xs ih =>
      obtain ⟨hx, hxs⟩ := h
      rw [List.length_cons, walk, hx, Option.bind_some, Option.bind_some, List.takeWhile_cons]
      cases f x with
      | false => rfl
      | true =>
          rw [if_pos rfl, if_pos rfl, ih hxs, List.length_cons, Nat.add_right_comm, Nat.add_assoc]

end Sequences

end Memory

end TangNano
