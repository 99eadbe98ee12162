import Mathlib.Data.List.GetD
import TangNano.Library.Bytes

/-!
# Frames on an asynchronous line

A byte goes over the line as a start bit, its bits with the least significant
one first, and a stop bit, each held for the same number of cycles.  Between
frames the line is 1.
-/

namespace TangNano.Framing

/-- The bits of a frame. -/
def bit (b : Byte) (k : ℕ) : Bool :=
  if k = 0 then false else if k ≤ 8 then b.getLsbD (k - 1) else true

/-- A frame with bits of `T` cycles is on the line from cycle `t` on. -/
def Holds (T : ℕ) (line : ℕ → Bool) (t : ℕ) (b : Byte) : Prop :=
  ∀ k < 10, ∀ j < T, line (t + (k * T + j)) = bit b k

/-- The line carries frames that start in given cycles and is 1 otherwise. -/
structure Carries (T : ℕ) (line : ℕ → Bool) (starts : ℕ → Option Byte) : Prop where
  holds : ∀ t b, starts t = some b → Holds T line t b
  apart : ∀ t u, starts t ≠ none → starts u ≠ none → t < u → t + 10 * T ≤ u
  idle : ∀ n, (∀ t ≤ n, starts t ≠ none → t + 10 * T ≤ n) → line n = true

variable {T : ℕ}

theorem lt_of_bit {k j : ℕ} {K : ℕ} (hk : k < K) (hj : j < T) : k * T + j < K * T := by
  calc k * T + j < k * T + T := Nat.add_lt_add_left hj _
    _ = (k + 1) * T := (Nat.succ_mul k T).symm
    _ ≤ K * T := Nat.mul_le_mul_right T hk

theorem bit_unique {k k' j j' : ℕ} (hj : j < T) (hj' : j' < T) (h : k * T + j = k' * T + j') :
    k = k' ∧ j = j' := by
  have hT : 0 < T := Nat.zero_lt_of_lt hj
  have hk : k = k' := by
    have hdiv := congrArg (· / T) h
    simpa only [Nat.add_comm (_ * T), Nat.add_mul_div_right _ _ hT, Nat.div_eq_of_lt hj,
      Nat.div_eq_of_lt hj', Nat.zero_add] using hdiv
  subst hk
  exact ⟨rfl, Nat.add_left_cancel h⟩

/-- Counting the cycles of a bit and the bits of a frame. -/
theorem walk {P : ℕ → ℕ → Prop} {K : ℕ} (hstart : P 0 0)
    (hnext : ∀ k ≤ K, ∀ j, j + 1 < T → P k j → P k (j + 1))
    (hturn : ∀ k < K, P k (T - 1) → P (k + 1) 0) : ∀ k ≤ K, ∀ j < T, P k j := by
  have hbit : ∀ k ≤ K, P k 0 → ∀ j < T, P k j := by
    intro k hk hzero j
    induction j with
    | zero => exact fun _ ↦ hzero
    | succ j ih => exact fun hj ↦ hnext k hk j hj (ih (Nat.lt_of_succ_lt hj))
  intro k
  induction k with
  | zero => exact fun hk ↦ hbit 0 hk hstart
  | succ k ih =>
      intro hk j hj
      have hlast := ih (Nat.le_of_lt hk) (T - 1) (Nat.sub_lt (Nat.zero_lt_of_lt hj) Nat.one_pos)
      exact hbit (k + 1) hk (hturn k hk hlast) j hj

/-! ## A list of frames -/

/-- The cycles of a frame. -/
def cells (T : ℕ) (b : Byte) : List Bool :=
  (List.range 10).flatMap fun k ↦ List.replicate T (bit b k)

/-- Frames, each with the cycles for which the line is 1 after it. -/
def sent (T : ℕ) (frames : List (Byte × ℕ)) : List Bool :=
  frames.flatMap fun f ↦ cells T f.1 ++ List.replicate f.2 true

/-- The line is 1 before and after the frames. -/
def line (T lead : ℕ) (frames : List (Byte × ℕ)) (n : ℕ) : Bool :=
  (List.replicate lead true ++ sent T frames).getD n true

theorem length_bits (f : ℕ → Bool) (K : ℕ) :
    ((List.range K).flatMap fun k ↦ List.replicate T (f k)).length = K * T := by
  induction K with
  | zero => rw [Nat.zero_mul]; rfl
  | succ K ih =>
      rw [List.range_succ, List.flatMap_append, List.length_append, ih, List.flatMap_singleton,
        List.length_replicate, Nat.succ_mul]

theorem length_cells (b : Byte) : (cells T b).length = 10 * T := length_bits _ 10

theorem getD_bits (f : ℕ → Bool) {K k j : ℕ} (hk : k < K) (hj : j < T) (rest : List Bool) :
    ((List.range K).flatMap (fun k ↦ List.replicate T (f k)) ++ rest).getD (k * T + j) true =
      f k := by
  induction K generalizing rest with
  | zero => exact absurd hk (Nat.not_lt_zero k)
  | succ K ih =>
      rw [List.range_succ, List.flatMap_append, List.flatMap_singleton, List.append_assoc]
      rcases Nat.lt_succ_iff_lt_or_eq.mp hk with hlt | rfl
      · exact ih hlt _
      · rw [List.getD_append_right _ _ _ _ (by rw [length_bits]; omega), length_bits,
          Nat.add_sub_cancel_left, List.getD_append _ _ _ _ (by rwa [List.length_replicate]),
          List.getD_replicate _ hj]

theorem getD_cells (b : Byte) {k j : ℕ} (hk : k < 10) (hj : j < T) (rest : List Bool) :
    (cells T b ++ rest).getD (k * T + j) true = bit b k := getD_bits _ hk hj rest

end TangNano.Framing
