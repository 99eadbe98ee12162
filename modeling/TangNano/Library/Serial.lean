import TangNano.Library.Bytes

/-!
# Serial lines

A word goes over a serial line with its most significant bit first: one shift
register is emptied and another is filled, one bit at a time.
-/

namespace TangNano.Serial

variable {w : ℕ} {line : ℕ → Bool} {n : ℕ}

/-- The register holds the last bits before bit `n` of a line. -/
def Received (x : BitVec w) (line : ℕ → Bool) (n : ℕ) : Prop :=
  ∀ i < w, i < n → x.getLsbD i = line (n - 1 - i)

/-- The next `r` bits that leave the register are those of a line from bit `n` on. -/
def Loaded (x : BitVec w) (line : ℕ → Bool) (n r : ℕ) : Prop :=
  ∀ i < r, x.getMsbD i = line (n + i)

/-- The bits of bytes that are sent one after the other. -/
def stream (b : ℕ → Byte) (n : ℕ) : Bool := (b (n / 8)).getMsbD (n % 8)

theorem append_ofBool (x : BitVec (w + 1)) (b : Bool) :
    x.extractLsb' 0 w ++ BitVec.ofBool b = x.shiftConcat b := by
  apply BitVec.eq_of_getLsbD_eq
  intro i hi
  rw [BitVec.getLsbD_append, BitVec.getLsbD_shiftConcat]
  cases i with
  | zero => simp
  | succ i =>
      have hiw : i < w := by omega
      simp [hiw]

theorem received_zero (x : BitVec w) : Received x line 0 :=
  fun _ _ hi ↦ absurd hi (Nat.not_lt_zero _)

theorem Received.next {x : BitVec w} (h : Received x line n) :
    Received (x.shiftConcat (line n)) line (n + 1) := by
  intro i hi hn
  rw [BitVec.getLsbD_shiftConcat, decide_eq_true hi, Bool.true_and]
  cases i with
  | zero => rfl
  | succ i =>
      rw [if_neg (Nat.succ_ne_zero i), Nat.add_sub_cancel, h i (by omega) (by omega)]
      congr 1
      omega

theorem Received.word {x v : BitVec w} (h : Received x line (n + w))
    (hv : ∀ i < w, line (n + i) = v.getMsbD i) : x = v := by
  apply BitVec.eq_of_getLsbD_eq
  intro i hi
  have hindex : n + w - 1 - i = n + (w - 1 - i) := by omega
  rw [h i hi (by omega), hindex, hv _ (by omega), BitVec.getMsbD]
  have hlt : w - 1 - i < w := by omega
  have hback : w - 1 - (w - 1 - i) = i := by omega
  rw [decide_eq_true hlt, Bool.true_and, hback]

theorem Loaded.next {x : BitVec w} {r : ℕ} (h : Loaded x line n (r + 1)) (hr : r < w) (b : Bool) :
    x.getMsbD 0 = line n ∧ Loaded (x.shiftConcat b) line (n + 1) r := by
  refine ⟨h 0 (Nat.succ_pos r), ?_⟩
  intro i hi
  have hi' := h (i + 1) (by omega)
  rw [show n + (i + 1) = n + 1 + i by omega] at hi'
  rw [← hi']
  have hlt : i < w := by omega
  have hlt' : i + 1 < w := by omega
  have hin : w - 1 - i < w := by omega
  rw [BitVec.getMsbD, BitVec.getMsbD, BitVec.getLsbD_shiftConcat, decide_eq_true hlt,
    decide_eq_true hlt', decide_eq_true hin, if_neg (show w - 1 - i ≠ 0 by omega),
    show w - 1 - i - 1 = w - 1 - (i + 1) by omega]
  rfl

/-- Eight bits of the stream are a byte. -/
theorem Received.byte {x : Byte} {b : ℕ → Byte} {q : ℕ} (h : Received x (stream b) (8 * (q + 1))) :
    x = b q := by
  refine Received.word (n := 8 * q) h ?_
  intro i hi
  rw [stream, show (8 * q + i) / 8 = q by omega, show (8 * q + i) % 8 = i by omega]

/-! ## Lists of bits -/

/-- The first `n` bits of a word. -/
def firstBits (x : BitVec w) (n : ℕ) : List Bool := (List.range n).map x.getMsbD

def bits (x : BitVec w) : List Bool := firstBits x w

/-- Bits of a line are shifted into a register. -/
def shiftIn (x : BitVec w) (l : List Bool) : BitVec w := l.foldl BitVec.shiftConcat x

@[simp] theorem shiftIn_nil (x : BitVec w) : shiftIn x [] = x := rfl

@[simp] theorem shiftIn_cons (x : BitVec w) (b : Bool) (l : List Bool) :
    shiftIn x (b :: l) = shiftIn (x.shiftConcat b) l := rfl

@[simp] theorem length_bits (x : BitVec w) : (bits x).length = w := by simp [bits, firstBits]

/-- The first bit leaves a register and the others move up. -/
theorem firstBits_succ (x : BitVec w) {m : ℕ} (hm : m < w) (b : Bool) :
    firstBits x (m + 1) = x.getMsbD 0 :: firstBits (x.shiftConcat b) m := by
  have hloaded : Loaded x x.getMsbD 0 (m + 1) := fun i _ ↦ by rw [Nat.zero_add]
  obtain ⟨-, hrest⟩ := hloaded.next hm b
  rw [firstBits, List.range_succ_eq_map, List.map_cons, List.map_map, firstBits]
  congr 1
  apply List.map_congr_left
  intro i hi
  rw [hrest i (List.mem_range.mp hi), Function.comp_apply, Nat.zero_add, Nat.add_comm]

theorem shiftIn_succ (x : BitVec w) (line : ℕ → Bool) (m : ℕ) :
    shiftIn x ((List.range (m + 1)).map line) =
      (shiftIn x ((List.range m).map line)).shiftConcat (line m) := by
  simp [shiftIn, List.range_succ]

theorem received_shiftIn (x : BitVec w) (line : ℕ → Bool) (m : ℕ) :
    Received (shiftIn x ((List.range m).map line)) line m := by
  induction m with
  | zero => exact received_zero _
  | succ m ih =>
      rw [shiftIn_succ]
      exact ih.next

/-- A register that was empty holds the bits and zeros. -/
theorem getLsbD_shiftIn_zero (line : ℕ → Bool) (m i : ℕ) :
    (shiftIn (0 : BitVec w) ((List.range m).map line)).getLsbD i =
      (decide (i < w) && decide (i < m) && line (m - 1 - i)) := by
  induction m generalizing i with
  | zero => simp
  | succ m ih =>
      rw [shiftIn_succ, BitVec.getLsbD_shiftConcat]
      cases i with
      | zero => simp
      | succ i =>
          rw [if_neg (Nat.succ_ne_zero i), Nat.add_sub_cancel, ih]
          by_cases hi : i + 1 < w
          · have hi' : i < w := by omega
            simp only [hi, hi', decide_true, Bool.true_and, Nat.add_lt_add_iff_right]
            congr 2
            omega
          · simp [hi]

/-- A word that is shifted in replaces what was there. -/
theorem shiftIn_bits (x v : BitVec w) : shiftIn x (bits v) = v := by
  refine Received.word (n := 0) ?_ fun i _ ↦ by rw [Nat.zero_add]
  rw [Nat.zero_add]
  exact received_shiftIn x v.getMsbD w

/-- A register that was shifted up `m` times and filled with ones. -/
def shiftOnes (x : BitVec w) : ℕ → BitVec w
  | 0 => x
  | m + 1 => shiftOnes (x.shiftConcat true) m

theorem shiftOnes_succ (x : BitVec w) (m : ℕ) :
    shiftOnes x (m + 1) = (shiftOnes x m).shiftConcat true := by
  induction m generalizing x with
  | zero => rfl
  | succ m ih => exact ih (x.shiftConcat true)

theorem getMsbD_shiftOnes (x : BitVec w) {m : ℕ} (hm : m < w) :
    (shiftOnes x m).getMsbD 0 = x.getMsbD m := by
  induction m generalizing x with
  | zero => rfl
  | succ m ih =>
      have hloaded : Loaded x x.getMsbD 0 (m + 2) := fun i _ ↦ by rw [Nat.zero_add]
      obtain ⟨-, hrest⟩ := hloaded.next hm true
      rw [shiftOnes, ih (x.shiftConcat true) (by omega), hrest m (Nat.lt_succ_self m), Nat.zero_add,
        Nat.add_comm]

/-- The next `n` bits of a line that ends in ones. -/
def nextBits : List Bool → ℕ → List Bool
  | _, 0 => []
  | l, n + 1 => l.headD true :: nextBits l.tail n

theorem nextBits_append (l rest : List Bool) : nextBits (l ++ rest) l.length = l := by
  induction l with
  | nil => rfl
  | cons b l ih =>
      rw [List.length_cons, List.cons_append, nextBits, List.tail_cons, ih]
      rfl

/-- A word comes from the line. -/
theorem shiftIn_nextBits (x v : BitVec w) (rest : List Bool) :
    shiftIn x (nextBits (bits v ++ rest) w) = v ∧ (bits v ++ rest).drop w = rest := by
  have hnext := nextBits_append (bits v) rest
  rw [length_bits] at hnext
  exact ⟨by rw [hnext, shiftIn_bits], List.drop_left' (length_bits v)⟩

end TangNano.Serial
