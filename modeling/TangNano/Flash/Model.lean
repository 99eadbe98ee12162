import TangNano.Library.Serial

/-!
# The flash emulator

Module `flash`, which stands in for the flash in simulations.  It acts on the
falling edges of its clock.  Whatever comes over `mosi`, the bits that follow
command and address are those of stored bytes: the first one is fetched while
the address is still being shifted in, the others lie behind the address that
was shifted in before the last edge.
-/

namespace TangNano.Flash

/-- The offset and the content of a flash with addresses of `w` bits. -/
structure Params (w : ℕ) where
  addressOffset : Word
  data : BitVec w → Byte

inductive StateE
  | receiveCommand | receiveAddress | sendData
deriving DecidableEq, Repr

structure Regs (w : ℕ) where
  miso : Bool
  address : BitVec w
  currentByte : Byte
  counter : BitVec 9
  state : StateE

/-- The branch taken when `rst_n` is low. -/
def reset (w : ℕ) : Regs w where
  miso := false
  address := 0
  currentByte := 0
  counter := 8 - 2
  state := .receiveCommand

section Edges

variable {w : ℕ} (q : Params w)

def receiveCommand (s : Regs w) : Regs w :=
  let s' := { s with counter := s.counter - 1 }
  if s.counter.getLsbD 8 then { s' with counter := 24 - 2, state := .receiveAddress } else s'

def receiveAddress (mosi : Bool) (s : Regs w) : Regs w :=
  let s' := { s with
    address := (s.address.extractLsb' 0 23 ++ BitVec.ofBool mosi).setWidth w
    counter := s.counter - 1
    currentByte := q.data s.address }
  if s.counter.getLsbD 8 then
    { s' with
      counter := 7 - 2
      miso := s.currentByte.getLsbD 7
      currentByte := s.currentByte.extractLsb' 0 7 ++ 0#1
      address := (s.address.setWidth 32 + q.addressOffset + 1).setWidth w
      state := .sendData }
  else s'

def sendData (s : Regs w) : Regs w :=
  let s' := { s with
    miso := s.currentByte.getLsbD 7
    currentByte := s.currentByte.extractLsb' 0 7 ++ 0#1
    counter := s.counter - 1 }
  if s.counter.getLsbD 8 then
    { s' with
      counter := 8 - 2
      currentByte := q.data s.address
      address := s.address + 1 }
  else s'

/-- One falling edge of the clock. -/
def negedge (csN mosi : Bool) (s : Regs w) : Regs w :=
  if csN then s
  else
    match s.state with
    | .receiveCommand => receiveCommand s
    | .receiveAddress => receiveAddress q mosi s
    | .sendData => sendData q s

/-- After `e` edges since the reset while selected, the `k`-th of which saw `seen k`. -/
def edges (seen : ℕ → Bool) : ℕ → Regs w
  | 0 => reset w
  | e + 1 => negedge q false (seen e) (edges seen e)

/-- The address after `t` of its bits. -/
def shifted (w : ℕ) (seen : ℕ → Bool) (t : ℕ) : BitVec w :=
  Serial.shiftIn 0 ((List.range t).map fun k ↦ seen (8 + k))

/-- What is sent. -/
def sent (seen : ℕ → Bool) : ℕ → Byte
  | 0 => q.data (shifted w seen 22)
  | j + 1 => q.data (shifted w seen 23 + q.addressOffset.setWidth w + BitVec.ofNat w (j + 1))

variable {q} {seen : ℕ → Bool}

/-! ## Command and address -/

/-- The counter has not been decremented below 0. -/
theorem counter_nonneg {c : BitVec 9} {k n : ℕ} (h : c = BitVec.ofNat 9 (n - k)) (hn : n < 256) :
    c.getLsbD 8 = false := by
  rw [h, BitVec.getLsbD_ofNat, Nat.testBit_lt_two_pow (by omega)]
  rfl

theorem counter_next {k n : ℕ} (hk : k < n) :
    BitVec.ofNat 9 (n - k) - 1 = BitVec.ofNat 9 (n - (k + 1)) := by
  bv_omega

theorem edges_command {e : ℕ} (he : e ≤ 6) :
    edges q seen e = { reset w with counter := BitVec.ofNat 9 (6 - e) } := by
  induction e with
  | zero => rfl
  | succ e ih =>
      rw [edges, ih (by omega), negedge, if_neg Bool.false_ne_true]
      change receiveCommand _ = _
      rw [receiveCommand, counter_nonneg (c := BitVec.ofNat 9 (6 - e)) rfl (by decide)]
      dsimp only
      rw [counter_next (by omega)]
      rfl

/-- The address comes after eight edges. -/
theorem edges_address : edges q seen 8 =
    { reset w with counter := 22, state := .receiveAddress } := by
  rw [edges, edges, edges_command le_rfl]
  simp [negedge, receiveCommand, reset]

theorem shifted_succ (t : ℕ) (hw : w ≤ 24) :
    ((shifted w seen t).extractLsb' 0 23 ++ BitVec.ofBool (seen (8 + t))).setWidth w =
      shifted w seen (t + 1) := by
  rw [shifted, shifted, Serial.shiftIn_succ]
  apply BitVec.eq_of_getLsbD_eq
  intro i hi
  rw [BitVec.getLsbD_setWidth, BitVec.getLsbD_append, BitVec.getLsbD_shiftConcat]
  cases i with
  | zero => simp
  | succ i =>
      have hlt : i < 23 := by omega
      simp [hlt, hi]

theorem edges_shifting (hw : w ≤ 24) {t : ℕ} (ht : t ≤ 22) :
    ∃ c, edges q seen (8 + t) =
      ⟨false, shifted w seen t, c, BitVec.ofNat 9 (22 - t), .receiveAddress⟩ := by
  induction t with
  | zero => exact ⟨0, edges_address⟩
  | succ t ih =>
      obtain ⟨c, hc⟩ := ih (by omega)
      refine ⟨q.data (shifted w seen t), ?_⟩
      rw [← Nat.add_assoc, edges, hc, negedge, if_neg Bool.false_ne_true]
      change receiveAddress q _ _ = _
      rw [receiveAddress, counter_nonneg (c := BitVec.ofNat 9 (22 - t)) rfl (by decide)]
      dsimp only
      rw [counter_next (by omega), shifted_succ t hw]
      rfl

/-! ## Data -/

/-- `k` bits have been sent. -/
structure Sending (q : Params w) (seen : ℕ → Bool) (k : ℕ) (s : Regs w) : Prop where
  state : s.state = .sendData
  counter : s.counter = 6 - BitVec.ofNat 9 (k % 8)
  loaded : Serial.Loaded s.currentByte (Serial.stream (sent q seen)) k (8 - k % 8)
  address : s.address =
    shifted w seen 23 + q.addressOffset.setWidth w + BitVec.ofNat w (k / 8 + 1)
  miso : s.miso = Serial.stream (sent q seen) (k - 1)

theorem loaded_byte (b : ℕ → Byte) (j : ℕ) :
    Serial.Loaded (b j) (Serial.stream b) (8 * j) 8 := by
  intro i hi
  rw [Serial.stream, show (8 * j + i) / 8 = j by omega, show (8 * j + i) % 8 = i by omega]

theorem counter_sending (r : ℕ) (hr : r < 8) :
    (6 - BitVec.ofNat 9 r).getLsbD 8 = decide (r = 7) := by
  revert r
  decide

/-- The first bit is sent as the address ends. -/
theorem sending_one (hw : w ≤ 24) : Sending q seen 1 (edges q seen 32) := by
  have hshifting : ∃ c, edges q seen (8 + 22) =
      ⟨false, shifted w seen 22, c, BitVec.ofNat 9 (22 - 22), .receiveAddress⟩ :=
    edges_shifting hw le_rfl
  obtain ⟨c, hc⟩ := hshifting
  have hlast : edges q seen 31 =
      ⟨false, shifted w seen 23, q.data (shifted w seen 22), BitVec.allOnes 9,
        .receiveAddress⟩ := by
    rw [edges, hc, negedge, if_neg Bool.false_ne_true]
    change receiveAddress q _ _ = _
    rw [receiveAddress, counter_nonneg (c := BitVec.ofNat 9 (22 - 22)) rfl (by decide)]
    dsimp only
    rw [shifted_succ 22 hw]
    rfl
  have hnext : edges q seen 32 =
      ⟨(q.data (shifted w seen 22)).getLsbD 7,
        ((shifted w seen 23).setWidth 32 + q.addressOffset + 1).setWidth w,
        (q.data (shifted w seen 22)).extractLsb' 0 7 ++ 0#1, 5, .sendData⟩ := by
    have hnegative : (BitVec.allOnes 9).getLsbD 8 = true := by decide
    rw [edges, hlast, negedge, if_neg Bool.false_ne_true]
    change receiveAddress q _ _ = _
    rw [receiveAddress, if_pos hnegative]
    rfl
  obtain ⟨hbit, hrest⟩ := (loaded_byte (sent q seen) 0).next (by decide) false
  rw [hnext]
  refine ⟨rfl, ?_, ?_, ?_, hbit⟩
  · change (5 : BitVec 9) = 6 - BitVec.ofNat 9 1
    decide
  · rw [← Serial.append_ofBool] at hrest
    exact hrest
  · change ((shifted w seen 23).setWidth 32 + q.addressOffset + 1).setWidth w = _ + BitVec.ofNat w 1
    rw [BitVec.setWidth_add _ _ (by omega), BitVec.setWidth_add _ _ (by omega),
      BitVec.setWidth_setWidth_of_le _ (by omega), BitVec.setWidth_eq]
    congr 1
    exact BitVec.setWidth_ofNat_of_le (by omega) 1

theorem Sending.next {k : ℕ} {s : Regs w} (h : Sending q seen k s) (mosi : Bool) :
    Sending q seen (k + 1) (negedge q false mosi s) := by
  have hlt : k % 8 < 8 := Nat.mod_lt k (by decide)
  have hsign := counter_sending (k % 8) hlt
  have hloaded := h.loaded
  rw [show 8 - k % 8 = 7 - k % 8 + 1 by omega] at hloaded
  obtain ⟨hbit, hrest⟩ := hloaded.next (by omega) false
  rw [negedge, if_neg Bool.false_ne_true, h.state]
  change Sending q seen (k + 1) (sendData q s)
  rw [sendData, h.counter, hsign]
  by_cases hend : k % 8 = 7
  · -- the next byte follows
    have hnext : k + 1 = 8 * (k / 8 + 1) := by omega
    rw [if_pos (decide_eq_true hend)]
    refine ⟨h.state, ?_, ?_, ?_, hbit⟩
    · rw [show (k + 1) % 8 = 0 by omega]
      rfl
    · have hbyte : q.data s.address = sent q seen (k / 8 + 1) := by
        rw [h.address]
        rfl
      rw [show 8 - (k + 1) % 8 = 8 by omega, hnext]
      dsimp only
      rw [hbyte]
      exact loaded_byte _ _
    · change s.address + 1 = _
      have hsum : BitVec.ofNat w (k / 8 + 1 + 1) = BitVec.ofNat w (k / 8 + 1) + 1 :=
        BitVec.ofNat_add _ _
      rw [h.address, show (k + 1) / 8 + 1 = k / 8 + 1 + 1 by omega, hsum, BitVec.add_assoc]
  · rw [if_neg (by simpa using hend)]
    refine ⟨h.state, ?_, ?_, ?_, hbit⟩
    · change 6 - BitVec.ofNat 9 (k % 8) - 1 = _
      rw [show (k + 1) % 8 = k % 8 + 1 by omega]
      generalize k % 8 = r
      bv_omega
    · rw [← Serial.append_ofBool] at hrest
      rw [show 8 - (k + 1) % 8 = 7 - k % 8 by omega]
      exact hrest
    · rw [show (k + 1) / 8 = k / 8 by omega]
      exact h.address

/-- Command and address come in 32 edges, then bit after bit is sent. -/
theorem edges_miso (hw : w ≤ 24) (k : ℕ) :
    (edges q seen (32 + k)).miso = Serial.stream (sent q seen) k := by
  have hsending : Sending q seen (k + 1) (edges q seen (32 + k)) := by
    induction k with
    | zero => exact sending_one hw
    | succ k ih => exact ih.next _
  exact hsending.miso

end Edges

end TangNano.Flash
