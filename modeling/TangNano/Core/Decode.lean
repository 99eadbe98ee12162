import TangNano.Core.Control
import TangNano.Emulator.Rv32i

/-!
# Two decoders

The core slices its instruction register into wires, the emulated CPU extracts
the same fields with shifts and masks.  For every word the emulated CPU accepts
both find the same operands and compute the same result.
-/

namespace TangNano.Decode

open TangNano.Core Rv32i

/-! ## Fields -/

theorem getLsbD_mask {k : ℕ} (hk : k < 32) (i : ℕ) :
    ((1#32 <<< k) - 1#32).getLsbD i = decide (i < k) := by
  have hpow : 2 ^ k < 2 ^ 32 := Nat.pow_lt_pow_right (by decide) hk
  have hone : 1 ≤ 2 ^ k := Nat.one_le_two_pow
  have hshift : (1#32 <<< k).toNat = 2 ^ k := by
    simpa [Nat.shiftLeft_eq] using hpow
  have hle : 1#32 ≤ 1#32 <<< k := by
    rw [BitVec.le_def, hshift]
    exact hone
  have htoNat : ((1#32 <<< k) - 1#32).toNat = 2 ^ k - 1 := by
    rw [BitVec.toNat_sub_of_le hle, hshift]
    rfl
  rw [← BitVec.testBit_toNat, htoNat, Nat.testBit_two_pow_sub_one]

theorem getLsbD_extractBits (w : Word) {a b : ℕ} (c : ℕ) (hab : b - a < 31) (i : ℕ) :
    (extractBits w a b c).getLsbD i =
      (decide (i < 32) && decide (c ≤ i) && decide (i - c < b - a + 1) &&
        w.getLsbD (a + (i - c))) := by
  simp only [extractBits, BitVec.getLsbD_shiftLeft, BitVec.getLsbD_and,
    BitVec.getLsbD_ushiftRight]
  by_cases hi : i < 32
  · by_cases hc : i < c
    · simp [hi, hc]
    · rw [getLsbD_mask (show b - a + 1 < 32 by omega)]
      simp [hi, hc, Nat.not_lt.mp hc, Bool.and_comm]
  · simp [hi]

/-- A field extracted to place 0 is the slice of the instruction. -/
theorem extractBits_zero (w : Word) {a b : ℕ} (hab : b - a < 31) :
    extractBits w a b 0 = (w.extractLsb' a (b - a + 1)).setWidth 32 := by
  apply BitVec.eq_of_getLsbD_eq
  intro i hi
  rw [getLsbD_extractBits w 0 hab]
  simp [BitVec.getLsbD_extractLsb', hi]

theorem rs1From_eq (w : Word) : rs1From w = (rs1 w).setWidth 32 := extractBits_zero w (by decide)

theorem rs2From_eq (w : Word) : rs2From w = (rs2 w).setWidth 32 := extractBits_zero w (by decide)

theorem rdFrom_eq (w : Word) : rdFrom w = (rd w).setWidth 32 := extractBits_zero w (by decide)

theorem funct3From_eq (w : Word) : funct3From w = (funct3 w).setWidth 32 :=
  extractBits_zero w (by decide)

theorem funct7From_eq (w : Word) : funct7From w = (w.extractLsb' 25 7).setWidth 32 :=
  extractBits_zero w (by decide)

theorem opcodeFrom_eq (w : Word) : opcodeFrom w = (w.extractLsb' 0 7).setWidth 32 :=
  extractBits_zero w (by decide)

theorem rdFrom_toNat (w : Word) : (rdFrom w).toNat = (rd w).toNat := by
  have hlt := (rd w).isLt
  rw [rdFrom_eq, BitVec.toNat_setWidth, Nat.mod_eq_of_lt (by omega)]

theorem rs2From_toNat (w : Word) : (rs2From w).toNat = (rs2 w).toNat := by
  have hlt := (rs2 w).isLt
  rw [rs2From_eq, BitVec.toNat_setWidth, Nat.mod_eq_of_lt (by omega)]

theorem rs1From_toNat (w : Word) : (rs1From w).toNat = (rs1 w).toNat := by
  have hlt := (rs1 w).isLt
  rw [rs1From_eq, BitVec.toNat_setWidth, Nat.mod_eq_of_lt (by omega)]

/-- The core looks at the upper five bits of the opcode. -/
theorem opcode_of_opcodeFrom {w : Word} (k : BitVec 7) (h : opcodeFrom w = k.setWidth 32) :
    opcode w = k.extractLsb' 2 5 := by
  have hslice : (w.extractLsb' 0 7) = k := by
    rw [opcodeFrom_eq] at h
    have hback := congrArg (BitVec.setWidth 7) h
    simpa using hback
  rw [← hslice, opcode, BitVec.extractLsb'_extractLsb'_of_le (by decide)]

theorem getLsbD_funct7 {w : Word} (k : BitVec 7) (h : funct7From w = k.setWidth 32) :
    w.getLsbD 30 = k.getLsbD 5 := by
  have hslice : (w.extractLsb' 25 7) = k := by
    rw [funct7From_eq] at h
    have hback := congrArg (BitVec.setWidth 7) h
    simpa using hback
  rw [← hslice, BitVec.getLsbD_extractLsb']
  simp

/-- A 32-bit operand's shift amount is its low five bits. -/
theorem shiftAmount_eq (b : Word) : (b &&& 0x1f).toNat = (b.extractLsb' 0 5).toNat := by
  rw [BitVec.toNat_and, BitVec.extractLsb'_toNat]
  exact Nat.and_two_pow_sub_one_eq_mod b.toNat 5

/-! ## Immediates -/

theorem uImm20From_eq (w : Word) : uImm20From w = uImm20 w := by
  apply BitVec.eq_of_getLsbD_eq
  intro i hi
  rw [uImm20From, getLsbD_extractBits w 12 (by decide), uImm20, BitVec.getLsbD_append]
  by_cases hlow : i < 12
  · simp [hlow, hi]
  · have hplace : 12 + (i - 12) = i := by omega
    simp [hlow, hi, hplace, Nat.not_lt.mp hlow]

theorem getElem_signBits {n i : ℕ} (w : Word) (hi : i < n) : (signBits n w)[i] = w[31] := by
  unfold signBits
  cases h : w.getLsbD 31 with
  | false => simpa using h.symm
  | true => simpa using h.symm

theorem and_twoPow_ne_zero (w : Word) {k : ℕ} (hk : k < 32) :
    w &&& BitVec.twoPow 32 k ≠ 0 ↔ w.getLsbD k = true := by
  rw [BitVec.and_twoPow]
  cases h : w.getLsbD k with
  | false => simp
  | true =>
      have hne : BitVec.twoPow 32 k ≠ 0#32 := by
        intro hzero
        have hbit := congrArg (fun b ↦ b.getLsbD k) hzero
        simp [hk] at hbit
      simp [hne]

/-- The sign test of the emulated CPU is the sign bit of the core. -/
theorem sign_iff (w : Word) : w &&& 0x80000000 ≠ 0 ↔ w.getLsbD 31 = true :=
  and_twoPow_ne_zero w (k := 31) (by decide)

theorem getLsbD_signExtend (w extension bits : Word) (i : ℕ) :
    (signExtend w extension bits).getLsbD i =
      (w.getLsbD 31 && extension.getLsbD i || bits.getLsbD i) := by
  cases h : w.getLsbD 31 with
  | false =>
      rw [signExtend, if_neg (by rw [sign_iff, h]; decide)]
      simp
  | true =>
      rw [signExtend, if_pos ((sign_iff w).mpr h), BitVec.getLsbD_or]
      simp

/-- The immediates agree bit by bit. -/
theorem iImm12From_eq (w : Word) : iImm12From w = iImm12 w := by
  apply BitVec.eq_of_getLsbD_eq
  intro i hi
  rw [iImm12From, getLsbD_signExtend, getLsbD_extractBits w 0 (by decide), iImm12,
    BitVec.getLsbD_append, BitVec.getLsbD_extractLsb']
  interval_cases i <;> simp [getElem_signBits]

theorem sImm12From_eq (w : Word) : sImm12From w = sImm12 w := by
  apply BitVec.eq_of_getLsbD_eq
  intro i hi
  rw [sImm12From, getLsbD_signExtend, BitVec.getLsbD_or, getLsbD_extractBits w 0 (by decide),
    getLsbD_extractBits w 5 (by decide), sImm12, BitVec.getLsbD_append, BitVec.getLsbD_append,
    BitVec.getLsbD_extractLsb', BitVec.getLsbD_extractLsb']
  interval_cases i <;> simp [getElem_signBits]

theorem bImm12From_eq (w : Word) : bImm12From w = bImm12 w := by
  apply BitVec.eq_of_getLsbD_eq
  intro i hi
  rw [bImm12From, getLsbD_signExtend]
  simp only [BitVec.getLsbD_or]
  rw [getLsbD_extractBits w 1 (by decide), getLsbD_extractBits w 5 (by decide),
    getLsbD_extractBits w 11 (by decide), getLsbD_extractBits w 12 (by decide), bImm12]
  simp only [BitVec.getLsbD_append, BitVec.getLsbD_extractLsb']
  interval_cases i <;> simp [getElem_signBits]

theorem jImm20From_eq (w : Word) : jImm20From w = jImm20 w := by
  apply BitVec.eq_of_getLsbD_eq
  intro i hi
  rw [jImm20From, getLsbD_signExtend]
  simp only [BitVec.getLsbD_or]
  rw [getLsbD_extractBits w 1 (by decide), getLsbD_extractBits w 11 (by decide),
    getLsbD_extractBits w 12 (by decide), getLsbD_extractBits w 20 (by decide), jImm20]
  simp only [BitVec.getLsbD_append, BitVec.getLsbD_extractLsb']
  interval_cases i <;> simp [getElem_signBits]

/-! ## Results -/

/-- The register file of the core holds the registers of the emulated CPU,
whose register 0 has been cleared. -/
structure SameRegs (data : RegisterFile) (regs : ℕ → Word) : Prop where
  zero : regs 0 = 0
  pos : ∀ x < 32, x ≠ 0 → data x = regs x

section Results

variable {s : Regs} {regs : ℕ → Word}

theorem SameRegs.readPort_eq {data : RegisterFile} (h : SameRegs data regs) (rs : BitVec 5) :
    Registers.dataOut data rs = regs rs.toNat := by
  unfold Registers.dataOut
  split
  · next hzero => rw [hzero]; exact h.zero.symm
  · next hne =>
      apply h.pos _ rs.isLt
      intro hzero
      exact hne (BitVec.eq_of_toNat_eq hzero)

theorem SameRegs.rs1_eq (h : SameRegs s.data regs) :
    reg regs (rs1From s.ir) = rs1DataOut s := by
  rw [reg, rs1From_toNat, rs1DataOut, h.readPort_eq]

theorem SameRegs.rs2_eq (h : SameRegs s.data regs) :
    reg regs (rs2From s.ir) = rs2DataOut s := by
  rw [reg, rs2From_toNat, rs2DataOut, h.readPort_eq]

/-- Where the emulated CPU accepts `funct7`, bit 30 decides between the two
operations. -/
theorem select_of_funct7 {w x y v : Word} {k : ℕ}
    (hok : (if funct7From w = 0b0000000 then Except.ok x
      else if funct7From w = 0b0100000 then .ok y else .error k) = .ok v) :
    (if w.getLsbD 30 then y else x) = v := by
  split at hok
  · next hzero =>
      rw [getLsbD_funct7 0b0000000 hzero]
      simpa using hok
  · split at hok
    · next hone =>
        rw [getLsbD_funct7 0b0100000 hone]
        simpa using hok
    · exact absurd hok (by simp)

theorem logicalImmediate_eq (h : SameRegs s.data regs) {v : Word}
    (hok : logicalImm regs s.ir = .ok v) : logicalImmediate s = some v := by
  unfold logicalImm at hok
  rw [h.rs1_eq, iImm12From_eq, rs2From_toNat, funct3From_eq] at hok
  unfold logicalImmediate
  rcases funct3_cases (funct3 s.ir) with hf | hf | hf | hf | hf | hf | hf | hf <;>
    rw [hf] at hok ⊢
  · simpa using hok
  · simpa using hok
  · simpa using hok
  · simpa using hok
  · simpa using hok
  · exact congrArg some (select_of_funct7 (by simpa using hok))
  · simpa using hok
  · simpa using hok

theorem logical_eq (h : SameRegs s.data regs) {v : Word}
    (hok : Rv32i.logical regs s.ir = .ok v) : Core.logical s = some v := by
  unfold Rv32i.logical at hok
  dsimp only at hok
  rw [h.rs1_eq, h.rs2_eq, shiftAmount_eq, funct3From_eq] at hok
  unfold Core.logical
  rcases funct3_cases (funct3 s.ir) with hf | hf | hf | hf | hf | hf | hf | hf <;>
    rw [hf] at hok ⊢
  · exact congrArg some (select_of_funct7 (by simpa using hok))
  · simpa using hok
  · simpa using hok
  · simpa using hok
  · simpa using hok
  · exact congrArg some (select_of_funct7 (by simpa using hok))
  · simpa using hok
  · simpa using hok

theorem branchTaken_eq (h : SameRegs s.data regs) {taken : Bool}
    (hok : Rv32i.branchTaken regs s.ir = .ok taken) : Core.branchTaken s = some taken := by
  unfold Rv32i.branchTaken at hok
  rw [h.rs1_eq, h.rs2_eq, funct3From_eq] at hok
  unfold Core.branchTaken
  rcases funct3_cases (funct3 s.ir) with hf | hf | hf | hf | hf | hf | hf | hf <;>
    rw [hf] at hok ⊢
  · simpa using hok
  · simpa using hok
  · simp at hok
  · simp at hok
  · simpa using hok
  · simpa using hok
  · simpa using hok
  · simpa using hok

/-! ## Loads and stores -/

/-- The `ramio_write_type` of a width. -/
def writeType : BusOpWidth → BitVec 2
  | .byte => 0b01
  | .halfWord => 0b10
  | .word => 0b11

/-- A value extended to 32 bits as a `ramio_read_type` says. -/
def extend (readType : BitVec 3) (v : Word) : Word :=
  if readType = 0b101 then (v.setWidth 8).signExtend 32
  else if readType = 0b001 then (v.setWidth 8).setWidth 32
  else if readType = 0b110 then (v.setWidth 16).signExtend 32
  else if readType = 0b010 then (v.setWidth 16).setWidth 32
  else v

/-- The bits of a value that an access of this width moves. -/
def moved (width : BusOpWidth) (v : Word) : Word :=
  match width with
  | .byte => (v.setWidth 8).setWidth 32
  | .halfWord => (v.setWidth 16).setWidth 32
  | .word => v

/-- The width of a `ramio_read_type`. -/
def readWidth (readType : BitVec 3) : BusOpWidth :=
  if readType = 0b101 ∨ readType = 0b001 then .byte
  else if readType = 0b110 ∨ readType = 0b010 then .halfWord
  else .word

theorem storeType_eq {width : BusOpWidth} {base : ℕ} {f : BitVec 3}
    (hok : storeWidth (f.setWidth 32) = some (width, base)) :
    storeType f = some (writeType width) := by
  unfold storeWidth at hok
  unfold storeType
  rcases funct3_cases f with hf | hf | hf | hf | hf | hf | hf | hf <;>
    rw [hf] at hok ⊢ <;> simp at hok ⊢
  · rw [← hok.1]; rfl
  · rw [← hok.1]; rfl
  · rw [← hok.1]; rfl

theorem signExtend_byte (v : Word) :
    (if moved .byte v &&& 0x80 ≠ 0 then 0xffffff00 ||| moved .byte v else moved .byte v) =
      (v.setWidth 8).signExtend 32 := by
  have hbit : moved .byte v &&& 0x80 ≠ 0 ↔ v.getLsbD 7 = true :=
    (and_twoPow_ne_zero (moved .byte v) (k := 7) (by decide)).trans (by simp [moved])
  rw [if_congr hbit rfl rfl]
  apply BitVec.eq_of_getLsbD_eq
  intro i hi
  rw [BitVec.getLsbD_signExtend, BitVec.msb_eq_getLsbD_last]
  cases h : v.getLsbD 7 with
  | false => interval_cases i <;> simp_all [moved]
  | true => interval_cases i <;> simp_all [moved]

theorem signExtend_halfWord (v : Word) :
    (if moved .halfWord v &&& 0x8000 ≠ 0 then 0xffff0000 ||| moved .halfWord v
      else moved .halfWord v) = (v.setWidth 16).signExtend 32 := by
  have hbit : moved .halfWord v &&& 0x8000 ≠ 0 ↔ v.getLsbD 15 = true :=
    (and_twoPow_ne_zero (moved .halfWord v) (k := 15) (by decide)).trans (by simp [moved])
  rw [if_congr hbit rfl rfl]
  apply BitVec.eq_of_getLsbD_eq
  intro i hi
  rw [BitVec.getLsbD_signExtend, BitVec.msb_eq_getLsbD_last]
  cases h : v.getLsbD 15 with
  | false => interval_cases i <;> simp_all [moved]
  | true => interval_cases i <;> simp_all [moved]

theorem loadType_eq {width : BusOpWidth} {base : ℕ} {g : Word → Word} {f : BitVec 3}
    (hok : loadWidth (f.setWidth 32) = some (width, base, g)) :
    ∃ r, loadType f = some r ∧ r ≠ 0 ∧ readWidth r = width ∧
      ∀ v, g (moved width v) = extend r v := by
  unfold loadWidth at hok
  unfold loadType
  rcases funct3_cases f with hf | hf | hf | hf | hf | hf | hf | hf <;>
    rw [hf] at hok ⊢ <;> simp at hok ⊢
  · obtain ⟨rfl, -, rfl⟩ := hok
    exact ⟨rfl, fun v ↦ by simpa [extend] using signExtend_byte v⟩
  · obtain ⟨rfl, -, rfl⟩ := hok
    exact ⟨rfl, fun v ↦ by simpa [extend] using signExtend_halfWord v⟩
  · obtain ⟨rfl, -, rfl⟩ := hok
    exact ⟨rfl, fun v ↦ rfl⟩
  · obtain ⟨rfl, -, rfl⟩ := hok
    exact ⟨rfl, fun v ↦ rfl⟩
  · obtain ⟨rfl, -, rfl⟩ := hok
    exact ⟨rfl, fun v ↦ rfl⟩

end Results

end TangNano.Decode
