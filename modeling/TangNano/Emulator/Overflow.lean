import TangNano.Emulator.Conformance

/-!
# Signed additions and subtractions

The emulated CPU adds and subtracts values of type `int32_t`.  A result out of
their range is undefined, whatever the instruction set says about it.
-/

namespace TangNano.Rv32i

/-- An expression of type `int32_t` with its operands. -/
inductive Signed
  | add (a b : Word)
  | sub (a b : Word)
deriving DecidableEq, Repr

namespace Signed

def result : Signed → ℤ
  | add a b => a.toInt + b.toInt
  | sub a b => a.toInt - b.toInt

/-- What the instruction set asks for. -/
def wrapped : Signed → Word
  | add a b => a + b
  | sub a b => a - b

/-- The result is in the range of `int32_t`. -/
def Defined (e : Signed) : Prop := -2147483648 ≤ e.result ∧ e.result ≤ 2147483647

instance (e : Signed) : Decidable e.Defined := inferInstanceAs (Decidable (_ ∧ _))

/-- Operands of different signs can be added and operands of one sign subtracted; the others
must not be too far from 0, as words not too large or not too small. -/
def Safe : Signed → Prop
  | add a b =>
      a.msb ≠ b.msb ∨ (a.msb = false ∧ a.toNat + b.toNat < 2147483648) ∨
        (a.msb = true ∧ 6442450944 ≤ a.toNat + b.toNat)
  | sub a b =>
      a.msb = b.msb ∨ (a.msb = false ∧ a.toNat + 2147483648 < b.toNat) ∨
        (a.msb = true ∧ b.toNat + 2147483648 ≤ a.toNat)

theorem defined_iff_safe (e : Signed) : e.Defined ↔ e.Safe := by
  cases e with
  | add a b =>
      have ha := a.isLt
      have hb := b.isLt
      simp only [Defined, result, Safe, BitVec.toInt_eq_toNat_cond, BitVec.msb_eq_decide]
      by_cases hsa : 2147483648 ≤ a.toNat <;> by_cases hsb : 2147483648 ≤ b.toNat <;>
        simp [hsa, hsb] <;> omega
  | sub a b =>
      have ha := a.isLt
      have hb := b.isLt
      simp only [Defined, result, Safe, BitVec.toInt_eq_toNat_cond, BitVec.msb_eq_decide]
      by_cases hsa : 2147483648 ≤ a.toNat <;> by_cases hsb : 2147483648 ≤ b.toNat <;>
        simp [hsa, hsb] <;> omega

theorem toInt_wrapped (e : Signed) : e.wrapped.toInt = e.result.bmod (2 ^ 32) := by
  cases e with
  | add a b => exact BitVec.toInt_add a b
  | sub a b => exact BitVec.toInt_sub

/-- The results that are defined are those that do not wrap. -/
theorem toInt_wrapped_eq_iff (e : Signed) : e.wrapped.toInt = e.result ↔ e.Defined := by
  constructor
  · intro h
    rw [Defined, ← h]
    exact ⟨BitVec.le_toInt e.wrapped, BitVec.toInt_le⟩
  · rintro ⟨hle, hlt⟩
    rw [toInt_wrapped]
    apply Int.bmod_eq_of_le_mul_two
    · push_cast
      omega
    · push_cast
      omega

end Signed

section Evaluated

variable {σ : Type*}

/-- The expression that an instruction evaluates: that of an address before the width is
looked at, and the target of a branch whether it is taken or not. -/
def evaluated (c : Cpu) (instruction : Word) : Option Signed :=
  let rs1 := reg c.regs (rs1From instruction)
  let rs2 := reg c.regs (rs2From instruction)
  let opcode := opcodeFrom instruction
  if opcode = opcodeLogicalImm then
    if funct3From instruction = 0b000 then some (.add rs1 (iImm12From instruction)) else none
  else if opcode = opcodeLogical then
    if funct3From instruction = 0b000 then
      if funct7From instruction = 0b0000000 then some (.add rs1 rs2)
      else if funct7From instruction = 0b0100000 then some (.sub rs1 rs2)
      else none
    else none
  else if opcode = opcodeStore then some (.add rs1 (sImm12From instruction))
  else if opcode = opcodeLoad then some (.add rs1 (iImm12From instruction))
  else if opcode = opcodeJal then some (.add c.pc (jImm20From instruction))
  else if opcode = opcodeJalr then some (.add rs1 (iImm12From instruction))
  else if opcode = opcodeBranch then some (.add c.pc (bImm12From instruction))
  else none

/-- What an instruction does with the value of its expression. -/
def executeWith (bus : Bus σ) (c : Cpu) (m : σ) (instruction value : Word) : Tick σ :=
  let nextPc := c.pc + 4
  let rd := rdFrom instruction
  let opcode := opcodeFrom instruction
  if opcode = opcodeLogicalImm ∨ opcode = opcodeLogical then retire c m rd value nextPc
  else if opcode = opcodeStore then
    match storeWidth (funct3From instruction) with
    | some (width, base) =>
        let r := bus m value width true (reg c.regs (rs2From instruction))
        if r.status ≠ 0 then fail (base + r.status) c r.state else jump c r.state nextPc
    | none => fail 6 c m
  else if opcode = opcodeLoad then
    match loadWidth (funct3From instruction) with
    | some (width, base, extend) =>
        let r := bus m value width false 0
        if r.status ≠ 0 then fail (base + r.status) c r.state
        else retire c r.state rd (extend r.data) nextPc
    | none => fail 7 c m
  else if opcode = opcodeBranch then
    match branchTaken c.regs instruction with
    | .ok taken => jump c m (if taken then value else nextPc)
    | .error status => fail status c m
  else retire c m rd nextPc value

/-- The CPU works with the wrapped result. -/
theorem execute_evaluated (bus : Bus σ) {c : Cpu} (m : σ) {w : Word} {e : Signed}
    (h : e ∈ evaluated c w) : execute bus c m w = executeWith bus c m w e.wrapped := by
  unfold evaluated at h
  unfold executeWith
  dsimp only at h ⊢
  by_cases himm : opcodeFrom w = opcodeLogicalImm
  · rw [if_pos himm] at h
    by_cases haddi : funct3From w = 0b000
    · rw [if_pos haddi, Option.mem_some_iff] at h
      rw [← h, if_pos (.inl himm), execute, himm, logicalImm, haddi]
      rfl
    · rw [if_neg haddi] at h
      cases h
  rw [if_neg himm] at h
  by_cases hlogical : opcodeFrom w = opcodeLogical
  · rw [if_pos hlogical] at h
    by_cases hfunct : funct3From w = 0b000
    · rw [if_pos hfunct] at h
      by_cases hadd : funct7From w = 0b0000000
      · rw [if_pos hadd, Option.mem_some_iff] at h
        rw [← h, if_pos (.inr hlogical), execute, hlogical, logical, hfunct, hadd]
        rfl
      rw [if_neg hadd] at h
      by_cases hsub : funct7From w = 0b0100000
      · rw [if_pos hsub, Option.mem_some_iff] at h
        rw [← h, if_pos (.inr hlogical), execute, hlogical, logical, hfunct, hsub]
        rfl
      · rw [if_neg hsub] at h
        cases h
    · rw [if_neg hfunct] at h
      cases h
  rw [if_neg hlogical] at h
  rw [if_neg (not_or.mpr ⟨himm, hlogical⟩)]
  by_cases hstore : opcodeFrom w = opcodeStore
  · rw [if_pos hstore, Option.mem_some_iff] at h
    rw [← h, execute, hstore]
    rfl
  rw [if_neg hstore] at h ⊢
  by_cases hload : opcodeFrom w = opcodeLoad
  · rw [if_pos hload, Option.mem_some_iff] at h
    rw [← h, execute, hload]
    rfl
  rw [if_neg hload] at h ⊢
  by_cases hjal : opcodeFrom w = opcodeJal
  · rw [if_pos hjal, Option.mem_some_iff] at h
    rw [← h, execute, hjal]
    rfl
  rw [if_neg hjal] at h
  by_cases hjalr : opcodeFrom w = opcodeJalr
  · rw [if_pos hjalr, Option.mem_some_iff] at h
    rw [← h, execute, hjalr]
    rfl
  rw [if_neg hjalr] at h
  by_cases hbranch : opcodeFrom w = opcodeBranch
  · rw [if_pos hbranch, Option.mem_some_iff] at h
    rw [← h, execute, hbranch]
    rfl
  · rw [if_neg hbranch] at h
    cases h

/-- The instruction of a tick; there is none when the fetch fails. -/
def instructionAt (bus : Bus σ) (c : Cpu) (m : σ) : Option Word :=
  let r := bus m c.pc .word false 0
  if r.status ≠ 0 then none else some r.data

/-- The expression that a tick evaluates. -/
def tickEvaluated (bus : Bus σ) (c : Cpu) (m : σ) : Option Signed :=
  (instructionAt bus c m).bind (evaluated (cleared c))

end Evaluated

/-! ## Targets relative to the program counter -/

/-- A jump of less than 2 MiB from an address below 8 MiB. -/
theorem defined_relative {pc offset : Word} {w : ℕ} {imm : BitVec w}
    (hpc : pc.toNat < Emulator.memoryEnd) (hw : w ≤ 21) (himm : offset = imm.signExtend 32) :
    (Signed.add pc offset).Defined := by
  have hoffset : offset.toInt = imm.toInt := by
    rw [himm]
    exact BitVec.toInt_signExtend_of_le (by omega)
  have hpcInt : pc.toInt = pc.toNat := by
    rw [BitVec.toInt_eq_toNat_cond, if_pos]
    unfold Emulator.memoryEnd at hpc
    omega
  have hlo := BitVec.le_two_mul_toInt (x := imm)
  have hhi := BitVec.two_mul_toInt_lt (x := imm)
  have hpow : (2 : ℤ) ^ w ≤ 2 ^ 21 := pow_le_pow_right₀ (by decide) hw
  unfold Emulator.memoryEnd at hpc
  rw [Signed.Defined, Signed.result, hoffset, hpcInt]
  omega

theorem evaluated_jal {c : Cpu} {w : Word} (h : opcodeFrom w = opcodeJal) :
    evaluated c w = some (.add c.pc (jImm20From w)) := by
  unfold evaluated
  rw [h]
  rfl

theorem evaluated_branch {c : Cpu} {w : Word} (h : opcodeFrom w = opcodeBranch) :
    evaluated c w = some (.add c.pc (bImm12From w)) := by
  unfold evaluated
  rw [h]
  rfl

end TangNano.Rv32i

namespace TangNano.Emulator

open Rv32i

/-- The instruction is a JAL or a branch, or the operands suit each other. -/
def OperandsSafe (c : Cpu) (instruction : Word) : Prop :=
  opcodeFrom instruction = opcodeJal ∨ opcodeFrom instruction = opcodeBranch ∨
    ∀ e ∈ evaluated c instruction, e.Safe

theorem evaluated_defined_iff {c : Cpu} (hpc : c.pc.toNat < memoryEnd) (w : Word) :
    (∀ e ∈ evaluated c w, e.Defined) ↔ OperandsSafe c w := by
  by_cases hjal : opcodeFrom w = opcodeJal
  · refine iff_of_true ?_ (.inl hjal)
    rintro e he
    rw [evaluated_jal hjal, Option.mem_some_iff] at he
    rw [← he]
    exact defined_relative hpc le_rfl immJ_eq
  by_cases hbranch : opcodeFrom w = opcodeBranch
  · refine iff_of_true ?_ (.inr (.inl hbranch))
    rintro e he
    rw [evaluated_branch hbranch, Option.mem_some_iff] at he
    rw [← he]
    exact defined_relative hpc (by decide) immB_eq
  · rw [OperandsSafe, or_iff_right hjal, or_iff_right hbranch]
    exact forall₂_congr fun e _ ↦ e.defined_iff_safe

/-- Nothing that a tick evaluates overflows exactly if its operands do not make it. -/
theorem tick_defined_iff {σ : Type*} (bus : Bus σ) {c : Cpu} (hpc : c.pc.toNat < memoryEnd)
    (m : σ) :
    (∀ e ∈ tickEvaluated bus c m, e.Defined) ↔
      ∀ instruction ∈ instructionAt bus c m, OperandsSafe (cleared c) instruction := by
  unfold tickEvaluated
  cases instructionAt bus c m with
  | none => simp
  | some w =>
      rw [Option.bind_some, evaluated_defined_iff (c := cleared c) hpc w]
      simp

/-- `addi x1, x1, 1` at address 0. -/
def addiMachine : Machine :=
  ⟨fun k ↦ [0x93, 0x80, 0x10, 0x00].getD k 0, ⟨fun _ ↦ 0, 0, fun _ ↦ 0, 0⟩, [], []⟩

/-- All registers hold the largest value. -/
def addiCpu : Cpu := ⟨0, fun _ ↦ 0x7fffffff, false⟩

theorem tick_defined_iff_addi :
    addiCpu.pc.toNat < memoryEnd ∧
      ((∀ e ∈ tickEvaluated bus addiCpu addiMachine, e.Defined) ↔
        ∀ instruction ∈ instructionAt bus addiCpu addiMachine,
          OperandsSafe (cleared addiCpu) instruction) :=
  ⟨by decide, tick_defined_iff bus (by decide) addiMachine⟩

theorem not_tick_defined :
    ¬ ∀ (c : Cpu) (m : Machine), c.pc.toNat < memoryEnd →
      ∀ e ∈ tickEvaluated bus c m, e.Defined := by
  intro h
  have hadd : tickEvaluated bus addiCpu addiMachine = some (.add 0x7fffffff 1) := by decide
  exact absurd (h addiCpu addiMachine (by decide) _ hadd) (by decide)

end TangNano.Emulator
