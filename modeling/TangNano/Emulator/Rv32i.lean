import TangNano.Library.Bytes

/-!
# The emulated CPU

`rv32i::cpu` over an arbitrary bus.  Integers are 32-bit words with wrapping
arithmetic; a signed operation is the one of `BitVec`.
-/

namespace TangNano.Rv32i

inductive BusOpWidth
  | byte | halfWord | word
deriving DecidableEq, Repr

def BusOpWidth.bytes : BusOpWidth → ℕ
  | .byte => 1
  | .halfWord => 2
  | .word => 4

/-- What a bus call returns: the status, the data and the state of what is
behind the bus. -/
structure BusResult (σ : Type*) where
  status : ℕ
  data : Word
  state : σ

/-- The bus callback: address, width, whether it is a store, and the data. -/
abbrev Bus (σ : Type*) := σ → Word → BusOpWidth → Bool → Word → BusResult σ

structure Cpu where
  pc : Word
  regs : ℕ → Word
  isHalted : Bool

/-! ## Instruction decoding -/

def extractBits (instruction : Word) (fromBitNum throughBitNum placeAt : ℕ) : Word :=
  let mask := (1#32 <<< (throughBitNum - fromBitNum + 1)) - 1#32
  let shifted := instruction >>> fromBitNum
  let masked := shifted &&& mask
  masked <<< placeAt

def opcodeFrom (instruction : Word) : Word := extractBits instruction 0 6 0

def funct3From (instruction : Word) : Word := extractBits instruction 12 14 0

def funct7From (instruction : Word) : Word := extractBits instruction 25 31 0

def rs1From (instruction : Word) : Word := extractBits instruction 15 19 0

def rs2From (instruction : Word) : Word := extractBits instruction 20 24 0

def rdFrom (instruction : Word) : Word := extractBits instruction 7 11 0

def uImm20From (instruction : Word) : Word := extractBits instruction 12 31 12

/-- `bits` with the bits of `extension` set when the instruction is negative. -/
def signExtend (instruction extension bits : Word) : Word :=
  if instruction &&& 0x80000000 ≠ 0 then extension ||| bits else bits

def iImm12From (instruction : Word) : Word :=
  signExtend instruction 0xfffff000 (extractBits instruction 20 31 0)

def sImm12From (instruction : Word) : Word :=
  signExtend instruction 0xfffff000
    (extractBits instruction 7 11 0 ||| extractBits instruction 25 31 5)

def bImm12From (instruction : Word) : Word :=
  signExtend instruction 0xffffe000
    (extractBits instruction 8 11 1 ||| extractBits instruction 25 30 5 |||
      extractBits instruction 7 7 11 ||| extractBits instruction 31 31 12)

def jImm20From (instruction : Word) : Word :=
  signExtend instruction 0xffe00000
    (extractBits instruction 21 30 1 ||| extractBits instruction 20 20 11 |||
      extractBits instruction 12 19 12 ||| extractBits instruction 31 31 20)

def opcodeLui : Word := 0b0110111

def opcodeLogicalImm : Word := 0b0010011

def opcodeLogical : Word := 0b0110011

def opcodeStore : Word := 0b0100011

def opcodeLoad : Word := 0b0000011

def opcodeAuipc : Word := 0b0010111

def opcodeJal : Word := 0b1101111

def opcodeJalr : Word := 0b1100111

def opcodeBranch : Word := 0b1100011

def opcodeFencePause : Word := 0b0001111

def opcodeSystem : Word := 0b1110011

def instructionEbreak : Word := 0x00100073

/-! ## Execution -/

/-- The width of a store and the base of its error statuses. -/
def storeWidth (funct3 : Word) : Option (BusOpWidth × ℕ) :=
  if funct3 = 0b000 then some (.byte, 1100)
  else if funct3 = 0b001 then some (.halfWord, 1200)
  else if funct3 = 0b010 then some (.word, 1300)
  else none

/-- The width of a load, the base of its error statuses and the value written
to `rd`. -/
def loadWidth (funct3 : Word) : Option (BusOpWidth × ℕ × (Word → Word)) :=
  if funct3 = 0b000 then
    some (.byte, 1400, fun v ↦ if v &&& 0x80 ≠ 0 then 0xffffff00 ||| v else v)
  else if funct3 = 0b001 then
    some (.halfWord, 1500, fun v ↦ if v &&& 0x8000 ≠ 0 then 0xffff0000 ||| v else v)
  else if funct3 = 0b010 then some (.word, 1600, fun v ↦ v)
  else if funct3 = 0b100 then some (.byte, 1700, fun v ↦ v)
  else if funct3 = 0b101 then some (.halfWord, 1800, fun v ↦ v)
  else none

section Execute

variable (regs : ℕ → Word) (instruction : Word)

def reg (num : Word) : Word := regs num.toNat

/-- The result of a logical operation with an immediate, or the error status. -/
def logicalImm : Except ℕ Word :=
  let a := reg regs (rs1From instruction)
  let imm := iImm12From instruction
  let shiftAmount := (rs2From instruction).toNat
  let funct3 := funct3From instruction
  if funct3 = 0b000 then .ok (a + imm)
  else if funct3 = 0b010 then .ok (if a.slt imm then 1 else 0)
  else if funct3 = 0b011 then .ok (if a.ult imm then 1 else 0)
  else if funct3 = 0b100 then .ok (a ^^^ imm)
  else if funct3 = 0b110 then .ok (a ||| imm)
  else if funct3 = 0b111 then .ok (a &&& imm)
  else if funct3 = 0b001 then .ok (a <<< shiftAmount)
  else if funct3 = 0b101 then
    if funct7From instruction = 0b0000000 then .ok (a >>> shiftAmount)
    else if funct7From instruction = 0b0100000 then .ok (a.sshiftRight shiftAmount)
    else .error 1
  else .error 2

/-- The result of a logical operation, or the error status. -/
def logical : Except ℕ Word :=
  let a := reg regs (rs1From instruction)
  let b := reg regs (rs2From instruction)
  let shiftAmount := (b &&& 0x1f).toNat
  let funct3 := funct3From instruction
  if funct3 = 0b000 then
    if funct7From instruction = 0b0000000 then .ok (a + b)
    else if funct7From instruction = 0b0100000 then .ok (a - b)
    else .error 3
  else if funct3 = 0b001 then .ok (a <<< shiftAmount)
  else if funct3 = 0b010 then .ok (if a.slt b then 1 else 0)
  else if funct3 = 0b011 then .ok (if a.ult b then 1 else 0)
  else if funct3 = 0b100 then .ok (a ^^^ b)
  else if funct3 = 0b101 then
    if funct7From instruction = 0b0000000 then .ok (a >>> shiftAmount)
    else if funct7From instruction = 0b0100000 then .ok (a.sshiftRight shiftAmount)
    else .error 4
  else if funct3 = 0b110 then .ok (a ||| b)
  else if funct3 = 0b111 then .ok (a &&& b)
  else .error 5

/-- Whether a branch is taken, or the error status. -/
def branchTaken : Except ℕ Bool :=
  let a := reg regs (rs1From instruction)
  let b := reg regs (rs2From instruction)
  let funct3 := funct3From instruction
  if funct3 = 0b000 then .ok (a == b)
  else if funct3 = 0b001 then .ok (a != b)
  else if funct3 = 0b100 then .ok (a.slt b)
  else if funct3 = 0b101 then .ok (!a.slt b)
  else if funct3 = 0b110 then .ok (a.ult b)
  else if funct3 = 0b111 then .ok (!a.ult b)
  else .error 8

end Execute

/-- What a tick leaves behind: its status, the CPU and the state of the bus. -/
structure Tick (σ : Type*) where
  status : ℕ
  cpu : Cpu
  state : σ

section Ticks

variable {σ : Type*}

/-- Leaves `rd` with a value and goes on at `nextPc`. -/
def retire (c : Cpu) (m : σ) (rd : Word) (value nextPc : Word) : Tick σ :=
  ⟨0, { c with regs := Function.update c.regs rd.toNat value, pc := nextPc }, m⟩

def jump (c : Cpu) (m : σ) (nextPc : Word) : Tick σ := ⟨0, { c with pc := nextPc }, m⟩

def fail (status : ℕ) (c : Cpu) (m : σ) : Tick σ := ⟨status, c, m⟩

/-- The instruction executed by a tick, with `regs_[0]` cleared. -/
def execute (bus : Bus σ) (c : Cpu) (m : σ) (instruction : Word) : Tick σ :=
  let nextPc := c.pc + 4
  let rd := rdFrom instruction
  let rs1 := reg c.regs (rs1From instruction)
  let opcode := opcodeFrom instruction
  if opcode = opcodeLui then retire c m rd (uImm20From instruction) nextPc
  else if opcode = opcodeLogicalImm then
    match logicalImm c.regs instruction with
    | .ok value => retire c m rd value nextPc
    | .error status => fail status c m
  else if opcode = opcodeLogical then
    match logical c.regs instruction with
    | .ok value => retire c m rd value nextPc
    | .error status => fail status c m
  else if opcode = opcodeStore then
    match storeWidth (funct3From instruction) with
    | some (width, base) =>
        let r := bus m (rs1 + sImm12From instruction) width true
          (reg c.regs (rs2From instruction))
        if r.status ≠ 0 then fail (base + r.status) c r.state else jump c r.state nextPc
    | none => fail 6 c m
  else if opcode = opcodeLoad then
    match loadWidth (funct3From instruction) with
    | some (width, base, extend) =>
        let r := bus m (rs1 + iImm12From instruction) width false 0
        if r.status ≠ 0 then fail (base + r.status) c r.state
        else retire c r.state rd (extend r.data) nextPc
    | none => fail 7 c m
  else if opcode = opcodeAuipc then retire c m rd (c.pc + uImm20From instruction) nextPc
  else if opcode = opcodeJal then
    retire c m rd (c.pc + 4) (c.pc + jImm20From instruction)
  else if opcode = opcodeJalr then
    retire c m rd (c.pc + 4) (rs1 + iImm12From instruction)
  else if opcode = opcodeBranch then
    match branchTaken c.regs instruction with
    | .ok taken => jump c m (if taken then c.pc + bImm12From instruction else nextPc)
    | .error status => fail status c m
  else if opcode = opcodeFencePause then jump c m nextPc
  else if opcode = opcodeSystem then
    if instruction ≠ instructionEbreak then fail 10 c m
    else ⟨0, { c with isHalted := true }, m⟩
  else fail 9 c m

/-- Register 0 is cleared before an instruction is fetched. -/
def cleared (c : Cpu) : Cpu := { c with regs := Function.update c.regs 0 0 }

@[simp] theorem cleared_pc (c : Cpu) : (cleared c).pc = c.pc := rfl

def tick (bus : Bus σ) (c : Cpu) (m : σ) : Tick σ :=
  let c := cleared c
  let r := bus m c.pc .word false 0
  if r.status ≠ 0 then fail (1000 + r.status) c r.state
  else execute bus c r.state r.data

theorem tick_of_fetch {bus : Bus σ} {c : Cpu} {m m' : σ} {w : Word}
    (h : bus m c.pc .word false 0 = ⟨0, w, m'⟩) :
    tick bus c m = execute bus (cleared c) m' w := by
  unfold tick
  dsimp only
  rw [cleared_pc, h, if_neg (by simp)]

/-- `n` ticks that all return 0 without halting. -/
inductive Ticks (bus : Bus σ) : ℕ → Cpu → σ → Cpu → σ → Prop
  | zero (c : Cpu) (m : σ) : Ticks bus 0 c m c m
  | succ {n : ℕ} {c c' : Cpu} {m m' : σ} (h : Ticks bus n c m c' m')
      (status : (tick bus c' m').status = 0)
      (running : (tick bus c' m').cpu.isHalted = false) :
      Ticks bus (n + 1) c m (tick bus c' m').cpu (tick bus c' m').state

end Ticks

end TangNano.Rv32i
