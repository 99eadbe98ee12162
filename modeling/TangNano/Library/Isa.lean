import TangNano.Library.Bytes

/-!
# RV32I

The base integer instruction set without ECALL and EBREAK: the encodings and
what the instructions do to the program counter, the registers and a memory of
bytes.
-/

namespace TangNano.Isa

open Bytes

abbrev Register := BitVec 5

inductive ImmOp
  | addi | slti | sltiu | xori | ori | andi
deriving DecidableEq, Repr

inductive ShiftOp
  | sll | srl | sra
deriving DecidableEq, Repr

inductive RegOp
  | add | sub | slt | sltu | xor | or | and
  | shift (op : ShiftOp)
deriving DecidableEq, Repr

inductive BranchOp
  | beq | bne | blt | bge | bltu | bgeu
deriving DecidableEq, Repr

inductive LoadOp
  | lb | lh | lw | lbu | lhu
deriving DecidableEq, Repr

inductive StoreOp
  | sb | sh | sw
deriving DecidableEq, Repr

/-- Immediates and offsets are extended to 32 bits. -/
inductive Instr
  | lui (rd : Register) (imm : Word)
  | auipc (rd : Register) (imm : Word)
  | jal (rd : Register) (offset : Word)
  | jalr (rd rs1 : Register) (offset : Word)
  | branch (op : BranchOp) (rs1 rs2 : Register) (offset : Word)
  | load (op : LoadOp) (rd rs1 : Register) (offset : Word)
  | store (op : StoreOp) (rs1 rs2 : Register) (offset : Word)
  | opImm (op : ImmOp) (rd rs1 : Register) (imm : Word)
  | shiftImm (op : ShiftOp) (rd rs1 : Register) (shamt : BitVec 5)
  | op (op : RegOp) (rd rs1 rs2 : Register)
  | fence
deriving DecidableEq, Repr

/-! ## Encodings -/

section Encodings

variable (w : Word)

def opcode : BitVec 7 := w.extractLsb' 0 7

def rd : Register := w.extractLsb' 7 5

def funct3 : BitVec 3 := w.extractLsb' 12 3

def rs1 : Register := w.extractLsb' 15 5

def rs2 : Register := w.extractLsb' 20 5

def funct7 : BitVec 7 := w.extractLsb' 25 7

def immI : Word := (w.extractLsb' 20 12).signExtend 32

def immS : Word := (w.extractLsb' 25 7 ++ w.extractLsb' 7 5).signExtend 32

def immB : Word :=
  (w.extractLsb' 31 1 ++ w.extractLsb' 7 1 ++ w.extractLsb' 25 6 ++ w.extractLsb' 8 4 ++
    0#1).signExtend 32

def immU : Word := w.extractLsb' 12 20 ++ 0#12

def immJ : Word :=
  (w.extractLsb' 31 1 ++ w.extractLsb' 12 8 ++ w.extractLsb' 20 1 ++ w.extractLsb' 21 10 ++
    0#1).signExtend 32

def decodeBranch : Option BranchOp :=
  if funct3 w = 0b000 then some .beq
  else if funct3 w = 0b001 then some .bne
  else if funct3 w = 0b100 then some .blt
  else if funct3 w = 0b101 then some .bge
  else if funct3 w = 0b110 then some .bltu
  else if funct3 w = 0b111 then some .bgeu
  else none

def decodeLoad : Option LoadOp :=
  if funct3 w = 0b000 then some .lb
  else if funct3 w = 0b001 then some .lh
  else if funct3 w = 0b010 then some .lw
  else if funct3 w = 0b100 then some .lbu
  else if funct3 w = 0b101 then some .lhu
  else none

def decodeStore : Option StoreOp :=
  if funct3 w = 0b000 then some .sb
  else if funct3 w = 0b001 then some .sh
  else if funct3 w = 0b010 then some .sw
  else none

/-- `funct7` tells the two shifts to the right apart. -/
def decodeShiftRight : Option ShiftOp :=
  if funct7 w = 0b0000000 then some .srl
  else if funct7 w = 0b0100000 then some .sra
  else none

def decodeOpImm : Option Instr :=
  if funct3 w = 0b000 then some (.opImm .addi (rd w) (rs1 w) (immI w))
  else if funct3 w = 0b010 then some (.opImm .slti (rd w) (rs1 w) (immI w))
  else if funct3 w = 0b011 then some (.opImm .sltiu (rd w) (rs1 w) (immI w))
  else if funct3 w = 0b100 then some (.opImm .xori (rd w) (rs1 w) (immI w))
  else if funct3 w = 0b110 then some (.opImm .ori (rd w) (rs1 w) (immI w))
  else if funct3 w = 0b111 then some (.opImm .andi (rd w) (rs1 w) (immI w))
  else if funct3 w = 0b001 then
    if funct7 w = 0b0000000 then some (.shiftImm .sll (rd w) (rs1 w) (rs2 w)) else none
  else if funct3 w = 0b101 then
    (decodeShiftRight w).map fun op ↦ .shiftImm op (rd w) (rs1 w) (rs2 w)
  else none

def decodeOp : Option RegOp :=
  if funct3 w = 0b101 then (decodeShiftRight w).map .shift
  else if funct3 w = 0b000 ∧ funct7 w = 0b0100000 then some .sub
  else if funct7 w ≠ 0b0000000 then none
  else if funct3 w = 0b000 then some .add
  else if funct3 w = 0b001 then some (.shift .sll)
  else if funct3 w = 0b010 then some .slt
  else if funct3 w = 0b011 then some .sltu
  else if funct3 w = 0b100 then some .xor
  else if funct3 w = 0b110 then some .or
  else if funct3 w = 0b111 then some .and
  else none

def decode : Option Instr :=
  if opcode w = 0b0110111 then some (.lui (rd w) (immU w))
  else if opcode w = 0b0010111 then some (.auipc (rd w) (immU w))
  else if opcode w = 0b1101111 then some (.jal (rd w) (immJ w))
  else if opcode w = 0b1100111 then
    if funct3 w = 0b000 then some (.jalr (rd w) (rs1 w) (immI w)) else none
  else if opcode w = 0b1100011 then
    (decodeBranch w).map fun op ↦ .branch op (rs1 w) (rs2 w) (immB w)
  else if opcode w = 0b0000011 then
    (decodeLoad w).map fun op ↦ .load op (rd w) (rs1 w) (immI w)
  else if opcode w = 0b0100011 then
    (decodeStore w).map fun op ↦ .store op (rs1 w) (rs2 w) (immS w)
  else if opcode w = 0b0010011 then decodeOpImm w
  else if opcode w = 0b0110011 then
    (decodeOp w).map fun op ↦ .op op (rd w) (rs1 w) (rs2 w)
  else if opcode w = 0b0001111 then if funct3 w = 0b000 then some .fence else none
  else none

end Encodings

/-! ## Execution -/

structure State where
  pc : Word
  x : Register → Word
  mem : Word → Byte

/-- Register 0 reads as 0. -/
def State.get (s : State) (r : Register) : Word := if r = 0 then 0 else s.x r

def State.set (s : State) (r : Register) (v : Word) : State :=
  { s with x := Function.update s.x r v }

def State.goto (s : State) (pc : Word) : State := { s with pc := pc }

def State.next (s : State) : State := s.goto (s.pc + 4)

def truth (b : Bool) : Word := if b then 1 else 0

def ShiftOp.eval (op : ShiftOp) (a : Word) (shamt : BitVec 5) : Word :=
  match op with
  | .sll => a <<< shamt.toNat
  | .srl => a >>> shamt.toNat
  | .sra => a.sshiftRight shamt.toNat

def ImmOp.eval (op : ImmOp) (a imm : Word) : Word :=
  match op with
  | .addi => a + imm
  | .slti => truth (a.slt imm)
  | .sltiu => truth (a.ult imm)
  | .xori => a ^^^ imm
  | .ori => a ||| imm
  | .andi => a &&& imm

/-- Shifts take the low five bits of the second operand. -/
def RegOp.eval (op : RegOp) (a b : Word) : Word :=
  match op with
  | .add => a + b
  | .sub => a - b
  | .slt => truth (a.slt b)
  | .sltu => truth (a.ult b)
  | .xor => a ^^^ b
  | .or => a ||| b
  | .and => a &&& b
  | .shift op => op.eval a (b.setWidth 5)

def BranchOp.taken (op : BranchOp) (a b : Word) : Bool :=
  match op with
  | .beq => a == b
  | .bne => a != b
  | .blt => a.slt b
  | .bge => !a.slt b
  | .bltu => a.ult b
  | .bgeu => !a.ult b

def LoadOp.bytes : LoadOp → ℕ
  | .lb => 1
  | .lh => 2
  | .lw => 4
  | .lbu => 1
  | .lhu => 2

def LoadOp.eval (op : LoadOp) (mem : Word → Byte) (a : Word) : Word :=
  match op with
  | .lb => (mem a).signExtend 32
  | .lh => (mem (a + 1) ++ mem a).signExtend 32
  | .lw => mem (a + 3) ++ mem (a + 2) ++ mem (a + 1) ++ mem a
  | .lbu => (mem a).setWidth 32
  | .lhu => (mem (a + 1) ++ mem a).setWidth 32

def StoreOp.bytes : StoreOp → ℕ
  | .sb => 1
  | .sh => 2
  | .sw => 4

/-- The low `n` bytes of `v` at `a`. -/
def storeBytes (a : Word) (n : ℕ) (v : Word) (mem : Word → Byte) : Word → Byte := fun b ↦
  if (b - a).toNat < n then byte v (b - a).toNat else mem b

def exec (i : Instr) (s : State) : State :=
  match i with
  | .lui rd imm => (s.set rd imm).next
  | .auipc rd imm => (s.set rd (s.pc + imm)).next
  | .jal rd offset => (s.set rd (s.pc + 4)).goto (s.pc + offset)
  | .jalr rd rs1 offset => (s.set rd (s.pc + 4)).goto ((s.get rs1 + offset) &&& ~~~1)
  | .branch op rs1 rs2 offset =>
      if op.taken (s.get rs1) (s.get rs2) then s.goto (s.pc + offset) else s.next
  | .load op rd rs1 offset => (s.set rd (op.eval s.mem (s.get rs1 + offset))).next
  | .store op rs1 rs2 offset =>
      State.next { s with mem := storeBytes (s.get rs1 + offset) op.bytes (s.get rs2) s.mem }
  | .opImm op rd rs1 imm => (s.set rd (op.eval (s.get rs1) imm)).next
  | .shiftImm op rd rs1 shamt => (s.set rd (op.eval (s.get rs1) shamt)).next
  | .op op rd rs1 rs2 => (s.set rd (op.eval (s.get rs1) (s.get rs2))).next
  | .fence => s.next

/-- The instruction at the program counter. -/
def fetch (s : State) : Word := LoadOp.lw.eval s.mem s.pc

/-- The address and the number of bytes of a load or a store. -/
def access (i : Instr) (s : State) : Option (Word × ℕ) :=
  match i with
  | .load op _ rs1 offset => some (s.get rs1 + offset, op.bytes)
  | .store op rs1 _ offset => some (s.get rs1 + offset, op.bytes)
  | _ => none

/-- Where a JALR goes before bit 0 is cleared. -/
def target (i : Instr) (s : State) : Option Word :=
  match i with
  | .jalr _ rs1 offset => some (s.get rs1 + offset)
  | _ => none

end TangNano.Isa
