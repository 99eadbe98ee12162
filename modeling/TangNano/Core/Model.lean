import TangNano.Library.Bytes

/-!
# The core

The modules `registers` and `core`, register by register.  `step` is one
rising clock edge of `core` with the register file it contains.
-/

namespace TangNano

/-- The register file of module `registers`. -/
abbrev RegisterFile := ℕ → Word

namespace Registers

/-- A read port; register 0 is hardwired to 0. -/
def dataOut (data : RegisterFile) (rs : BitVec 5) : Word := if rs = 0 then 0 else data rs.toNat

def step (rd : BitVec 5) (rdWriteEnable : Bool) (rdDataIn : Word) (data : RegisterFile) :
    RegisterFile :=
  if rdWriteEnable then Function.update data rd.toNat rdDataIn else data

end Registers

namespace Core

structure Params where
  startupWaitCycles : Word
  flashTransferFromAddress : Word
  flashTransferByteCount : Word

inductive StateE
  | bootInit | bootLoadCommandToSend | bootSend | bootLoadAddressToSend | bootReadData
  | bootStartWrite | bootWrite | cpuFetch | cpuExecute | cpuStore | cpuLoad
deriving DecidableEq, Repr

structure Input where
  rstN : Bool
  ramioDataOut : Word
  ramioDataOutReady : Bool
  ramioBusy : Bool
  flashMiso : Bool

structure Regs where
  led : Bool
  ramioEnable : Bool
  ramioReadType : BitVec 3
  ramioWriteType : BitVec 2
  ramioAddress : Word
  ramioDataIn : Word
  flashClk : Bool
  flashMosi : Bool
  flashCsN : Bool
  flashDataToSend : BitVec 24
  flashNumBitsToSend : BitVec 5
  flashCounter : Word
  flashCurrentByteOut : Byte
  flashCurrentByteNum : BitVec 8
  flashDataOut : ℕ → Byte
  ramioAddressNext : Word
  state : StateE
  returnState : StateE
  pc : Word
  ir : Word
  rdDataIn : Word
  rdWriteEnable : Bool
  data : RegisterFile

/-- One of the states the registers can power up in. -/
def powerUp : Regs where
  led := true
  ramioEnable := false
  ramioReadType := 0
  ramioWriteType := 0
  ramioAddress := 0
  ramioDataIn := 0
  flashClk := false
  flashMosi := false
  flashCsN := true
  flashDataToSend := 0
  flashNumBitsToSend := 0
  flashCounter := 0
  flashCurrentByteOut := 0
  flashCurrentByteNum := 0
  flashDataOut := fun _ ↦ 0
  ramioAddressNext := 0
  state := .bootInit
  returnState := .bootInit
  pc := 0
  ir := 0
  rdDataIn := 0
  rdWriteEnable := false
  data := fun _ ↦ 0

/-! ## Decode wires -/

def rs1 (ir : Word) : BitVec 5 := ir.extractLsb' 15 5

def rs2 (ir : Word) : BitVec 5 := ir.extractLsb' 20 5

def rd (ir : Word) : BitVec 5 := ir.extractLsb' 7 5

/-- The lowest two bits of the instruction are ignored. -/
def opcode (ir : Word) : BitVec 5 := ir.extractLsb' 2 5

def funct3 (ir : Word) : BitVec 3 := ir.extractLsb' 12 3

/-- `{n{ir[31]}}` -/
def signBits (n : ℕ) (ir : Word) : BitVec n :=
  if ir.getLsbD 31 then BitVec.allOnes n else 0

def uImm20 (ir : Word) : Word := ir.extractLsb' 12 20 ++ 0#12

def iImm12 (ir : Word) : Word := signBits 21 ir ++ ir.extractLsb' 20 11

def sImm12 (ir : Word) : Word := signBits 21 ir ++ ir.extractLsb' 25 6 ++ ir.extractLsb' 7 5

def bImm12 (ir : Word) : Word :=
  signBits 20 ir ++ ir.extractLsb' 7 1 ++ ir.extractLsb' 25 6 ++ ir.extractLsb' 8 4 ++ 0#1

def jImm20 (ir : Word) : Word :=
  signBits 12 ir ++ ir.extractLsb' 12 8 ++ ir.extractLsb' 20 1 ++ ir.extractLsb' 21 10 ++ 0#1

def rs1DataOut (s : Regs) : Word := Registers.dataOut s.data (rs1 s.ir)

def rs2DataOut (s : Regs) : Word := Registers.dataOut s.data (rs2 s.ir)

/-! ## The boot states -/

section Fsm

variable (p : Params)

def bootInit (s : Regs) : Regs :=
  if s.flashCounter ≥ p.startupWaitCycles then
    { s with flashCounter := 0, state := .bootLoadCommandToSend }
  else { s with flashCounter := s.flashCounter + 1 }

def bootLoadCommandToSend (s : Regs) : Regs :=
  { s with
    flashCsN := false
    flashDataToSend := 3#8 ++ s.flashDataToSend.extractLsb' 0 16
    flashNumBitsToSend := 8
    state := .bootSend
    returnState := .bootLoadAddressToSend }

def bootLoadAddressToSend (s : Regs) : Regs :=
  { s with
    flashDataToSend := p.flashTransferFromAddress.setWidth 24
    flashNumBitsToSend := 24
    flashCurrentByteNum := 0
    state := .bootSend
    returnState := .bootReadData }

def bootSend (s : Regs) : Regs :=
  if s.flashCounter = 0 then
    { s with
      flashCounter := 1
      flashClk := false
      flashMosi := s.flashDataToSend.getLsbD 23
      flashDataToSend := s.flashDataToSend.extractLsb' 0 23 ++ 0#1
      flashNumBitsToSend := s.flashNumBitsToSend - 1 }
  else
    { s with
      flashCounter := 0
      flashClk := true
      state := if s.flashNumBitsToSend = 0 then s.returnState else s.state }

def bootReadData (i : Input) (s : Regs) : Regs :=
  let s' := { s with flashCounter := s.flashCounter + 1 }
  if s.flashCounter.getLsbD 0 = false then
    if s.flashCounter.extractLsb' 0 4 = 0 ∧ s.flashCounter > 0 then
      { s' with
        flashClk := false
        flashDataOut :=
          Function.update s.flashDataOut s.flashCurrentByteNum.toNat s.flashCurrentByteOut
        flashCurrentByteNum := s.flashCurrentByteNum + 1
        state := if s.flashCurrentByteNum = 3 then .bootStartWrite else s.state }
    else { s' with flashClk := false }
  else
    { s' with
      flashClk := true
      flashCurrentByteOut :=
        s.flashCurrentByteOut.extractLsb' 0 7 ++ BitVec.ofBool i.flashMiso }

def bootStartWrite (i : Input) (s : Regs) : Regs :=
  if i.ramioBusy then s
  else
    { s with
      ramioEnable := true
      ramioReadType := 0
      ramioWriteType := 0b11
      ramioAddress := s.ramioAddressNext
      ramioAddressNext := s.ramioAddressNext + 4
      ramioDataIn := Bytes.ofBytes s.flashDataOut
      state := .bootWrite }

def bootWrite (i : Input) (s : Regs) : Regs :=
  if i.ramioBusy then s
  else if s.ramioAddressNext < p.flashTransferByteCount then
    { s with ramioEnable := false, flashCurrentByteNum := 0, state := .bootReadData }
  else
    { s with
      flashCurrentByteNum := 0
      flashCsN := true
      ramioEnable := true
      ramioReadType := 0b111
      ramioWriteType := 0
      ramioAddress := 0
      pc := 0
      state := .cpuFetch }

/-! ## The CPU states -/

def cpuFetch (i : Input) (s : Regs) : Regs :=
  if i.ramioDataOutReady then
    { s with
      rdWriteEnable := false
      ir := i.ramioDataOut
      ramioEnable := false
      state := .cpuExecute }
  else { s with rdWriteEnable := false }

/-- `rd_data_in` of the logical operations with an immediate. -/
def logicalImmediate (s : Regs) : Option Word :=
  let a := rs1DataOut s
  let imm := iImm12 s.ir
  let shift := (rs2 s.ir).toNat
  if funct3 s.ir = 0b000 then some (a + imm)
  else if funct3 s.ir = 0b010 then some (if a.slt imm then 1 else 0)
  else if funct3 s.ir = 0b011 then some (if a.ult imm then 1 else 0)
  else if funct3 s.ir = 0b100 then some (a ^^^ imm)
  else if funct3 s.ir = 0b110 then some (a ||| imm)
  else if funct3 s.ir = 0b111 then some (a &&& imm)
  else if funct3 s.ir = 0b001 then some (a <<< shift)
  else if funct3 s.ir = 0b101 then
    some (if s.ir.getLsbD 30 then a.sshiftRight shift else a >>> shift)
  else none

/-- `rd_data_in` of the logical operations. -/
def logical (s : Regs) : Option Word :=
  let a := rs1DataOut s
  let b := rs2DataOut s
  let shift := (b.extractLsb' 0 5).toNat
  if funct3 s.ir = 0b000 then some (if s.ir.getLsbD 30 then a - b else a + b)
  else if funct3 s.ir = 0b001 then some (a <<< shift)
  else if funct3 s.ir = 0b010 then some (if a.slt b then 1 else 0)
  else if funct3 s.ir = 0b011 then some (if a.ult b then 1 else 0)
  else if funct3 s.ir = 0b100 then some (a ^^^ b)
  else if funct3 s.ir = 0b101 then
    some (if s.ir.getLsbD 30 then a.sshiftRight shift else a >>> shift)
  else if funct3 s.ir = 0b110 then some (a ||| b)
  else if funct3 s.ir = 0b111 then some (a &&& b)
  else none

/-- `ramio_write_type` of the stores. -/
def storeType (funct3 : BitVec 3) : Option (BitVec 2) :=
  if funct3 = 0b000 then some 0b01
  else if funct3 = 0b001 then some 0b10
  else if funct3 = 0b010 then some 0b11
  else none

/-- `ramio_read_type` of the loads. -/
def loadType (funct3 : BitVec 3) : Option (BitVec 3) :=
  if funct3 = 0b000 then some 0b101
  else if funct3 = 0b001 then some 0b110
  else if funct3 = 0b010 then some 0b111
  else if funct3 = 0b100 then some 0b001
  else if funct3 = 0b101 then some 0b010
  else none

/-- Whether a branch is taken. -/
def branchTaken (s : Regs) : Option Bool :=
  let a := rs1DataOut s
  let b := rs2DataOut s
  if funct3 s.ir = 0b000 then some (a == b)
  else if funct3 s.ir = 0b001 then some (a != b)
  else if funct3 s.ir = 0b100 then some (a.slt b)
  else if funct3 s.ir = 0b101 then some (!a.slt b)
  else if funct3 s.ir = 0b110 then some (a.ult b)
  else if funct3 s.ir = 0b111 then some (!a.ult b)
  else none

/-- A default branch of the decoder. -/
def error (s : Regs) : Regs := { s with led := false }

/-- Writes `rd` in the next cycle; without a value the decoder is in error. -/
def writeBack (value : Option Word) (s : Regs) : Regs :=
  match value with
  | some v => { s with rdDataIn := v, rdWriteEnable := true }
  | none => error { s with rdWriteEnable := true }

def cpuExecute (s : Regs) : Regs :=
  -- by default the next instruction is fetched
  let s' := { s with
    ramioEnable := true
    ramioReadType := 0b111
    ramioWriteType := 0
    ramioAddress := s.pc + 4
    pc := s.pc + 4
    state := .cpuFetch }
  if opcode s.ir = 0b01101 then writeBack (some (uImm20 s.ir)) s'
  else if opcode s.ir = 0b00100 then writeBack (logicalImmediate s) s'
  else if opcode s.ir = 0b01100 then writeBack (logical s) s'
  else if opcode s.ir = 0b01000 then
    let t := { s' with
      ramioReadType := 0
      ramioAddress := rs1DataOut s + sImm12 s.ir
      ramioDataIn := rs2DataOut s
      state := .cpuStore }
    match storeType (funct3 s.ir) with
    | some w => { t with ramioWriteType := w }
    | none => error t
  else if opcode s.ir = 0b00000 then
    let t := { s' with
      ramioWriteType := 0
      ramioAddress := rs1DataOut s + iImm12 s.ir
      state := .cpuLoad }
    match loadType (funct3 s.ir) with
    | some r => { t with ramioReadType := r }
    | none => error t
  else if opcode s.ir = 0b00101 then writeBack (some (s.pc + uImm20 s.ir)) s'
  else if opcode s.ir = 0b11011 then
    writeBack (some (s.pc + 4))
      { s' with ramioAddress := s.pc + jImm20 s.ir, pc := s.pc + jImm20 s.ir }
  else if opcode s.ir = 0b11001 then
    writeBack (some (s.pc + 4))
      { s' with
        ramioAddress := rs1DataOut s + iImm12 s.ir
        pc := rs1DataOut s + iImm12 s.ir }
  else if opcode s.ir = 0b11000 then
    match branchTaken s with
    | some true => { s' with ramioAddress := s.pc + bImm12 s.ir, pc := s.pc + bImm12 s.ir }
    | some false => s'
    | none => error s'
  else if opcode s.ir = 0b00011 then s'
  else error s'

def cpuStore (i : Input) (s : Regs) : Regs :=
  if i.ramioBusy then s
  else
    { s with
      ramioReadType := 0b111
      ramioWriteType := 0
      ramioAddress := s.pc
      state := .cpuFetch }

def cpuLoad (i : Input) (s : Regs) : Regs :=
  if i.ramioDataOutReady then
    { s with
      rdWriteEnable := true
      rdDataIn := i.ramioDataOut
      ramioReadType := 0b111
      ramioWriteType := 0
      ramioAddress := s.pc
      state := .cpuFetch }
  else s

/-- The branch of the clocked block taken while `rst_n` is low. -/
def reset (s : Regs) : Regs :=
  { s with
    ramioEnable := false
    ramioReadType := 0
    ramioWriteType := 0
    ramioAddress := 0
    ramioAddressNext := 0
    ramioDataIn := 0
    flashCounter := 0
    flashClk := false
    flashMosi := false
    flashCsN := true
    pc := 0
    led := true
    state := .bootInit }

def fsm (i : Input) (s : Regs) : Regs :=
  match s.state with
  | .bootInit => bootInit p s
  | .bootLoadCommandToSend => bootLoadCommandToSend s
  | .bootSend => bootSend s
  | .bootLoadAddressToSend => bootLoadAddressToSend p s
  | .bootReadData => bootReadData i s
  | .bootStartWrite => bootStartWrite i s
  | .bootWrite => bootWrite p i s
  | .cpuFetch => cpuFetch i s
  | .cpuExecute => cpuExecute s
  | .cpuStore => cpuStore i s
  | .cpuLoad => cpuLoad i s

/-- One rising edge of `clk`. -/
def step (i : Input) (s : Regs) : Regs :=
  { (if i.rstN then fsm p i s else reset s) with
    data := Registers.step (rd s.ir) s.rdWriteEnable s.rdDataIn s.data }

end Fsm

end Core

end TangNano
