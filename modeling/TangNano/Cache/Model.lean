import Mathlib.Data.Nat.Log
import TangNano.Library.Bytes

/-!
# The SDRAM cache

The modules `bram` and `cache`, register by register.  `step` is one rising
clock edge: the two memories are written according to the combinational block
and the state machine assigns its registers, both from the values before the
edge.
-/

namespace TangNano

/-- A byte enabled memory of module `bram`, read combinationally. -/
abbrev Bram := ℕ → Word

namespace Bram

open Bytes

def step (writeEnable : BitVec 4) (address : ℕ) (dataIn : Word) (data : Bram) : Bram :=
  Function.update data address (mergeBytes writeEnable (data address) dataIn)

@[simp] theorem step_zero (a : ℕ) (d : Word) (data : Bram) : step 0#4 a d data = data := by
  simp [step]

@[simp] theorem step_allOnes (a : ℕ) (d : Word) (data : Bram) :
    step 15#4 a d data = Function.update data a d := by
  simp [step]

theorem step_of_ne (we : BitVec 4) {a b : ℕ} (d : Word) (data : Bram) (h : b ≠ a) :
    step we a d data b = data b :=
  Function.update_of_ne h _ _

end Bram

namespace Cache

/-- The parameters of `cache`, with what elaboration needs: nonempty address
fields, a line inside one SDRAM row, and an address that fits `I_sdrc_addr`. -/
structure Params where
  columnIndexBitwidth : ℕ
  lineIndexBitwidth : ℕ
  ramAddressBitwidth : ℕ
  ramAddressingMode : ℕ
  waitsPriorToDataAtRead : ℕ
  autoRefreshPeriodCycles : ℕ
  column_pos : 1 ≤ columnIndexBitwidth
  column_le : columnIndexBitwidth ≤ 8
  line_pos : 1 ≤ lineIndexBitwidth
  ram_le : ramAddressBitwidth ≤ 21
  mode_le : ramAddressingMode ≤ columnIndexBitwidth + 2
  tag_pos : lineIndexBitwidth + columnIndexBitwidth + 2 < ramAddressBitwidth + ramAddressingMode

/-- Two lines of two words over a RAM of eight words. -/
def smallParams : Params where
  columnIndexBitwidth := 1
  lineIndexBitwidth := 1
  ramAddressBitwidth := 3
  ramAddressingMode := 2
  waitsPriorToDataAtRead := 1
  autoRefreshPeriodCycles := 2
  column_pos := by decide
  column_le := by decide
  line_pos := by decide
  ram_le := by decide
  mode_le := by decide
  tag_pos := by decide

def zerosBitwidth : ℕ := 2

namespace Params

variable (p : Params)

def columnCount : ℕ := 2 ^ p.columnIndexBitwidth

def tagBitwidth : ℕ :=
  p.ramAddressBitwidth + p.ramAddressingMode - p.lineIndexBitwidth - p.columnIndexBitwidth
    - zerosBitwidth

def lineValidBit : ℕ := p.tagBitwidth

def lineDirtyBit : ℕ := p.tagBitwidth + 1

def lineToRamAddressLeftShift : ℕ :=
  p.columnIndexBitwidth + zerosBitwidth - p.ramAddressingMode

/-- Width of `refresh_cycle_counter`. -/
def refreshBitwidth : ℕ := Nat.clog 2 (p.autoRefreshPeriodCycles + 2)

def maxCounterValue : ℕ :=
  if p.columnCount > p.waitsPriorToDataAtRead + 1 then p.columnCount
  else p.waitsPriorToDataAtRead + 1

/-- Width of `counter`. -/
def counterBitwidth : ℕ := Nat.clog 2 p.maxCounterValue

end Params

/-- The states of the machine, in the order of `state_e`. -/
inductive StateE
  | idle | refresh | write1 | write2 | write3 | read1 | read2 | read3 | read4
deriving DecidableEq, Repr

structure Input where
  rstN : Bool
  enable : Bool
  address : Word
  dataIn : Word
  writeEnable : BitVec 4
  oSdrcData : Word
  oSdrcCmdAck : Bool
deriving DecidableEq, Repr

/-- The memories and registers of `cache`; `column c l` is line `l` of the
instance `gen_column[c]`. -/
structure Regs where
  tag : Bram
  column : ℕ → Bram
  burstIsReading : Bool
  burstDataIn : Word
  burstWriteEnable : ℕ → Bool
  burstTagWriteEnable : Bool
  burstIsWriting : Bool
  refreshCycleCounter : ℕ
  counter : ℕ
  state : StateE
  iSdrcCmdEn : Bool
  iSdrcCmd : BitVec 3
  iSdrcAddr : ℕ
  iSdrcData : Word
  iSdrcDataLen : ℕ

def cmdAutoRefresh : BitVec 3 := 0b001

def cmdActive : BitVec 3 := 0b011

def cmdWrite : BitVec 3 := 0b100

def cmdRead : BitVec 3 := 0b101

section Wires

variable (p : Params)

/-! ## The address split -/

def columnIx (address : Word) : ℕ :=
  address.toNat / 2 ^ zerosBitwidth % 2 ^ p.columnIndexBitwidth

def lineIx (address : Word) : ℕ :=
  address.toNat / 2 ^ (p.columnIndexBitwidth + zerosBitwidth) % 2 ^ p.lineIndexBitwidth

def addressTag (address : Word) : ℕ :=
  address.toNat / 2 ^ (p.lineIndexBitwidth + p.columnIndexBitwidth + zerosBitwidth)
    % 2 ^ p.tagBitwidth

/-- RAM address of the line that holds `address`. -/
def burstLineAddress (address : Word) : ℕ :=
  address.toNat / 2 ^ (p.columnIndexBitwidth + zerosBitwidth)
    % 2 ^ (p.tagBitwidth + p.lineIndexBitwidth) * 2 ^ p.lineToRamAddressLeftShift

/-! ## Tag, valid and dirty flag of a line -/

def lineValid (s : Regs) (l : ℕ) : Bool := (s.tag l).getLsbD p.lineValidBit

def lineDirty (s : Regs) (l : ℕ) : Bool := (s.tag l).getLsbD p.lineDirtyBit

def cachedTag (s : Regs) (l : ℕ) : ℕ := (s.tag l).toNat % 2 ^ p.tagBitwidth

/-- RAM address of the line cached at index `l`. -/
def cachedLineAddress (s : Regs) (l : ℕ) : ℕ :=
  (cachedTag p s l * 2 ^ p.lineIndexBitwidth + l) * 2 ^ p.lineToRamAddressLeftShift

def cacheLineHit (i : Input) (s : Regs) : Bool :=
  lineValid p s (lineIx p i.address) &&
    addressTag p i.address == cachedTag p s (lineIx p i.address)

def busy (i : Input) (s : Regs) : Bool := i.enable && !cacheLineHit p i s

def columnDataOut (i : Input) (s : Regs) (c : ℕ) : Word := s.column c (lineIx p i.address)

def dataOut (i : Input) (s : Regs) : Word := columnDataOut p i s (columnIx p i.address)

def dataOutReady (i : Input) (s : Regs) : Bool :=
  if i.writeEnable ≠ 0 then false else i.enable && cacheLineHit p i s

/-! ## The combinational block -/

/-- `{dirty, valid, tag}` as stored in the tag memory. -/
def tagWord (dirty : Bool) (tag : ℕ) : Word :=
  BitVec.ofNat 32
    ((if dirty then 2 ^ p.lineDirtyBit else 0) + 2 ^ p.lineValidBit + tag)

def columnWriteEnable (i : Input) (s : Regs) (c : ℕ) : BitVec 4 :=
  if s.burstIsReading then
    if s.burstWriteEnable c then 15 else 0
  else if s.burstIsWriting then 0
  else if i.writeEnable ≠ 0 then
    if cacheLineHit p i s ∧ c = columnIx p i.address then i.writeEnable else 0
  else 0

def tagWriteEnable (i : Input) (s : Regs) : Bool :=
  if s.burstIsReading then s.burstTagWriteEnable
  else if s.burstIsWriting then false
  else if i.writeEnable ≠ 0 then cacheLineHit p i s
  else false

def tagDataIn (i : Input) (s : Regs) : Word :=
  if s.burstIsReading then tagWord p false (addressTag p i.address)
  else if s.burstIsWriting then 0
  else if i.writeEnable ≠ 0 then
    if cacheLineHit p i s then tagWord p true (addressTag p i.address) else 0
  else 0

def tagNext (i : Input) (s : Regs) : Bram :=
  Bram.step (if tagWriteEnable p i s then 15 else 0) (lineIx p i.address)
    (tagDataIn p i s) s.tag

def columnNext (i : Input) (s : Regs) (c : ℕ) : Bram :=
  Bram.step (columnWriteEnable p i s c) (lineIx p i.address)
    (if s.burstIsReading then s.burstDataIn else i.dataIn) (s.column c)

end Wires

/-! ## The state machine -/

section Fsm

variable (p : Params)

def refreshCycleCounterSucc (s : Regs) : ℕ :=
  (s.refreshCycleCounter + 1) % 2 ^ p.refreshBitwidth

def counterSucc (s : Regs) : ℕ := (s.counter + 1) % 2 ^ p.counterBitwidth

def fsmIdle (i : Input) (s : Regs) : Regs :=
  let s' := { s with refreshCycleCounter := refreshCycleCounterSucc p s }
  if s.refreshCycleCounter > p.autoRefreshPeriodCycles then
    { s' with iSdrcCmdEn := true, iSdrcCmd := cmdAutoRefresh, state := .refresh }
  else if i.enable && !cacheLineHit p i s then
    if lineDirty p s (lineIx p i.address) then
      { s' with
        iSdrcCmdEn := true
        iSdrcCmd := cmdActive
        iSdrcAddr := cachedLineAddress p s (lineIx p i.address) % 2 ^ 21
        state := .write1 }
    else
      { s' with
        iSdrcCmdEn := true
        iSdrcCmd := cmdActive
        iSdrcAddr := burstLineAddress p i.address % 2 ^ 21
        burstIsReading := true
        state := .read1 }
  else s'

def fsmRefresh (i : Input) (s : Regs) : Regs :=
  if i.oSdrcCmdAck then
    { s with iSdrcCmdEn := false, refreshCycleCounter := 0, state := .idle }
  else { s with iSdrcCmdEn := false }

def fsmWrite1 (i : Input) (s : Regs) : Regs :=
  if i.oSdrcCmdAck then
    { s with
      iSdrcCmdEn := true
      iSdrcCmd := cmdWrite
      iSdrcAddr := cachedLineAddress p s (lineIx p i.address) % 2 ^ 21
      iSdrcDataLen := (p.columnCount - 1) % 2 ^ 8
      iSdrcData := columnDataOut p i s 0
      counter := 1
      state := .write2 }
  else { s with iSdrcCmdEn := false }

def fsmWrite2 (i : Input) (s : Regs) : Regs :=
  { s with
    iSdrcCmdEn := false
    iSdrcData := columnDataOut p i s s.counter
    state := if s.counter = p.columnCount - 1 then .write3 else .write2
    counter := counterSucc p s }

def fsmWrite3 (i : Input) (s : Regs) : Regs :=
  if i.oSdrcCmdAck then
    { s with
      burstIsWriting := false
      burstIsReading := true
      iSdrcCmdEn := true
      iSdrcCmd := cmdActive
      iSdrcAddr := burstLineAddress p i.address % 2 ^ 21
      state := .read1 }
  else s

def fsmRead1 (i : Input) (s : Regs) : Regs :=
  if i.oSdrcCmdAck then
    { s with
      iSdrcCmdEn := true
      iSdrcCmd := cmdRead
      iSdrcAddr := burstLineAddress p i.address % 2 ^ 21
      iSdrcDataLen := (p.columnCount - 1) % 2 ^ 8
      counter := 0
      state := .read2 }
  else { s with iSdrcCmdEn := false }

def fsmRead2 (i : Input) (s : Regs) : Regs :=
  if s.counter = p.waitsPriorToDataAtRead then
    { s with
      iSdrcCmdEn := false
      burstWriteEnable := Function.update s.burstWriteEnable 0 true
      burstDataIn := i.oSdrcData
      counter := 1
      state := .read3 }
  else { s with iSdrcCmdEn := false, counter := counterSucc p s }

def fsmRead3 (i : Input) (s : Regs) : Regs :=
  { s with
    burstWriteEnable :=
      Function.update (Function.update s.burstWriteEnable (s.counter - 1) false) s.counter true
    burstDataIn := i.oSdrcData
    burstTagWriteEnable :=
      if s.counter = p.columnCount - 1 then true else s.burstTagWriteEnable
    state := if s.counter = p.columnCount - 1 then .read4 else .read3
    counter := counterSucc p s }

def fsmRead4 (s : Regs) : Regs :=
  { s with
    burstWriteEnable := Function.update s.burstWriteEnable (p.columnCount - 1) false
    burstIsReading := false
    burstTagWriteEnable := false
    state := .idle }

/-- The branch of the clocked block taken while `rst_n` is low. -/
def reset (s : Regs) : Regs :=
  { s with
    burstTagWriteEnable := false
    burstWriteEnable := fun _ ↦ false
    burstIsReading := false
    burstIsWriting := false
    refreshCycleCounter := (p.autoRefreshPeriodCycles + 1) % 2 ^ p.refreshBitwidth
    state := .idle }

def fsm (i : Input) (s : Regs) : Regs :=
  match s.state with
  | .idle => fsmIdle p i s
  | .refresh => fsmRefresh i s
  | .write1 => fsmWrite1 p i s
  | .write2 => fsmWrite2 p i s
  | .write3 => fsmWrite3 p i s
  | .read1 => fsmRead1 p i s
  | .read2 => fsmRead2 p i s
  | .read3 => fsmRead3 p i s
  | .read4 => fsmRead4 p s

/-- One rising edge of `clk`. -/
def step (i : Input) (s : Regs) : Regs :=
  { (if i.rstN then fsm p i s else reset p s) with
    tag := tagNext p i s
    column := columnNext p i s }

end Fsm

end Cache

end TangNano
