import TangNano.SdCard.Controller

/-!
# The SD card behind its ports

Module `sdcard`: a buffer of one sector with a wrapping index, filled from and
written to the card by `sd_controller`.
-/

namespace TangNano.SdCardPort

/-- The 512 bytes of a sector or of the buffer. -/
abbrev Sector := BitVec 9 → Byte

structure Params where
  clockDivider : ℕ
  sectorToSDCardAddressShiftLeft : ℕ

inductive StateE
  | init | idle | preReadSector | readSector | preWriteSector | writeSector
deriving DecidableEq, Repr

/-- What the client drives. -/
structure Input where
  rstN : Bool
  command : BitVec 3
  sector : Word
  dataIn : Byte

structure Regs where
  buffer : Sector
  bufferIndex : BitVec 9
  rd : Bool
  wr : Bool
  din : Byte
  address : Word
  waitingReadyForNextByte : Bool
  state : StateE
  counter : ℕ

def dataOut (s : Regs) : Byte := s.buffer s.bufferIndex

def busy (s : Regs) : Bool := s.state != .idle

def clkPulseSlow (s : Regs) : Bool := s.counter == 0

/-- `data_in` goes to the index and the index advances. -/
def store (data : Byte) (s : Regs) : Regs :=
  { s with
    buffer := Function.update s.buffer s.bufferIndex data
    bufferIndex := s.bufferIndex + 1 }

def idle (p : Params) (i : Input) (s : Regs) : Regs :=
  if i.command = 1 then
    { s with
      rd := true
      address := i.sector <<< p.sectorToSDCardAddressShiftLeft
      state := .preReadSector }
  else if i.command = 2 then { s with bufferIndex := s.bufferIndex + 1 }
  else if i.command = 3 then store i.dataIn s
  else if i.command = 4 then
    { s with
      wr := true
      waitingReadyForNextByte := true
      address := i.sector <<< p.sectorToSDCardAddressShiftLeft
      state := .preWriteSector }
  else s

def readSector (c : SdController.Regs) (s : Regs) : Regs :=
  let s' := if c.byteAvailable then store c.dout s else s
  if SdController.ready c then { s' with state := .idle } else s'

def writeSector (c : SdController.Regs) (s : Regs) : Regs :=
  let s' :=
    if c.readyForNextByte && s.waitingReadyForNextByte then
      { s with
        din := s.buffer s.bufferIndex
        bufferIndex := s.bufferIndex + 1
        waitingReadyForNextByte := false }
    else if !c.readyForNextByte && !s.waitingReadyForNextByte then
      { s with waitingReadyForNextByte := true }
    else s
  if SdController.ready c then { s' with state := .idle } else s'

def fsm (p : Params) (i : Input) (c : SdController.Regs) (s : Regs) : Regs :=
  match s.state with
  | .init => if SdController.ready c then { s with state := .idle } else s
  | .idle => idle p i s
  | .preReadSector => { s with rd := false, state := .readSector }
  | .readSector => readSector c s
  | .preWriteSector => { s with wr := false, state := .writeSector }
  | .writeSector => writeSector c s

/-- One rising edge of `clk`; `c` are the registers of `sd_controller`. -/
def step (p : Params) (i : Input) (c : SdController.Regs) (s : Regs) : Regs :=
  if i.rstN then
    { fsm p i c s with
      counter :=
        if p.clockDivider ≠ 0 then (s.counter + 1) % 2 ^ p.clockDivider else s.counter }
  else
    { s with
      rd := false
      wr := false
      din := 0
      bufferIndex := 0
      state := .init
      counter := 0 }

/-- What `sd_controller` is given besides the wire from the card. -/
def controllerInput (i : Input) (s : Regs) (miso : Bool) : SdController.Input where
  reset := !i.rstN
  clkPulseSlow := clkPulseSlow s
  rd := s.rd
  wr := s.wr
  din := s.din
  address := s.address
  miso := miso

end TangNano.SdCardPort
