import TangNano.Library.Bytes

/-!
# The controller of the SD card

Module `sd_controller`: the card in SPI mode, with commands that read and write
one block.
-/

namespace TangNano.SdController

inductive StateE
  | rst | init | cmd0 | cmd8 | cmd55 | cmd41 | pollCmd
  | idle | readBlock | readBlockWait | readBlockData | readBlockCrc
  | sendCmd | receiveByteWait | receiveByte
  | writeBlockCmd | writeBlockInit | writeBlockData | writeBlockByte | writeBlockWait
deriving DecidableEq, Repr

/-- The parameters that number the states. -/
def StateE.code : StateE → BitVec 5
  | .rst => 0
  | .init => 1
  | .cmd0 => 2
  | .cmd55 => 3
  | .cmd41 => 4
  | .pollCmd => 5
  | .idle => 6
  | .readBlock => 7
  | .readBlockWait => 8
  | .readBlockData => 9
  | .readBlockCrc => 10
  | .sendCmd => 11
  | .receiveByteWait => 12
  | .receiveByte => 13
  | .writeBlockCmd => 14
  | .writeBlockInit => 15
  | .writeBlockData => 16
  | .writeBlockByte => 17
  | .writeBlockWait => 18
  | .cmd8 => 20

/-- Token, data and two bytes of CRC. -/
def writeDataSize : BitVec 10 := 515

structure Input where
  reset : Bool
  clkPulseSlow : Bool
  rd : Bool
  wr : Bool
  din : Byte
  address : Word
  miso : Bool

structure Regs where
  state : StateE
  returnState : StateE
  sclkSig : Bool
  cmdOut : BitVec 56
  cmdMode : Bool
  dataSig : Byte
  responseType : BitVec 3
  byteCounter : BitVec 10
  bitCounter : BitVec 10
  bootCounter : BitVec 27
  resetCounter : Byte
  cs : Bool
  dout : Byte
  byteAvailable : Bool
  readyForNextByte : Bool
  recvData : Byte

/-! ## Wires -/

def mosi (s : Regs) : Bool := if s.cmdMode then s.cmdOut.getLsbD 55 else s.dataSig.getLsbD 7

def ready (s : Regs) : Bool := s.state == .idle

def status (s : Regs) : BitVec 5 := s.state.code

/-! ## States -/

def toggle (s : Regs) : Regs := { s with sclkSig := !s.sclkSig }

def rst (s : Regs) : Regs :=
  if s.bootCounter = 0 then
    { s with
      sclkSig := false
      cmdOut := BitVec.allOnes 56
      byteCounter := 0
      byteAvailable := false
      readyForNextByte := false
      cmdMode := true
      bitCounter := 160
      cs := true
      state := .init }
  else
    { s with
      bootCounter := s.bootCounter - 1
      sclkSig := if s.bootCounter.getLsbD 2 then !s.sclkSig else s.sclkSig }

def init (s : Regs) : Regs :=
  if s.bitCounter = 0 then { s with cs := false, state := .cmd0 }
  else { toggle s with bitCounter := s.bitCounter - 1 }

/-- A command of 56 bits, the first eight of which are ones, and its response. -/
def command (cmdOut : BitVec 56) (responseType : BitVec 3) (returnState : StateE) (s : Regs) :
    Regs :=
  { s with
    cmdOut := cmdOut
    bitCounter := 55
    responseType := responseType
    returnState := returnState
    state := .sendCmd }

def cmd0 (s : Regs) : Regs := command 0xff400000000095 0b001 .cmd8 s

def cmd8 (s : Regs) : Regs := command 0xff48000001aa87 0b111 .cmd55 s

def cmd55 (s : Regs) : Regs := command 0xff770000000001 0b001 .cmd41 s

def cmd41 (s : Regs) : Regs := command 0xff694000000001 0b001 .pollCmd s

def pollCmd (s : Regs) : Regs :=
  if s.recvData.getLsbD 0 = false then { s with state := .idle } else { s with state := .cmd55 }

def idle (i : Input) (s : Regs) : Regs :=
  if i.rd then { s with state := .readBlock }
  else if i.wr then { s with state := .writeBlockCmd }
  else s

def readBlock (i : Input) (s : Regs) : Regs :=
  command (0xff51#16 ++ i.address ++ 0xff#8) 0b001 .readBlockWait s

def readBlockWait (i : Input) (s : Regs) : Regs :=
  if s.sclkSig && !i.miso then
    { toggle s with
      byteCounter := 511
      bitCounter := 7
      returnState := .readBlockData
      state := .receiveByte }
  else toggle s

def readBlockData (s : Regs) : Regs :=
  let s' := { s with
    dout := s.recvData
    byteAvailable := true
    bitCounter := 7
    state := .receiveByte }
  if s.byteCounter = 0 then { s' with returnState := .readBlockCrc }
  else { s' with byteCounter := s.byteCounter - 1, returnState := .readBlockData }

def readBlockCrc (s : Regs) : Regs :=
  { s with bitCounter := 7, returnState := .idle, state := .receiveByte }

def sendCmd (s : Regs) : Regs :=
  if s.sclkSig then
    if s.bitCounter = 0 then { toggle s with state := .receiveByteWait }
    else
      { toggle s with
        bitCounter := s.bitCounter - 1
        cmdOut := s.cmdOut.extractLsb' 0 55 ++ BitVec.ofBool true }
  else toggle s

def receiveByteWait (i : Input) (s : Regs) : Regs :=
  if s.sclkSig && !i.miso then
    { toggle s with
      recvData := 0
      bitCounter := if s.responseType = 0b111 then 38 else 6
      state := .receiveByte }
  else toggle s

def receiveByte (i : Input) (s : Regs) : Regs :=
  let s' := { toggle s with byteAvailable := false }
  if s.sclkSig then
    let s'' := { s' with recvData := s.recvData.extractLsb' 0 7 ++ BitVec.ofBool i.miso }
    if s.bitCounter = 0 then { s'' with state := s.returnState }
    else { s'' with bitCounter := s.bitCounter - 1 }
  else s'

def writeBlockCmd (i : Input) (s : Regs) : Regs :=
  { command (0xff58#16 ++ i.address ++ 0xff#8) 0b001 .writeBlockInit s with
    readyForNextByte := true }

def writeBlockInit (s : Regs) : Regs :=
  { s with
    cmdMode := false
    byteCounter := writeDataSize
    state := .writeBlockData
    readyForNextByte := false }

def writeBlockData (i : Input) (s : Regs) : Regs :=
  if s.byteCounter = 0 then { s with state := .receiveByteWait, returnState := .writeBlockWait }
  else
    let s' := { s with
      bitCounter := 7
      state := .writeBlockByte
      byteCounter := s.byteCounter - 1 }
    if s.byteCounter = 2 ∨ s.byteCounter = 1 then { s' with dataSig := 0xff }
    else if s.byteCounter = writeDataSize then { s' with dataSig := 0xfe }
    else { s' with dataSig := i.din, readyForNextByte := true }

def writeBlockByte (s : Regs) : Regs :=
  if s.sclkSig then
    if s.bitCounter = 0 then { toggle s with state := .writeBlockData, readyForNextByte := false }
    else
      { toggle s with
        dataSig := s.dataSig.extractLsb' 0 7 ++ BitVec.ofBool true
        bitCounter := s.bitCounter - 1 }
  else toggle s

def writeBlockWait (i : Input) (s : Regs) : Regs :=
  if s.sclkSig && i.miso then { toggle s with state := .idle, cmdMode := true } else toggle s

/-- The branch of the clocked block taken while `reset` is high. -/
def reset (i : Input) (s : Regs) : Regs :=
  { s with
    state := .rst
    bootCounter := 5000
    cmdMode := true
    cs := true
    cmdOut := BitVec.allOnes 56
    dataSig := 0xff
    resetCounter := if i.clkPulseSlow then s.resetCounter + 1 else s.resetCounter
    sclkSig := if i.clkPulseSlow && s.resetCounter.getLsbD 2 then !s.sclkSig else false }

def fsm (i : Input) (s : Regs) : Regs :=
  match s.state with
  | .rst => rst s
  | .init => init s
  | .cmd0 => cmd0 s
  | .cmd8 => cmd8 s
  | .cmd55 => cmd55 s
  | .cmd41 => cmd41 s
  | .pollCmd => pollCmd s
  | .idle => idle i s
  | .readBlock => readBlock i s
  | .readBlockWait => readBlockWait i s
  | .readBlockData => readBlockData s
  | .readBlockCrc => readBlockCrc s
  | .sendCmd => sendCmd s
  | .receiveByteWait => receiveByteWait i s
  | .receiveByte => receiveByte i s
  | .writeBlockCmd => writeBlockCmd i s
  | .writeBlockInit => writeBlockInit s
  | .writeBlockData => writeBlockData i s
  | .writeBlockByte => writeBlockByte s
  | .writeBlockWait => writeBlockWait i s

/-- One rising edge of `clk`. -/
def step (i : Input) (s : Regs) : Regs :=
  if i.reset then reset i s
  else if i.clkPulseSlow then fsm i s
  else s

end TangNano.SdController
