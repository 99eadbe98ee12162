import TangNano.Library.Bytes

/-!
# The interface to RAM, UART, LEDs and SD card

Module `ramio`: the combinational decoder of a request and the registers of
the UART and the LEDs.  What `cache`, `uarttx`, `uartrx` and `sdcard` drive is
an input.
-/

namespace TangNano.Ramio

open Bytes

def addressLed : Word := 0xfffffffc

def addressUartOut : Word := 0xfffffff8

def addressUartIn : Word := 0xfffffff4

def addressSDCardBusy : Word := 0xfffffff0

def addressSDCardReadSector : Word := 0xffffffec

def addressSDCardNextByte : Word := 0xffffffe8

def addressSDCardStatus : Word := 0xffffffe4

def addressSDCardWriteSector : Word := 0xffffffe0

/-- What the client drives. -/
structure Request where
  enable : Bool
  readType : BitVec 3
  writeType : BitVec 2
  address : Word
  dataIn : Word
deriving DecidableEq, Repr

/-- What the parts inside `ramio` drive. -/
structure Parts where
  cacheDataOut : Word
  cacheDataOutReady : Bool
  cacheBusy : Bool
  sdcardDataOut : Byte
  sdcardBusy : Bool
  sdcardStatus : Word
  uarttxBusy : Bool
  uartrxDataReady : Bool
  uartrxData : Byte

structure Regs where
  led : BitVec 4
  uarttxDataSending : Word
  uarttxGo : Bool
  uartrxDataReceived : Word
  uartrxGo : Bool
deriving DecidableEq, Repr

/-- The wires that `always_comb` drives. -/
structure Wires where
  cacheEnable : Bool
  cacheAddress : Word
  cacheDataIn : Word
  cacheWriteEnable : BitVec 4
  sdcardCommand : BitVec 3
  sdcardSector : Word
  sdcardDataIn : Byte
  dataOut : Word

def isPort (address : Word) : Bool :=
  address == addressUartOut || address == addressUartIn || address == addressLed ||
    address == addressSDCardBusy || address == addressSDCardReadSector ||
    address == addressSDCardWriteSector || address == addressSDCardNextByte ||
    address == addressSDCardStatus

def busy (r : Request) (q : Parts) : Bool := if isPort r.address then false else q.cacheBusy

def dataOutReady (r : Request) (q : Parts) : Bool :=
  if isPort r.address then true else q.cacheDataOutReady

/-- The byte lane of an address. -/
def lane (address : Word) : BitVec 2 := address.extractLsb' 0 2

/-- `cache_write_enable` of a store to RAM. -/
def storeMask (writeType : BitVec 2) (address : Word) : BitVec 4 :=
  if writeType = 0b01 then
    if lane address = 0b00 then 0b0001
    else if lane address = 0b01 then 0b0010
    else if lane address = 0b10 then 0b0100
    else 0b1000
  else if writeType = 0b10 then
    if lane address = 0b00 then 0b0011
    else if lane address = 0b10 then 0b1100
    else 0
  else if writeType = 0b11 then 0b1111
  else 0

/-- A word that is 0 but for the bits of `v` from bit `k` on. -/
def placed {n : ℕ} (v : BitVec n) (k : ℕ) : Word := v.setWidth 32 <<< k

/-- `cache_data_in` of a store to RAM. -/
def storeData (writeType : BitVec 2) (address dataIn : Word) : Word :=
  if writeType = 0b01 then
    if lane address = 0b00 then placed (dataIn.extractLsb' 0 8) 0
    else if lane address = 0b01 then placed (dataIn.extractLsb' 0 8) 8
    else if lane address = 0b10 then placed (dataIn.extractLsb' 0 8) 16
    else placed (dataIn.extractLsb' 0 8) 24
  else if writeType = 0b10 then
    if lane address = 0b00 then placed (dataIn.extractLsb' 0 16) 0
    else if lane address = 0b10 then placed (dataIn.extractLsb' 0 16) 16
    else 0
  else if writeType = 0b11 then dataIn
  else 0

/-- A byte or half word extended with its sign or with zeros. -/
def extended {n : ℕ} (isSigned : Bool) (v : BitVec n) : Word :=
  if isSigned then v.signExtend 32 else v.setWidth 32

/-- `data_out` of a load from RAM. -/
def loadData (readType : BitVec 3) (address cacheDataOut : Word) : Word :=
  let isSigned := readType.getLsbD 2
  if readType.extractLsb' 0 2 = 0b01 then
    if lane address = 0b00 then extended isSigned (cacheDataOut.extractLsb' 0 8)
    else if lane address = 0b01 then extended isSigned (cacheDataOut.extractLsb' 8 8)
    else if lane address = 0b10 then extended isSigned (cacheDataOut.extractLsb' 16 8)
    else extended isSigned (cacheDataOut.extractLsb' 24 8)
  else if readType.extractLsb' 0 2 = 0b10 then
    if lane address = 0b00 then extended isSigned (cacheDataOut.extractLsb' 0 16)
    else if lane address = 0b10 then extended isSigned (cacheDataOut.extractLsb' 16 16)
    else 0
  else if readType = 0b111 then cacheDataOut
  else 0

/-- The wires while there is no request. -/
def idleWires (address : Word) : Wires where
  cacheEnable := false
  cacheAddress := address.extractLsb' 2 30 ++ 0#2
  cacheDataIn := 0
  cacheWriteEnable := 0
  sdcardCommand := 0
  sdcardSector := 0
  sdcardDataIn := 0
  dataOut := 0

def writeWires (r : Request) (w : Wires) : Wires :=
  if r.address = addressUartOut then w
  else if r.address = addressUartIn then w
  else if r.address = addressLed then w
  else if r.address = addressSDCardBusy then w
  else if r.address = addressSDCardStatus then w
  else if r.address = addressSDCardNextByte then
    { w with sdcardCommand := 3, sdcardDataIn := r.dataIn.extractLsb' 0 8 }
  else if r.address = addressSDCardReadSector then
    { w with sdcardCommand := 1, sdcardSector := r.dataIn }
  else if r.address = addressSDCardWriteSector then
    { w with sdcardCommand := 4, sdcardSector := r.dataIn }
  else
    { w with
      cacheEnable := true
      cacheWriteEnable := storeMask r.writeType r.address
      cacheDataIn := storeData r.writeType r.address r.dataIn }

def readWires (r : Request) (q : Parts) (s : Regs) (w : Wires) : Wires :=
  if r.address = addressLed then w
  else if r.address = addressSDCardReadSector then w
  else if r.address = addressSDCardWriteSector then w
  else if r.address = addressUartOut then { w with dataOut := s.uarttxDataSending }
  else if r.address = addressUartIn then { w with dataOut := s.uartrxDataReceived }
  else if r.address = addressSDCardBusy then
    { w with dataOut := if q.sdcardBusy then 1 else 0 }
  else if r.address = addressSDCardStatus then { w with dataOut := q.sdcardStatus }
  else if r.address = addressSDCardNextByte then
    { w with sdcardCommand := 2, dataOut := q.sdcardDataOut.setWidth 32 }
  else
    { w with cacheEnable := true, dataOut := loadData r.readType r.address q.cacheDataOut }

/-- `always_comb` -/
def wires (r : Request) (q : Parts) (s : Regs) : Wires :=
  let idle := idleWires r.address
  if r.enable then
    let written := if r.writeType ≠ 0 then writeWires r idle else idle
    if r.readType ≠ 0 then readWires r q s written else written
  else idle

/-- `led`, the UART registers and what they change to at a rising edge.  Of two
assignments to one register the later one counts. -/
def step (rstN : Bool) (r : Request) (q : Parts) (s : Regs) : Regs :=
  if rstN then
    let received := s.uartrxGo && q.uartrxDataReady
    let sent := s.uarttxGo && !q.uarttxBusy
    let writesUart := r.address == addressUartOut && r.writeType != 0
    { led :=
        if r.address == addressLed && r.writeType != 0 then r.dataIn.extractLsb' 0 4 else s.led
      uarttxDataSending :=
        if writesUart then 0#24 ++ r.dataIn.extractLsb' 0 8
        else if sent then BitVec.allOnes 32
        else s.uarttxDataSending
      uarttxGo := if writesUart then true else if sent then false else s.uarttxGo
      uartrxDataReceived :=
        if received then 0#24 ++ q.uartrxData
        else if r.address == addressUartIn && r.readType != 0 then BitVec.allOnes 32
        else s.uartrxDataReceived
      uartrxGo :=
        if s.uartrxGo then
          if received then false else s.uartrxGo
        else true }
  else
    { led := 0b1111
      uarttxDataSending := BitVec.allOnes 32
      uarttxGo := false
      uartrxDataReceived := BitVec.allOnes 32
      uartrxGo := true }

end TangNano.Ramio
