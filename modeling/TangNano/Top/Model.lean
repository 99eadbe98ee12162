import TangNano.Cache.Sdram
import TangNano.Core.Boot
import TangNano.Ramio.System
import TangNano.SdCard.Port
import TangNano.Uart.Model

/-!
# The chip and the board

Module `top`: the core and `ramio` with the cache, the UART and the SD card in
it, all on one clock.  On the board the chip is wired to the serial flash it
boots from and to the SDRAM behind its controller; the UART line, the SD card
and the reset button are driven by the surroundings.
-/

namespace TangNano.Top

structure Params where
  core : Core.Params
  cache : Cache.Params
  sdcard : SdCardPort.Params

/-- The values of `configuration.sv` and the constants of `top`. -/
def configuration : Params where
  core := ⟨1000000, 0x00700000, 0x00100000⟩
  cache :=
    { columnIndexBitwidth := 3
      lineIndexBitwidth := 11
      ramAddressBitwidth := 21
      ramAddressingMode := 2
      waitsPriorToDataAtRead := 4
      autoRefreshPeriodCycles := 844
      column_pos := by decide
      column_le := by decide
      line_pos := by decide
      ram_le := by decide
      mode_le := by decide
      tag_pos := by decide }
  sdcard := ⟨0, 0⟩

/-- The registers of `top`; those of `ramio` itself are in `ramio`. -/
structure Chip (bitTime : ℕ) where
  core : Core.Regs
  ramio : Ramio.Regs
  cache : Cache.Regs
  uarttx : Uart.Uarttx bitTime
  uartrx : Uart.Uartrx bitTime
  sdcard : SdCardPort.Regs
  sdController : SdController.Regs

/-- What comes into the chip. -/
structure Pins where
  rst : Bool
  oSdrcInitDone : Bool
  oSdrcData : Word
  oSdrcCmdAck : Bool
  uartRx : Bool
  flashMiso : Bool
  sdMiso : Bool

def Pins.rstN (i : Pins) : Bool := !i.rst && i.oSdrcInitDone

namespace Chip

variable {bitTime : ℕ} (p : Params)

def soc (x : Chip bitTime) : Soc.State := ⟨x.core, x.ramio⟩

/-- What the parts of `ramio` other than the cache drive. -/
def devices (x : Chip bitTime) : Ramio.Parts where
  cacheDataOut := 0
  cacheDataOutReady := false
  cacheBusy := false
  sdcardDataOut := SdCardPort.dataOut x.sdcard
  sdcardBusy := SdCardPort.busy x.sdcard
  sdcardStatus := 0#27 ++ SdController.status x.sdController
  uarttxBusy := x.uarttx.busy x.ramio.uarttxGo
  uartrxDataReady := x.uartrx.dataReady
  uartrxData := x.uartrx.data

/-- The wires to the cache and the SD card, which do not depend on what the
cache answers. -/
def asked (x : Chip bitTime) : Ramio.Wires :=
  Ramio.wires (Soc.request x.core) x.devices x.ramio

def cacheInput (i : Pins) (x : Chip bitTime) : Cache.Input where
  rstN := i.rstN
  enable := x.asked.cacheEnable
  address := x.asked.cacheAddress
  dataIn := x.asked.cacheDataIn
  writeEnable := x.asked.cacheWriteEnable
  oSdrcData := i.oSdrcData
  oSdrcCmdAck := i.oSdrcCmdAck

def parts (i : Pins) (x : Chip bitTime) : Ramio.Parts :=
  { x.devices with
    cacheDataOut := Cache.dataOut p.cache (x.cacheInput i) x.cache
    cacheDataOutReady := Cache.dataOutReady p.cache (x.cacheInput i) x.cache
    cacheBusy := Cache.busy p.cache (x.cacheInput i) x.cache }

def socInput (i : Pins) (x : Chip bitTime) : Soc.Input := ⟨i.rstN, x.parts p i, i.flashMiso⟩

def coreInput (i : Pins) (x : Chip bitTime) : Core.Input := Soc.coreInput (x.socInput p i) x.soc

def sdcardInput (i : Pins) (x : Chip bitTime) : SdCardPort.Input where
  rstN := i.rstN
  command := x.asked.sdcardCommand
  sector := x.asked.sdcardSector
  dataIn := x.asked.sdcardDataIn

/-- One rising edge of `I_sdrc_clk`. -/
def step (i : Pins) (x : Chip bitTime) : Chip bitTime where
  core := Core.step p.core (x.coreInput p i) x.core
  ramio := Ramio.step i.rstN (Soc.request x.core) (x.parts p i) x.ramio
  cache := Cache.step p.cache (x.cacheInput i) x.cache
  uarttx := x.uarttx.step i.rstN x.ramio.uarttxGo
  uartrx := x.uartrx.step i.rstN i.uartRx x.ramio.uartrxGo
  sdcard := SdCardPort.step p.sdcard (x.sdcardInput i) x.sdController x.sdcard
  sdController :=
    SdController.step (SdCardPort.controllerInput (x.sdcardInput i) x.sdcard i.sdMiso)
      x.sdController

end Chip

/-! ## The board -/

structure Board (bitTime : ℕ) where
  chip : Chip bitTime
  sdram : Cache.Sdram
  flash : SpiFlash.Device

/-- What drives the board in one cycle: the reset button and the end of the
initialisation of the SDRAM, the lines from the UART and the SD card, and what
the SDRAM controller is free to do as in `Cache.Drive`. -/
structure Surroundings where
  rst : Bool
  oSdrcInitDone : Bool
  uartRx : Bool
  sdMiso : Bool
  ack : Bool
  junk : Word
  wreck : Cache.Sdram

namespace Board

variable {bitTime : ℕ} (p : Params) (memory : BitVec 24 → Byte)

def pins (e : Surroundings) (b : Board bitTime) : Pins where
  rst := e.rst
  oSdrcInitDone := e.oSdrcInitDone
  oSdrcData := b.sdram.readData p.cache.waitsPriorToDataAtRead b.chip.cache.bus e.junk
  oSdrcCmdAck := e.ack
  uartRx := e.uartRx
  flashMiso := b.flash.miso
  sdMiso := e.sdMiso

/-- One rising edge of the clock, after which the flash sees its wires. -/
def step (e : Surroundings) (b : Board bitTime) : Board bitTime :=
  let chip := b.chip.step p (b.pins p e)
  { chip := chip
    sdram :=
      if b.sdram.supported p.cache.waitsPriorToDataAtRead b.chip.cache.bus then
        b.sdram.step b.chip.cache.bus e.ack
      else e.wreck
    flash :=
      SpiFlash.observe memory chip.core.flashCsN chip.core.flashClk chip.core.flashMosi b.flash }

def run (start : Board bitTime) (env : ℕ → Surroundings) (n : ℕ) : Board bitTime :=
  Clocked.state (step p memory) start env n

def cacheInput (e : Surroundings) (b : Board bitTime) : Cache.Input :=
  b.chip.cacheInput (b.pins p e)

def system (b : Board bitTime) : Cache.System := ⟨b.chip.cache, b.sdram⟩

def loader (b : Board bitTime) : Boot.State := ⟨b.chip.core, b.flash⟩

/-- The chip is not held in reset. -/
def Running (e : Surroundings) : Prop := e.rst = false ∧ e.oSdrcInitDone = true

end Board

end TangNano.Top
