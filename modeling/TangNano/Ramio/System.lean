import TangNano.Core.Model
import TangNano.Ramio.Model

/-!
# The core in front of `ramio`

The two modules wired together as in `top`.  What the cache, the UART, the SD
card and the flash drive is an input of every cycle.
-/

namespace TangNano.Soc

structure State where
  core : Core.Regs
  ramio : Ramio.Regs

structure Input where
  rstN : Bool
  parts : Ramio.Parts
  flashMiso : Bool

def request (s : Core.Regs) : Ramio.Request where
  enable := s.ramioEnable
  readType := s.ramioReadType
  writeType := s.ramioWriteType
  address := s.ramioAddress
  dataIn := s.ramioDataIn

def wires (i : Input) (x : State) : Ramio.Wires :=
  Ramio.wires (request x.core) i.parts x.ramio

def coreInput (i : Input) (x : State) : Core.Input where
  rstN := i.rstN
  ramioDataOut := (wires i x).dataOut
  ramioDataOutReady := Ramio.dataOutReady (request x.core) i.parts
  ramioBusy := Ramio.busy (request x.core) i.parts
  flashMiso := i.flashMiso

/-- One rising edge of `clk` for both modules. -/
def step (p : Core.Params) (i : Input) (x : State) : State where
  core := Core.step p (coreInput i x) x.core
  ramio := Ramio.step i.rstN (request x.core) i.parts x.ramio

end TangNano.Soc
