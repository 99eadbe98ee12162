import TangNano.Library.Clocked
import TangNano.Ramio.Model

/-!
# The UART

Modules `uarttx` and `uartrx` and the handshakes of `ramio` with them.
-/

namespace TangNano.Uart

/-- `state_e` of both modules -/
inductive Phase
  | idle
  | startBit
  | dataBits
  | stopBit
  | waitForGoLow
deriving DecidableEq, Repr

/-- The width of a counter of clock cycles. -/
def counterWidth (bitTime : ℕ) : ℕ := if bitTime = 1 then 1 else Nat.clog 2 bitTime

/-! ## Transmitter -/

structure Uarttx (bitTime : ℕ) where
  state : Phase
  bitCount : BitVec 3
  bitTimeCounter : BitVec (counterWidth bitTime)
deriving DecidableEq, Repr

namespace Uarttx

variable {bitTime : ℕ}

def tx (data : Byte) (go : Bool) (s : Uarttx bitTime) : Bool :=
  match s.state with
  | .idle => !go
  | .startBit => false
  | .dataBits => data.getLsbD s.bitCount.toNat
  | .stopBit => true
  | .waitForGoLow => true

def busy (go : Bool) (s : Uarttx bitTime) : Bool :=
  match s.state with
  | .idle => go
  | .startBit => true
  | .dataBits => true
  | .stopBit => true
  | .waitForGoLow => false

def step (rstN go : Bool) (s : Uarttx bitTime) : Uarttx bitTime :=
  if rstN then
    match s.state with
    | .idle =>
        if go then
          -- the start bit is sent from this cycle on
          if bitTime = 1 then ⟨.dataBits, 0, BitVec.ofNat _ (bitTime - 1)⟩
          else { s with state := .startBit, bitTimeCounter := BitVec.ofNat _ (bitTime - 2) }
        else s
    | .startBit =>
        if s.bitTimeCounter = 0 then ⟨.dataBits, 0, BitVec.ofNat _ (bitTime - 1)⟩
        else { s with bitTimeCounter := s.bitTimeCounter - 1 }
    | .dataBits =>
        if s.bitTimeCounter = 0 then
          { state := if s.bitCount = 7 then .stopBit else .dataBits
            bitCount := s.bitCount + 1
            bitTimeCounter := BitVec.ofNat _ (bitTime - 1) }
        else { s with bitTimeCounter := s.bitTimeCounter - 1 }
    | .stopBit =>
        { s with
          state := if s.bitTimeCounter = 0 then .waitForGoLow else .stopBit
          bitTimeCounter := s.bitTimeCounter - 1 }
    | .waitForGoLow => if go then s else { s with state := .idle }
  else { s with state := .idle }

end Uarttx

/-! ## Receiver -/

structure Uartrx (bitTime : ℕ) where
  state : Phase
  data : Byte
  dataReady : Bool
  bitCount : BitVec 4
  bitCounter : BitVec (counterWidth bitTime)
deriving DecidableEq, Repr

/-- An assignment to one bit; there is none past the end. -/
def setBit (data : Byte) (i : ℕ) (b : Bool) : Byte :=
  if b then data ||| BitVec.twoPow 8 i else data &&& ~~~BitVec.twoPow 8 i

theorem getLsbD_setBit (data : Byte) {i : ℕ} (hi : i < 8) (b : Bool) (k : ℕ) :
    (setBit data i b).getLsbD k = if k = i then b else data.getLsbD k := by
  unfold setBit
  by_cases hk : k = i
  · subst hk
    cases b <;> simp [hi]
  · have hne : i ≠ k := Ne.symm hk
    cases b <;> simp [hk, hne]
    exact fun h ↦ BitVec.lt_of_getLsbD h

namespace Uartrx

variable {bitTime : ℕ}

def step (rstN rx go : Bool) (s : Uartrx bitTime) : Uartrx bitTime :=
  if rstN then
    match s.state with
    | .idle =>
        if go && !rx then
          { s with
            state := if bitTime = 1 then .dataBits else .startBit
            bitCounter := BitVec.ofNat _ (if bitTime = 1 then 0 else bitTime / 2 - 1) }
        else s
    | .startBit =>
        if s.bitCounter = 0 then
          { s with state := .dataBits, bitCount := 0, bitCounter := BitVec.ofNat _ (bitTime - 1) }
        else { s with bitCounter := s.bitCounter - 1 }
    | .dataBits =>
        if s.bitCounter = 0 then
          { s with
            state := if s.bitCount = 7 then .stopBit else .dataBits
            data := setBit s.data s.bitCount.toNat rx
            bitCount := if s.bitCount = 7 then 0 else s.bitCount + 1
            bitCounter := BitVec.ofNat _ (bitTime - 1) }
        else { s with bitCounter := s.bitCounter - 1 }
    | .stopBit =>
        -- only half of the stop bit is waited for
        { s with
          state := if s.bitCounter = 0 then .waitForGoLow else .stopBit
          dataReady := if s.bitCounter = 0 then true else s.dataReady
          bitCounter := s.bitCounter - 1 }
    | .waitForGoLow => if go then s else { s with state := .idle, dataReady := false }
  else ⟨.idle, 0, false, 0, 0⟩

end Uartrx

/-! ## Together with `ramio` -/

structure State (bitTime : ℕ) where
  ramio : Ramio.Regs
  uarttx : Uarttx bitTime
  uartrx : Uartrx bitTime

/-- One cycle: the request, what the other parts of `ramio` drive, and the line. -/
structure Input where
  request : Ramio.Request
  parts : Ramio.Parts
  uartRx : Bool

variable {bitTime : ℕ}

def parts (i : Input) (x : State bitTime) : Ramio.Parts :=
  { i.parts with
    uarttxBusy := x.uarttx.busy x.ramio.uarttxGo
    uartrxDataReady := x.uartrx.dataReady
    uartrxData := x.uartrx.data }

def step (rstN : Bool) (i : Input) (x : State bitTime) : State bitTime where
  ramio := Ramio.step rstN i.request (parts i x) x.ramio
  uarttx := x.uarttx.step rstN x.ramio.uarttxGo
  uartrx := x.uartrx.step rstN i.uartRx x.ramio.uartrxGo

def uartTx (x : State bitTime) : Bool :=
  x.uarttx.tx (x.ramio.uarttxDataSending.extractLsb' 0 8) x.ramio.uarttxGo

def dataOut (i : Input) (x : State bitTime) : Word :=
  (Ramio.wires i.request (parts i x) x.ramio).dataOut

/-- The states after a reset. -/
def run (i : Input) (x : State bitTime) (input : ℕ → Input) (n : ℕ) : State bitTime :=
  Clocked.state (step true) (step false i x) input n

/-! ## Requests -/

/-- A load from a port of the UART. -/
def Loads (address : Word) (i : Input) : Prop :=
  i.request.enable = true ∧ i.request.address = address ∧ i.request.readType ≠ 0

/-- A store to a port of the UART. -/
def Stores (address : Word) (i : Input) : Prop :=
  i.request.address = address ∧ i.request.writeType ≠ 0

instance (address : Word) (i : Input) : Decidable (Loads address i) :=
  inferInstanceAs (Decidable (_ ∧ _))

instance (address : Word) (i : Input) : Decidable (Stores address i) :=
  inferInstanceAs (Decidable (_ ∧ _))

theorem dataOut_uartOut {i : Input} (x : State bitTime) (h : Loads Ramio.addressUartOut i) :
    dataOut i x = x.ramio.uarttxDataSending := by
  obtain ⟨henable, haddress, hread⟩ := h
  rw [dataOut, Ramio.wires, if_pos henable]
  dsimp only
  rw [if_pos hread]
  simp [Ramio.readWires, haddress, Ramio.addressUartOut, Ramio.addressLed,
    Ramio.addressSDCardReadSector, Ramio.addressSDCardWriteSector]

theorem dataOut_uartIn {i : Input} (x : State bitTime) (h : Loads Ramio.addressUartIn i) :
    dataOut i x = x.ramio.uartrxDataReceived := by
  obtain ⟨henable, haddress, hread⟩ := h
  rw [dataOut, Ramio.wires, if_pos henable]
  dsimp only
  rw [if_pos hread]
  simp [Ramio.readWires, haddress, Ramio.addressUartIn, Ramio.addressUartOut,
    Ramio.addressLed, Ramio.addressSDCardReadSector, Ramio.addressSDCardWriteSector]

theorem byte_ne_allOnes (b : Byte) : 0#24 ++ b ≠ BitVec.allOnes 32 := by
  intro h
  have hlast : (0#24 ++ b).getLsbD 31 = (BitVec.allOnes 32).getLsbD 31 := by rw [h]
  rw [BitVec.getLsbD_append] at hlast
  simp at hlast

def cycle (request : Ramio.Request) (uartRx : Bool) : Input :=
  ⟨request, ⟨0, true, false, 0, false, 0, false, false, 0⟩, uartRx⟩

/-- Some state before the reset. -/
def unknown (bitTime : ℕ) : State bitTime :=
  ⟨⟨0, 0, true, 0, false⟩, ⟨.stopBit, 0, 0⟩, ⟨.stopBit, 0, true, 0, 0⟩⟩

/-! ## Counters of clock cycles -/

/-- What fits in a bit time fits in the counter. -/
theorem lt_counterWidth {k : ℕ} (hk : k < bitTime) : k < 2 ^ counterWidth bitTime := by
  unfold counterWidth
  split
  · omega
  · exact hk.trans_le (Nat.le_pow_clog Nat.one_lt_two bitTime)

theorem counter_eq_zero {k : ℕ} (hk : k < bitTime) :
    BitVec.ofNat (counterWidth bitTime) k = 0#_ ↔ k = 0 := by
  rw [← BitVec.toNat_inj, BitVec.toNat_ofNat, Nat.mod_eq_of_lt (lt_counterWidth hk)]
  rfl

theorem counter_succ_sub {k : ℕ} :
    BitVec.ofNat (counterWidth bitTime) (k + 1) - 1#_ = BitVec.ofNat (counterWidth bitTime) k := by
  rw [← BitVec.ofNat_add_ofNat]
  exact BitVec.add_sub_cancel _ _

section Counters

variable {m j : ℕ} {c : BitVec (counterWidth bitTime)}

/-- A counter that runs for `m` cycles goes on. -/
theorem counter_next (hm : m ≤ bitTime) (hj : j + 1 < m) (hc : c = BitVec.ofNat _ (m - 1 - j)) :
    c ≠ 0#_ ∧ c - 1#_ = BitVec.ofNat _ (m - 1 - (j + 1)) := by
  have hsucc : m - 1 - j = m - 1 - (j + 1) + 1 := by omega
  subst hc
  refine ⟨fun h ↦ ?_, ?_⟩
  · rw [counter_eq_zero (by omega)] at h
    omega
  · rw [hsucc, counter_succ_sub]

/-- In the last cycle it has come to its end. -/
theorem counter_last (hm : m ≤ bitTime) (hj : j + 1 = m) (hc : c = BitVec.ofNat _ (m - 1 - j)) :
    c = 0#_ := by
  rw [hc, counter_eq_zero (by omega)]
  omega

end Counters

end TangNano.Uart
