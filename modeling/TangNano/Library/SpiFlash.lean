import TangNano.Library.Serial

/-!
# A serial flash

A device in SPI mode 0.  While it is selected it samples its input at rising
edges of the clock: eight bits of a command and an address of 24 bits.  After
command 3 it shifts out, at falling edges and with the most significant bit
first, the bytes from that address on; the address wraps around.
-/

namespace TangNano.SpiFlash

/-- The command that reads. -/
def readCommand : Byte := 3

structure Device where
  /-- the clock at the last look -/
  clk : Bool
  /-- how many bits of command and address have come -/
  count : ℕ
  shift : BitVec 32
  /-- how many bits have been shifted out -/
  sent : ℕ
  miso : Bool

/-- The bytes that follow a command. -/
def bytesFrom (memory : BitVec 24 → Byte) (address : BitVec 24) (i : ℕ) : Byte :=
  memory (address + BitVec.ofNat 24 i)

def rising (mosi : Bool) (d : Device) : Device :=
  if d.count < 32 then { d with count := d.count + 1, shift := d.shift.shiftConcat mosi } else d

def falling (memory : BitVec 24 → Byte) (d : Device) : Device :=
  if d.count = 32 ∧ d.shift.extractLsb' 24 8 = readCommand then
    { d with
      miso := Serial.stream (bytesFrom memory (d.shift.extractLsb' 0 24)) d.sent
      sent := d.sent + 1 }
  else d

/-- The device sees its wires. -/
def observe (memory : BitVec 24 → Byte) (csN clk mosi : Bool) (d : Device) : Device :=
  if csN then { d with clk := clk, count := 0, sent := 0 }
  else if clk = true ∧ d.clk = false then { rising mosi d with clk := clk }
  else if clk = false ∧ d.clk = true then { falling memory d with clk := clk }
  else d

section Observations

variable {memory : BitVec 24 → Byte} {mosi : Bool} {d : Device}

theorem observe_idle (clk : Bool) :
    observe memory true clk mosi d = { d with clk := clk, count := 0, sent := 0 } := rfl

theorem observe_same (h : d.clk = clk) : observe memory false clk mosi d = d := by
  cases clk <;> simp [observe, h]

/-- A bit of command or address. -/
theorem observe_rising (hclk : d.clk = false) (hcount : d.count < 32) :
    observe memory false true mosi d =
      { d with clk := true, count := d.count + 1, shift := d.shift.shiftConcat mosi } := by
  simp [observe, rising, hclk, hcount]

/-- While data is shifted out the input does not matter. -/
theorem observe_rising_full (hclk : d.clk = false) (hcount : d.count = 32) :
    observe memory false true mosi d = { d with clk := true } := by
  simp [observe, rising, hclk, hcount]

/-- Before the address is complete nothing is shifted out. -/
theorem observe_low_short (hcount : d.count < 32) :
    observe memory false false mosi d = { d with clk := false } := by
  cases hclk : d.clk with
  | true => simp [observe, falling, hclk, Nat.ne_of_lt hcount]
  | false =>
      rw [observe_same hclk, ← hclk]

/-- A bit of data. -/
theorem observe_falling {address : BitVec 24} (hclk : d.clk = true) (hcount : d.count = 32)
    (hshift : d.shift = readCommand ++ address) :
    observe memory false false mosi d =
      { d with
        clk := false
        miso := Serial.stream (bytesFrom memory address) d.sent
        sent := d.sent + 1 } := by
  have hcommand : d.shift.extractLsb' 24 8 = readCommand := by
    rw [hshift]
    apply BitVec.eq_of_getLsbD_eq
    intro i hi
    rw [BitVec.getLsbD_extractLsb', BitVec.getLsbD_append]
    simp [hi]
  have haddress : d.shift.extractLsb' 0 24 = address := by
    rw [hshift]
    apply BitVec.eq_of_getLsbD_eq
    intro i hi
    rw [BitVec.getLsbD_extractLsb', BitVec.getLsbD_append]
    simp [hi]
  simp [observe, falling, hclk, hcount, hcommand, haddress]

end Observations

end TangNano.SpiFlash
