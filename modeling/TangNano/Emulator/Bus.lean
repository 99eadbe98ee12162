import TangNano.Emulator.Rv32i
import TangNano.Emulator.SdCard

/-!
# The bus of the emulator

The callback `bus` of `main.cpp`: RAM, the ports of the SD card, and the
terminal behind the ports of the UART.
-/

namespace TangNano.Emulator

open Bytes Rv32i

def led : Word := 0xfffffffc

def uartOut : Word := 0xfffffff8

def uartIn : Word := 0xfffffff4

def sdcardBusy : Word := 0xfffffff0

def sdcardReadSector : Word := 0xffffffec

def sdcardNextByte : Word := 0xffffffe8

def sdcardStatus : Word := 0xffffffe4

def sdcardWriteSector : Word := 0xffffffe0

def ioAddressesStart : Word := 0xffffffe0

def memoryEnd : ℕ := 0x800000

/-- What the bus works on: RAM, the SD card, what `getchar` is going to return
(`none` is `EOF`) and what `putchar` has written. -/
structure Machine where
  ram : ℕ → Byte
  sdcard : SdCard
  input : List (Option Byte)
  output : List Byte

/-- The next character of the terminal; without one `EOF`. -/
def getchar (m : Machine) : Option Byte × Machine :=
  match m.input with
  | [] => (none, m)
  | ch :: rest => (ch, { m with input := rest })

/-- A character of the terminal as a serial line would send it. -/
def toSerial : Option Byte → Word
  | none => 0xffffffff
  | some ch => if ch = 0x0a then 0x0d else if ch = 0x08 then 0x7f else ch.setWidth 32

def ramAddress (address : Word) : Word := address &&& ~~~3

/-- The byte lane within the word; word accesses ignore the two low address bits. -/
def lane (address : Word) (width : BusOpWidth) : Word :=
  if width = .word then 0 else address &&& 3

/-- Half words at odd lanes read 0 and are not written. -/
def isIgnored (address : Word) (width : BusOpWidth) : Bool :=
  width = .halfWord ∧ lane address width &&& 1 ≠ 0

/-- The index in RAM of byte `i` of an access. -/
def ramIndex (address : Word) (width : BusOpWidth) (i : ℕ) : ℕ :=
  (ramAddress address + lane address width + BitVec.ofNat 32 i).toNat

def storeRam (address : Word) (width : BusOpWidth) (data : Word) (ram : ℕ → Byte) : ℕ → Byte :=
  if isIgnored address width then ram
  else (List.range width.bytes).foldl
    (fun ram i ↦ Function.update ram (ramIndex address width i) (byte data i)) ram

def loadRam (address : Word) (width : BusOpWidth) (ram : ℕ → Byte) : Word :=
  if isIgnored address width then 0
  else (List.range width.bytes).foldl
    (fun data i ↦ data ||| (ram (ramIndex address width i)).setWidth 32 <<< (8 * i)) 0

def store (address : Word) (width : BusOpWidth) (data : Word) (m : Machine) :
    BusResult Machine :=
  if address = sdcardBusy then ⟨2, data, m⟩
  else if address = sdcardStatus then ⟨3, data, m⟩
  else if address = sdcardNextByte then
    ⟨0, data, { m with sdcard := m.sdcard.storeNextByte (byte data 0) }⟩
  else if address = sdcardWriteSector then
    match m.sdcard.writeSector data with
    | some sdcard => ⟨0, data, { m with sdcard := sdcard }⟩
    | none => ⟨4, data, m⟩
  else if address = sdcardReadSector then
    match m.sdcard.readSector data with
    | some sdcard => ⟨0, data, { m with sdcard := sdcard }⟩
    | none => ⟨5, data, m⟩
  else if address = uartOut then ⟨0, data, { m with output := m.output ++ [byte data 0] }⟩
  else if address = uartIn then ⟨6, data, m⟩
  else if address = led then ⟨0, data, m⟩
  else ⟨0, data, { m with ram := storeRam address width data m.ram }⟩

def load (address : Word) (width : BusOpWidth) (data : Word) (m : Machine) :
    BusResult Machine :=
  if address = sdcardStatus then ⟨0, 6, m⟩
  else if address = sdcardBusy then ⟨0, 0, m⟩
  else if address = sdcardNextByte then
    ⟨0, m.sdcard.nextByte.1.setWidth 32, { m with sdcard := m.sdcard.nextByte.2 }⟩
  else if address = sdcardReadSector then ⟨7, data, m⟩
  else if address = sdcardWriteSector then ⟨8, data, m⟩
  else if address = led then ⟨9, data, m⟩
  else if address = uartOut then ⟨0, 0xffffffff, m⟩
  else if address = uartIn then ⟨0, toSerial (getchar m).1, (getchar m).2⟩
  else ⟨0, loadRam address width m.ram, m⟩

/-- The bus; an address that is neither a port nor inside RAM is refused. -/
def bus : Bus Machine := fun m address width isStore data ↦
  if address < ioAddressesStart ∧ (ramAddress address).toNat + 4 > memoryEnd then ⟨1, data, m⟩
  else if isStore then store address width data m
  else load address width data m

theorem bus_readSector (m : Machine) (width : BusOpWidth) (sector : Word) :
    bus m sdcardReadSector width true sector =
      match m.sdcard.readSector sector with
      | some sdcard => ⟨0, sector, { m with sdcard := sdcard }⟩
      | none => ⟨5, sector, m⟩ := rfl

theorem bus_writeSector (m : Machine) (width : BusOpWidth) (sector : Word) :
    bus m sdcardWriteSector width true sector =
      match m.sdcard.writeSector sector with
      | some sdcard => ⟨0, sector, { m with sdcard := sdcard }⟩
      | none => ⟨4, sector, m⟩ := rfl

end TangNano.Emulator
