import TangNano.Library.Bytes

/-!
# The emulated SD card

`osqa::sdcard` over the bytes of its image file.  Reads and writes of whole
sectors inside the image do not fail.
-/

namespace TangNano.Emulator

structure SdCard where
  image : ℕ → Byte
  sectorCount : ℕ
  buffer : ℕ → Byte
  bufferIndex : ℕ

namespace SdCard

def sectorSize : ℕ := 512

def offset (sector : Word) : ℕ := sector.toNat * sectorSize

/-- `none` when the sector is past the end of the image. -/
def readSector (sector : Word) (c : SdCard) : Option SdCard :=
  if sector.toNat ≥ c.sectorCount then none
  else some
    { c with buffer := fun i ↦ if i < sectorSize then c.image (offset sector + i) else c.buffer i }

def writeSector (sector : Word) (c : SdCard) : Option SdCard :=
  if sector.toNat ≥ c.sectorCount then none
  else some
    { c with image := fun a ↦
        if offset sector ≤ a ∧ a < offset sector + sectorSize then c.buffer (a - offset sector)
        else c.image a }

def advance (c : SdCard) : SdCard := { c with bufferIndex := (c.bufferIndex + 1) % sectorSize }

/-- The byte at the index, the index advances. -/
def nextByte (c : SdCard) : Byte × SdCard := (c.buffer c.bufferIndex, c.advance)

/-- Stores the byte at the index, the index advances. -/
def storeNextByte (byte : Byte) (c : SdCard) : SdCard :=
  advance { c with buffer := Function.update c.buffer c.bufferIndex byte }

end SdCard

end TangNano.Emulator
