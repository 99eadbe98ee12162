import TangNano.Library.Bytes

/-!
# Byte-masked word memories

The abstract memory a client of a word-wide bus sees: a function from word
addresses to words, changed by writes that replace the bytes of one word
selected by a mask.
-/

namespace TangNano

abbrev WordMemory := ℕ → Word

structure MaskedWrite where
  address : ℕ
  mask : BitVec 4
  data : Word
deriving DecidableEq, Repr

namespace WordMemory

open Bytes

def write (m : WordMemory) (w : MaskedWrite) : WordMemory :=
  Function.update m w.address (mergeBytes w.mask (m w.address) w.data)

/-- The memory after a sequence of writes, the first one applied first. -/
def writeAll (m : WordMemory) (ws : List MaskedWrite) : WordMemory := ws.foldl write m

@[simp] theorem writeAll_nil (m : WordMemory) : writeAll m [] = m := rfl

@[simp] theorem writeAll_append (m : WordMemory) (ws vs : List MaskedWrite) :
    writeAll m (ws ++ vs) = writeAll (writeAll m ws) vs := List.foldl_append

@[simp] theorem writeAll_singleton (m : WordMemory) (w : MaskedWrite) :
    writeAll m [w] = write m w := rfl

theorem write_same (m : WordMemory) (w : MaskedWrite) :
    write m w w.address = mergeBytes w.mask (m w.address) w.data :=
  Function.update_self ..

theorem write_of_ne (m : WordMemory) (w : MaskedWrite) {a : ℕ} (h : a ≠ w.address) :
    write m w a = m a :=
  Function.update_of_ne h ..

@[simp] theorem write_disabled (m : WordMemory) (a : ℕ) (data : Word) :
    m.write ⟨a, 0, data⟩ = m := by
  simp [write]

end WordMemory

end TangNano
