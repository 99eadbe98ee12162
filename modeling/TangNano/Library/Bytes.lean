import Mathlib.Tactic

/-!
# Bytes of 32-bit words

A word is read and assembled by its four little-endian bytes, and a byte
mask selects which bytes of a stored word a write replaces.
-/

namespace TangNano

abbrev Byte := BitVec 8

abbrev Word := BitVec 32

namespace Bytes

/-- Byte `i` of a word, byte `0` being the least significant one. -/
def byte (w : Word) (i : ℕ) : Byte := w.extractLsb' (8 * i) 8

def ofBytes (b : ℕ → Byte) : Word := b 3 ++ b 2 ++ b 1 ++ b 0

/-- The bytes of `new` where the mask is set and the bytes of `old` elsewhere. -/
def mergeBytes (mask : BitVec 4) (old new : Word) : Word :=
  ofBytes fun i ↦ if mask.getLsbD i then byte new i else byte old i

theorem getLsbD_byte (w : Word) (i j : ℕ) :
    (byte w i).getLsbD j = (decide (j < 8) && w.getLsbD (8 * i + j)) := by
  simp [byte, BitVec.getLsbD_extractLsb']

theorem getLsbD_ofBytes (b : ℕ → Byte) {i : ℕ} (hi : i < 32) :
    (ofBytes b).getLsbD i = (b (i / 8)).getLsbD (i % 8) := by
  unfold ofBytes
  rw [BitVec.getLsbD_append, BitVec.getLsbD_append, BitVec.getLsbD_append]
  interval_cases i <;> rfl

theorem byte_ofBytes (b : ℕ → Byte) {i : ℕ} (hi : i < 4) : byte (ofBytes b) i = b i := by
  apply BitVec.eq_of_getLsbD_eq
  intro j hj
  rw [getLsbD_byte, getLsbD_ofBytes b (by omega)]
  simp [hj, show (8 * i + j) / 8 = i by omega, show (8 * i + j) % 8 = j by omega]

/-- The low byte of an extended byte. -/
theorem byte_setWidth (b : Byte) : byte (b.setWidth 32) 0 = b := by
  apply BitVec.eq_of_getLsbD_eq
  intro j hj
  rw [getLsbD_byte, BitVec.getLsbD_setWidth]
  simp [hj, show j < 32 by omega]

/-- A word is determined by its four bytes. -/
theorem ext_byte {v w : Word} (h : ∀ i < 4, byte v i = byte w i) : v = w := by
  apply BitVec.eq_of_getLsbD_eq
  intro j hj
  have hbit := congrArg (fun b : Byte ↦ b.getLsbD (j % 8)) (h (j / 8) (by omega))
  have hlt : j % 8 < 8 := Nat.mod_lt _ (by decide)
  simpa only [getLsbD_byte, hlt, decide_true, Bool.true_and, Nat.div_add_mod] using hbit

@[simp] theorem ofBytes_byte (w : Word) : ofBytes (byte w) = w :=
  ext_byte fun _ hi ↦ byte_ofBytes _ hi

theorem byte_mergeBytes (mask : BitVec 4) (old new : Word) {i : ℕ} (hi : i < 4) :
    byte (mergeBytes mask old new) i =
      if mask.getLsbD i then byte new i else byte old i :=
  byte_ofBytes _ hi

@[simp] theorem mergeBytes_zero (old new : Word) : mergeBytes 0#4 old new = old := by
  simp [mergeBytes]

@[simp] theorem mergeBytes_allOnes (old new : Word) : mergeBytes 15#4 old new = new := by
  apply ext_byte
  intro i hi
  rw [byte_mergeBytes _ _ _ hi, if_pos (by interval_cases i <;> rfl)]

end Bytes

end TangNano
