import TangNano.Cache.Model

/-!
# Lines, tags and RAM addresses

A byte address is split into tag, line and column; tag and line give the RAM
address of the first word of a line, and the stored tag word gives back the
tag and the two flags it was built from.
-/

namespace TangNano.Cache

variable (p : Params)

/-- RAM address of the line with this tag at index `l`. -/
def lineAddress (tag l : ℕ) : ℕ :=
  (tag * 2 ^ p.lineIndexBitwidth + l) * 2 ^ p.lineToRamAddressLeftShift

theorem columnIx_lt (a : Word) : columnIx p a < p.columnCount :=
  Nat.mod_lt _ (Nat.two_pow_pos _)

theorem lineIx_lt (a : Word) : lineIx p a < 2 ^ p.lineIndexBitwidth :=
  Nat.mod_lt _ (Nat.two_pow_pos _)

theorem addressTag_lt (a : Word) : addressTag p a < 2 ^ p.tagBitwidth :=
  Nat.mod_lt _ (Nat.two_pow_pos _)

theorem cachedTag_lt (s : Regs) (l : ℕ) : cachedTag p s l < 2 ^ p.tagBitwidth :=
  Nat.mod_lt _ (Nat.two_pow_pos _)

theorem two_le_columnCount : 2 ≤ p.columnCount := by
  have h := Nat.pow_le_pow_right (n := 2) (by decide) p.column_pos
  simpa [Params.columnCount] using h

theorem columnCount_le : p.columnCount ≤ 256 := by
  have h := Nat.pow_le_pow_right (n := 2) (by decide) p.column_le
  simpa [Params.columnCount] using h

/-- The fields of an address, without the two ignored bits, fill the RAM address. -/
theorem bitwidth_sum :
    p.tagBitwidth + p.lineIndexBitwidth + p.lineToRamAddressLeftShift = p.ramAddressBitwidth := by
  have htag := p.tag_pos
  have hmode := p.mode_le
  simp only [Params.tagBitwidth, Params.lineToRamAddressLeftShift, zerosBitwidth]
  omega

theorem tagBitwidth_le : p.tagBitwidth ≤ 20 := by
  have hsum := bitwidth_sum p
  have hram := p.ram_le
  have hline := p.line_pos
  omega

theorem burstLineAddress_eq (a : Word) :
    burstLineAddress p a = lineAddress p (addressTag p a) (lineIx p a) := by
  unfold burstLineAddress lineAddress addressTag lineIx
  congr 1
  rw [Nat.pow_add 2 p.tagBitwidth, Nat.mul_comm (2 ^ p.tagBitwidth), Nat.mod_mul,
    Nat.div_div_eq_div_mul, ← Nat.pow_add]
  rw [show p.columnIndexBitwidth + zerosBitwidth + p.lineIndexBitwidth =
    p.lineIndexBitwidth + p.columnIndexBitwidth + zerosBitwidth by omega]
  ring

theorem lineAddress_lt {tag l : ℕ} (htag : tag < 2 ^ p.tagBitwidth)
    (hl : l < 2 ^ p.lineIndexBitwidth) : lineAddress p tag l < 2 ^ p.ramAddressBitwidth := by
  have hline : tag * 2 ^ p.lineIndexBitwidth + l < 2 ^ (p.tagBitwidth + p.lineIndexBitwidth) := by
    rw [Nat.pow_add]
    calc
      tag * 2 ^ p.lineIndexBitwidth + l <
          tag * 2 ^ p.lineIndexBitwidth + 2 ^ p.lineIndexBitwidth := by omega
      _ = (tag + 1) * 2 ^ p.lineIndexBitwidth := by ring
      _ ≤ 2 ^ p.tagBitwidth * 2 ^ p.lineIndexBitwidth := Nat.mul_le_mul_right _ htag
  rw [← bitwidth_sum p, Nat.pow_add]
  exact Nat.mul_lt_mul_of_pos_right hline (Nat.two_pow_pos _)

/-- `I_sdrc_addr` has room for every line address. -/
theorem lineAddress_mod {tag l : ℕ} (htag : tag < 2 ^ p.tagBitwidth)
    (hl : l < 2 ^ p.lineIndexBitwidth) : lineAddress p tag l % 2 ^ 21 = lineAddress p tag l := by
  apply Nat.mod_eq_of_lt
  exact (lineAddress_lt p htag hl).trans_le (Nat.pow_le_pow_right (by decide) p.ram_le)

theorem cachedLineAddress_mod (s : Regs) (a : Word) :
    cachedLineAddress p s (lineIx p a) % 2 ^ 21 =
      lineAddress p (cachedTag p s (lineIx p a)) (lineIx p a) :=
  lineAddress_mod p (cachedTag_lt p s _) (lineIx_lt p a)

theorem burstLineAddress_mod (a : Word) :
    burstLineAddress p a % 2 ^ 21 = lineAddress p (addressTag p a) (lineIx p a) := by
  rw [burstLineAddress_eq]
  exact lineAddress_mod p (addressTag_lt p a) (lineIx_lt p a)

theorem lineAddress_dvd (tag l : ℕ) :
    2 ^ p.lineToRamAddressLeftShift ∣ lineAddress p tag l :=
  Dvd.intro_left _ rfl

/-! ## Stored tag words -/

theorem toNat_tagWord (dirty : Bool) {tag : ℕ} (htag : tag < 2 ^ p.tagBitwidth) :
    (tagWord p dirty tag).toNat =
      (if dirty then 2 ^ (p.tagBitwidth + 1) else 0) + 2 ^ p.tagBitwidth + tag := by
  have hpow : 2 ^ p.tagBitwidth ≤ 2 ^ 20 := Nat.pow_le_pow_right (by decide) (tagBitwidth_le p)
  unfold tagWord Params.lineDirtyBit Params.lineValidBit
  rw [BitVec.toNat_ofNat, Nat.mod_eq_of_lt]
  rw [Nat.pow_succ]
  split <;> omega

@[simp] theorem tagWord_valid (dirty : Bool) {tag : ℕ} (htag : tag < 2 ^ p.tagBitwidth) :
    (tagWord p dirty tag).getLsbD p.lineValidBit = true := by
  rw [← BitVec.testBit_toNat, toNat_tagWord p dirty htag, Params.lineValidBit,
    Nat.testBit_eq_decide_div_mod_eq]
  cases dirty
  · simp [Nat.div_eq_of_lt htag]
  · have hdiv : (2 ^ (p.tagBitwidth + 1) + 2 ^ p.tagBitwidth + tag) / 2 ^ p.tagBitwidth = 3 := by
      rw [Nat.pow_succ]
      exact Nat.div_eq_of_lt_le (by omega) (by omega)
    simp [hdiv]

@[simp] theorem tagWord_dirty (dirty : Bool) {tag : ℕ} (htag : tag < 2 ^ p.tagBitwidth) :
    (tagWord p dirty tag).getLsbD p.lineDirtyBit = dirty := by
  rw [← BitVec.testBit_toNat, toNat_tagWord p dirty htag, Params.lineDirtyBit,
    Nat.testBit_eq_decide_div_mod_eq]
  cases dirty
  · have hdiv : (2 ^ p.tagBitwidth + tag) / 2 ^ (p.tagBitwidth + 1) = 0 := by
      rw [Nat.pow_succ]
      exact Nat.div_eq_of_lt (by omega)
    simp [hdiv]
  · have hdiv :
        (2 ^ (p.tagBitwidth + 1) + 2 ^ p.tagBitwidth + tag) / 2 ^ (p.tagBitwidth + 1) = 1 := by
      rw [Nat.pow_succ]
      exact Nat.div_eq_of_lt_le (by omega) (by omega)
    simp [hdiv]

@[simp] theorem tagWord_tag (dirty : Bool) {tag : ℕ} (htag : tag < 2 ^ p.tagBitwidth) :
    (tagWord p dirty tag).toNat % 2 ^ p.tagBitwidth = tag := by
  rw [toNat_tagWord p dirty htag]
  have hdvd : 2 ^ p.tagBitwidth ∣
      (if dirty then 2 ^ (p.tagBitwidth + 1) else 0) + 2 ^ p.tagBitwidth := by
    refine Nat.dvd_add ?_ (Nat.dvd_refl _)
    split
    · exact Nat.pow_dvd_pow 2 (Nat.le_succ _)
    · exact Nat.dvd_zero _
  obtain ⟨k, hk⟩ := hdvd
  rw [hk, Nat.mul_add_mod, Nat.mod_eq_of_lt htag]

end TangNano.Cache
