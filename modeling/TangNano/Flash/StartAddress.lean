import TangNano.Core.FlashClock
import TangNano.Flash.Model

/-!
# The flash emulator at the core

The boot loader with module `flash` in place of a flash.  The core changes
`mosi` as the clock falls, and it is up to the simulator whether the emulator
sees the bit before or after.  Either way the first byte is not the one at the
start address: it is fetched before the last bit of the address has come and
without the offset.
-/

namespace TangNano.Flash

open FlashClock
open Boot (commandBit)

structure State (w : ℕ) where
  core : Core.Regs
  flash : Regs w

section System

variable {w : ℕ} (q : Params w) (seesNew : Bool) (p : Core.Params)

/-- One rising edge of `clk`. -/
def step (i : Core.Input) (x : State w) : State w :=
  let core := Core.step p { i with flashMiso := x.flash.miso } x.core
  let seen := if seesNew then core else x.core
  { core := core
    flash :=
      if falls x.core core then negedge q seen.flashCsN seen.flashMosi x.flash else x.flash }

def run (start : State w) (input : ℕ → Core.Input) (n : ℕ) : State w :=
  Clocked.state (step q seesNew p) start input n

/-- The bits the core takes from `miso` in the first `n` cycles. -/
def taken (start : State w) (input : ℕ → Core.Input) : ℕ → List Bool
  | 0 => []
  | n + 1 =>
      taken start input n ++
        if takesBit (run q seesNew p start input n).core then
          [(run q seesNew p start input n).flash.miso]
        else []

/-- A byte of what was taken, the most significant bit first. -/
def takenByte (l : List Bool) (j : ℕ) : Byte := Serial.shiftIn 0 ((l.drop (8 * j)).take 8)

/-- From every reset and whatever `ramio` does, the core takes the bytes from
`address` on. -/
def HonoursAddress (address : BitVec 24) : Prop :=
  ∀ (p : Core.Params) (start : State w) (input : ℕ → Core.Input),
    p.flashTransferFromAddress.setWidth 24 = address →
    (∃ i s, i.rstN = false ∧ start = ⟨Core.step p i s, reset w⟩) →
    (∀ n, (input n).rstN = true) →
    ∀ n j, 8 * (j + 1) ≤ (taken q seesNew p start input n).length →
      takenByte (taken q seesNew p start input n) j =
        q.data (BitVec.ofNat w (address.toNat + q.addressOffset.toNat + j))

/-- How many bits of the address come too late. -/
def lag : ℕ := if seesNew then 0 else 1

/-- The address after `t` of its bits. -/
def shiftedAddress (w : ℕ) (address : BitVec 24) (t : ℕ) : BitVec w :=
  (address.extractLsb' (lag seesNew + 23 - t) t).setWidth w

/-- The first byte is the one at the start address, and where the address that
was shifted in differs from it the content is the same. -/
def Aligned (address : BitVec 24) : Prop :=
  q.data (shiftedAddress seesNew w address 22) =
      q.data (address.setWidth w + q.addressOffset.setWidth w) ∧
    ∀ a, q.data (shiftedAddress seesNew w address 23 + a) = q.data (address.setWidth w + a)

/-- What the emulator sees at each edge. -/
def seen (e : ℕ) : Bool := commandBit p (min (if seesNew then e + 1 else e) 31)

/-- Core and emulator after `e` edges; the list holds the bits taken. -/
def Follows (e m : ℕ) (x : State w) (l : List Bool) : Prop :=
  x.flash = edges q (seen seesNew p) e ∧
    l = (List.range m).map fun k ↦ (edges q (seen seesNew p) (32 + k)).miso

variable {q seesNew p} {i : Core.Input} {x : State w} {l : List Bool} {e m e' m' : ℕ}

theorem Follows.step (h : Follows q seesNew p e m x l)
    (hmoves : Moves p x.core (step q seesNew p i x).core e m e' m') :
    Follows q seesNew p e' m' (step q seesNew p i x)
      (l ++ if takesBit x.core then [x.flash.miso] else []) := by
  obtain ⟨hflash, hl⟩ := h
  refine ⟨?_, ?_⟩
  · have hnext : (Flash.step q seesNew p i x).flash =
        if falls x.core (Flash.step q seesNew p i x).core then
          negedge q (if seesNew then (Flash.step q seesNew p i x).core else x.core).flashCsN
            (if seesNew then (Flash.step q seesNew p i x).core else x.core).flashMosi x.flash
        else x.flash := rfl
    rw [hnext]
    cases hfalls : falls x.core (Flash.step q seesNew p i x).core with
    | true =>
        obtain ⟨rfl, hcsN, hcsN', hmosi, hmosi'⟩ := hmoves.falling hfalls
        rw [if_pos rfl, edges, hflash, seen]
        cases seesNew with
        | true => rw [if_pos rfl, if_pos rfl, hcsN', hmosi']
        | false => rw [if_neg Bool.false_ne_true, if_neg Bool.false_ne_true, hcsN, hmosi]
    | false =>
        rw [if_neg Bool.false_ne_true, hmoves.steady hfalls]
        exact hflash
  · cases htakes : takesBit x.core with
    | true =>
        obtain ⟨rfl, rfl⟩ := hmoves.taking htakes
        rw [if_pos rfl, List.range_succ, List.map_append, ← hl, hflash]
        rfl
    | false =>
        rw [if_neg Bool.false_ne_true, List.append_nil, hmoves.waiting htakes]
        exact hl

/-! ## Runs -/

variable {start : State w} {input : ℕ → Core.Input}

theorem Follows.length (h : Follows q seesNew p e m x l) : l.length = m := by
  rw [h.2, List.length_map, List.length_range]

variable (q seesNew) in
/-- What is taken is what the emulator sends; with `ramio` never busy the boot
loader does not stand still before it is over. -/
theorem follows_run (hreset : ∃ i s, i.rstN = false ∧ start = ⟨Core.step p i s, reset w⟩)
    (hrun : ∀ n, (input n).rstN = true) (n : ℕ) :
    ∃ e m, Follows q seesNew p e m (run q seesNew p start input n)
        (taken q seesNew p start input n) ∧
      ((∃ a, Phase p (run q seesNew p start input n).core e m a ∧
          ((∀ n, (input n).ramioBusy = false) → n ≤ a)) ∨
        Over (run q seesNew p start input n).core ∧
          ∃ k ≤ m, ¬ BitVec.ofNat 32 (4 * k) < p.flashTransferByteCount) := by
  induction n with
  | zero =>
      obtain ⟨i, s, hrst, rfl⟩ := hreset
      exact ⟨0, 0, ⟨rfl, rfl⟩, .inl ⟨_, phase_reset hrst, fun _ ↦ Nat.zero_le _⟩⟩
  | succ n ih =>
      obtain ⟨e, m, hfollows, ⟨a, hphase, hage⟩ | ⟨hover, hall⟩⟩ := ih
      · obtain ⟨e', m', hmoves, hnext⟩ := hphase.goesOn
          (i := { input n with flashMiso := (run q seesNew p start input n).flash.miso }) (hrun n)
        refine ⟨e', m', hfollows.step hmoves, ?_⟩
        rcases hnext with ⟨a', hphase', hfree⟩ | ⟨hover, k, hk, hall⟩
        · exact .inl ⟨a', hphase', fun hnever ↦ (hage hnever).trans_lt (hfree (hnever n))⟩
        · have hle : m ≤ m' := by
            cases htakes : takesBit (run q seesNew p start input n).core with
            | true => exact (hmoves.taking htakes).2 ▸ Nat.le_succ m
            | false => exact (hmoves.waiting htakes).ge
          exact .inr ⟨hover, k, hk.trans hle, hall⟩
      · obtain ⟨hnext, hmoves⟩ := hover.step (p := p)
          (i := { input n with flashMiso := (run q seesNew p start input n).flash.miso }) (hrun n)
        exact ⟨e, m, hfollows.step hmoves, .inr ⟨hnext, hall⟩⟩

variable (q seesNew) in
/-- A long transfer takes more bits than there are in the emulator. -/
theorem exists_taken (hreset : ∃ i s, i.rstN = false ∧ start = ⟨Core.step p i s, reset w⟩)
    (hrun : ∀ n, (input n).rstN = true) (hfree : ∀ n, (input n).ramioBusy = false)
    (hcount : p.flashTransferByteCount = BitVec.allOnes 32) :
    ∃ n, 2 ^ 28 ≤ (taken q seesNew p start input n).length := by
  obtain ⟨e, m, hfollows, ⟨a, hphase, hage⟩ | ⟨-, k, hk, hall⟩⟩ :=
    follows_run q seesNew hreset hrun (2 ^ 32 + 69 + 4 * 2 ^ 28)
  · refine ⟨2 ^ 32 + 69 + 4 * 2 ^ 28, ?_⟩
    have hle := (hage hfree).trans hphase.age_le
    rw [hfollows.length]
    omega
  · refine ⟨2 ^ 32 + 69 + 4 * 2 ^ 28, ?_⟩
    rw [hcount, BitVec.lt_def, BitVec.toNat_ofNat, BitVec.toNat_allOnes] at hall
    rw [hfollows.length]
    omega

theorem takenByte_stream (b : ℕ → Byte) {j : ℕ} (hj : 8 * (j + 1) ≤ m) :
    takenByte ((List.range m).map (Serial.stream b)) j = b j := by
  have hbits : (((List.range m).map (Serial.stream b)).drop (8 * j)).take 8 =
      Serial.bits (b j) := by
    apply List.ext_getElem
    · simp
      omega
    · intro k hk hk'
      have hlt : k < 8 := by simpa using hk'
      simp only [List.getElem_take, List.getElem_drop, List.getElem_map, List.getElem_range,
        Serial.bits, Serial.firstBits]
      rw [Serial.stream, show (8 * j + k) / 8 = j by omega, show (8 * j + k) % 8 = k by omega]
  rw [takenByte, hbits, Serial.shiftIn_bits]

/-! ## Addresses -/

theorem commandBit_address {k : ℕ} (hk : 8 ≤ k) :
    commandBit p k = (p.flashTransferFromAddress.setWidth 24 : BitVec 24).getMsbD (k - 8) := by
  rw [commandBit, BitVec.getMsbD_append, if_pos hk]

theorem shifted_seen {t : ℕ} (ht : t ≤ 23) : shifted w (seen seesNew p) t =
    shiftedAddress seesNew w (p.flashTransferFromAddress.setWidth 24) t := by
  apply BitVec.eq_of_getLsbD_eq
  intro i hi
  rw [shifted, Serial.getLsbD_shiftIn_zero, shiftedAddress, BitVec.getLsbD_setWidth,
    BitVec.getLsbD_extractLsb', Bool.and_assoc]
  congr 1
  by_cases hit : i < t
  · rw [seen, commandBit_address (by split <;> omega), BitVec.getMsbD]
    cases seesNew with
    | true =>
        rw [if_pos rfl, lag, if_pos rfl]
        have hindex : 24 - 1 - (min (8 + (t - 1 - i) + 1) 31 - 8) = 0 + 23 - t + i := by omega
        have hlt : min (8 + (t - 1 - i) + 1) 31 - 8 < 24 := by omega
        rw [hindex, decide_eq_true hlt, Bool.true_and]
    | false =>
        rw [if_neg Bool.false_ne_true, lag, if_neg Bool.false_ne_true]
        have hindex : 24 - 1 - (min (8 + (t - 1 - i)) 31 - 8) = 1 + 23 - t + i := by omega
        have hlt : min (8 + (t - 1 - i)) 31 - 8 < 24 := by omega
        rw [hindex, decide_eq_true hlt, Bool.true_and]
  · rw [decide_eq_false hit, Bool.false_and, Bool.false_and]

/-! ## Bytes -/

theorem takenByte_taken (hw : w ≤ 24)
    (hreset : ∃ i s, i.rstN = false ∧ start = ⟨Core.step p i s, reset w⟩)
    (hrun : ∀ n, (input n).rstN = true) {n j : ℕ}
    (hj : 8 * (j + 1) ≤ (taken q seesNew p start input n).length) :
    takenByte (taken q seesNew p start input n) j = sent q (seen seesNew p) j := by
  obtain ⟨e, m, hfollows, -⟩ := follows_run q seesNew hreset hrun n
  have hstream : taken q seesNew p start input n =
      (List.range m).map (Serial.stream (sent q (seen seesNew p))) := by
    rw [hfollows.2]
    exact List.map_congr_left fun k _ ↦ edges_miso hw k
  rw [hfollows.length] at hj
  rw [hstream, takenByte_stream _ hj]

variable {address : BitVec 24}

theorem ofNat_address (j : ℕ) :
    BitVec.ofNat w (address.toNat + q.addressOffset.toNat + j) =
      address.setWidth w + q.addressOffset.setWidth w + BitVec.ofNat w j := by
  rw [BitVec.ofNat_add, BitVec.ofNat_add, BitVec.ofNat_toNat, BitVec.ofNat_toNat]

theorem sent_eq (haddress : p.flashTransferFromAddress.setWidth 24 = address) (j : ℕ) :
    sent q (seen seesNew p) j =
      if j = 0 then q.data (shiftedAddress seesNew w address 22)
      else q.data (shiftedAddress seesNew w address 23 + q.addressOffset.setWidth w +
        BitVec.ofNat w j) := by
  cases j with
  | zero => rw [sent, shifted_seen (by decide), haddress, if_pos rfl]
  | succ j => rw [sent, shifted_seen (by decide), haddress, if_neg (Nat.succ_ne_zero j)]

theorem Aligned.honoursAddress (h : Aligned q seesNew address) (hw : w ≤ 24) :
    HonoursAddress q seesNew address := by
  intro p start input haddress hreset hrun n j hj
  rw [takenByte_taken hw hreset hrun hj, sent_eq haddress, ofNat_address]
  split
  · next hzero =>
      rw [hzero, h.1]
      congr 1
      exact (BitVec.add_zero _).symm
  · rw [BitVec.add_assoc, h.2, BitVec.add_assoc]

theorem HonoursAddress.aligned (h : HonoursAddress q seesNew address) (hw : w ≤ 24) :
    Aligned q seesNew address := by
  let p : Core.Params := ⟨0, address.setWidth 32, BitVec.allOnes 32⟩
  let start : State w := ⟨Core.step p ⟨false, 0, false, false, false⟩ Core.powerUp, reset w⟩
  let input (_ : ℕ) : Core.Input := ⟨true, 0, false, false, false⟩
  have haddress : p.flashTransferFromAddress.setWidth 24 = address := by
    change (address.setWidth 32).setWidth 24 = address
    rw [BitVec.setWidth_setWidth_of_le _ (by decide), BitVec.setWidth_eq]
  have hreset : ∃ i s, i.rstN = false ∧ start = ⟨Core.step p i s, reset w⟩ := ⟨_, _, rfl, rfl⟩
  have hrun : ∀ n, (input n).rstN = true := fun _ ↦ rfl
  obtain ⟨n, hn⟩ := exists_taken q seesNew hreset hrun (fun _ ↦ rfl) rfl
  have hbyte {j : ℕ} (hj : j ≤ 2 ^ 24) :
      (if j = 0 then q.data (shiftedAddress seesNew w address 22)
        else q.data (shiftedAddress seesNew w address 23 + q.addressOffset.setWidth w +
          BitVec.ofNat w j)) =
        q.data (address.setWidth w + q.addressOffset.setWidth w + BitVec.ofNat w j) := by
    have hlong : 8 * (j + 1) ≤ (taken q seesNew p start input n).length := by omega
    rw [← sent_eq haddress, ← ofNat_address, ← takenByte_taken hw hreset hrun hlong]
    exact h p start input haddress hreset hrun n j hlong
  refine ⟨?_, fun a ↦ ?_⟩
  · have hfirst := hbyte (Nat.zero_le _)
    rw [if_pos rfl] at hfirst
    exact hfirst.trans (congrArg q.data (BitVec.add_zero _))
  · -- every offset from the address comes in one turn through the content
    have hpow : 2 ^ w ≤ 2 ^ 24 := Nat.pow_le_pow_right (by decide) hw
    have hoffset : q.addressOffset.setWidth w + BitVec.ofNat w
        ((a - q.addressOffset.setWidth w - 1).toNat + 1) = a := by
      rw [BitVec.ofNat_add, BitVec.ofNat_toNat, BitVec.setWidth_eq]
      change _ + (a - _ - 1 + 1) = a
      rw [BitVec.sub_add_cancel, BitVec.add_comm, BitVec.sub_add_cancel]
    have hlt := (a - q.addressOffset.setWidth w - 1).isLt
    have hturn := hbyte (j := (a - q.addressOffset.setWidth w - 1).toNat + 1) (by omega)
    rw [if_neg (Nat.succ_ne_zero _), BitVec.add_assoc, BitVec.add_assoc, hoffset] at hturn
    exact hturn

/-- The emulator honours the start address exactly for content that does not
show the difference. -/
theorem honoursAddress_iff (hw : w = 23 ∨ w = 24) :
    HonoursAddress q seesNew address ↔ Aligned q seesNew address := by
  have hle : w ≤ 24 := by omega
  exact ⟨fun h ↦ h.aligned hle, fun h ↦ h.honoursAddress hle⟩

end System

/-! ## The first test bench -/

/-- 8 MB with two instructions at the beginning, and an offset that is the start
address negated. -/
def firstBench : Params 23 where
  addressOffset := -0x700000
  data := fun a ↦ [0x13, 0x00, 0x00, 0x00, 0x37, 0x55, 0x34, 0x12].getD a.toNat 0xff

theorem not_aligned_firstBench (seesNew : Bool) : ¬ Aligned firstBench seesNew 0x700000 := by
  rintro ⟨hfirst, -⟩
  revert seesNew
  decide

theorem honoursAddress_iff_zero : HonoursAddress (⟨0, firstBench.data⟩ : Params 23) true 0 := by
  refine (honoursAddress_iff (.inl rfl)).mpr ⟨by decide, fun a ↦ ?_⟩
  rfl

theorem not_honoursAddress :
    ¬ ∀ (w : ℕ) (q : Params w), w = 23 ∨ w = 24 → ∀ address, ∃ seesNew,
      HonoursAddress q seesNew address := by
  intro hall
  obtain ⟨seesNew, hhonours⟩ := hall 23 firstBench (.inl rfl) 0x700000
  exact not_aligned_firstBench seesNew (hhonours.aligned (by decide))

end TangNano.Flash
