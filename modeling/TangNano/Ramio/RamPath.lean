import TangNano.Core.Decode
import TangNano.Emulator.Bus
import TangNano.Library.WordMemory
import TangNano.Ramio.Decode

/-!
# The same RAM

Behind `ramio` RAM is a byte-masked word memory, behind the bus of the emulator
it is an array of bytes.  Loads, stores and fetches of any width and alignment
below `memoryEnd` keep the two equal and return the same values.
-/

namespace TangNano.RamPath

open Bytes Rv32i Decode

inductive Load
  | lb | lh | lw | lbu | lhu
deriving DecidableEq, Repr

inductive Store
  | sb | sh | sw
deriving DecidableEq, Repr

def Load.funct3 : Load → BitVec 3
  | .lb => 0b000
  | .lh => 0b001
  | .lw => 0b010
  | .lbu => 0b100
  | .lhu => 0b101

def Store.funct3 : Store → BitVec 3
  | .sb => 0b000
  | .sh => 0b001
  | .sw => 0b010

inductive Operation
  | load (instruction : Load) (address : Word)
  | store (instruction : Store) (address data : Word)
  | fetch (address : Word)

def Operation.address : Operation → Word
  | .load _ address => address
  | .store _ address _ => address
  | .fetch address => address

/-! ## Behind `ramio` -/

/-- The request the core makes. -/
def Operation.request : Operation → Ramio.Request
  | .load instruction address =>
      ⟨true, (Core.loadType instruction.funct3).getD 0, 0, address, 0⟩
  | .store instruction address data =>
      ⟨true, 0, (Core.storeType instruction.funct3).getD 0, address, data⟩
  | .fetch address => ⟨true, 0b111, 0, address, 0⟩

/-- `ramio` in front of a word memory in place of the cache. -/
def serve (q : Ramio.Parts) (s : Ramio.Regs) (r : Ramio.Request) (mem : WordMemory) :
    Word × WordMemory :=
  let q := { q with cacheDataOut := mem (r.address.toNat / 4) }
  let w := Ramio.wires r q s
  (w.dataOut,
    if w.cacheEnable then
      mem.write ⟨w.cacheAddress.toNat / 4, w.cacheWriteEnable, w.cacheDataIn⟩
    else mem)

/-! ## Behind the bus -/

/-- The status, the value for `rd` and the machine after an operation. -/
def Operation.tick (op : Operation) (m : Emulator.Machine) : ℕ × Word × Emulator.Machine :=
  match op with
  | .load instruction address =>
      match loadWidth (instruction.funct3.setWidth 32) with
      | some (width, _, extend) =>
          let r := Emulator.bus m address width false 0
          (r.status, extend r.data, r.state)
      | none => (7, 0, m)
  | .store instruction address data =>
      match storeWidth (instruction.funct3.setWidth 32) with
      | some (width, _) =>
          let r := Emulator.bus m address width true data
          (r.status, 0, r.state)
      | none => (6, 0, m)
  | .fetch address =>
      let r := Emulator.bus m address .word false 0
      (r.status, r.data, r.state)

/-! ## Addresses and lanes -/

theorem lane_cases (address : Word) :
    Ramio.lane address = 0 ∨ Ramio.lane address = 1 ∨ Ramio.lane address = 2 ∨
      Ramio.lane address = 3 := by
  generalize Ramio.lane address = lane
  revert lane
  decide

theorem lane_toNat (address : Word) : (Ramio.lane address).toNat = address.toNat % 4 := by
  rw [Ramio.lane, BitVec.extractLsb'_toNat]
  simp

theorem ramAddress_toNat (address : Word) :
    (Emulator.ramAddress address).toNat = 4 * (address.toNat / 4) := by
  have hlt := address.isLt
  have hshift : Emulator.ramAddress address = address >>> 2 <<< 2 := by
    apply BitVec.eq_of_getLsbD_eq
    intro i hi
    rw [Emulator.ramAddress, BitVec.getLsbD_and]
    interval_cases i <;> simp
  rw [hshift, BitVec.toNat_shiftLeft, BitVec.toNat_ushiftRight]
  simp [Nat.shiftLeft_eq, Nat.shiftRight_eq_div_pow]
  omega

/-- The lane at which an access starts. -/
def start (address : Word) (width : BusOpWidth) : ℕ :=
  if width = .word then 0 else address.toNat % 4

theorem lane_eq (address : Word) (width : BusOpWidth) :
    (Emulator.lane address width).toNat = start address width := by
  unfold Emulator.lane start
  split
  · rfl
  · rw [BitVec.toNat_and]
    exact Nat.and_two_pow_sub_one_eq_mod address.toNat 2

theorem ramIndex_eq {address : Word} {width : BusOpWidth} {i : ℕ}
    (h : start address width + i < 4) :
    Emulator.ramIndex address width i = 4 * (address.toNat / 4) + (start address width + i) := by
  have hlt := address.isLt
  rw [Emulator.ramIndex, BitVec.toNat_add, BitVec.toNat_add, ramAddress_toNat, lane_eq,
    BitVec.toNat_ofNat]
  omega

/-- A half word at an odd lane. -/
def Misaligned (address : Word) (width : BusOpWidth) : Prop :=
  width = .halfWord ∧ address.toNat % 2 = 1

instance (address : Word) (width : BusOpWidth) : Decidable (Misaligned address width) :=
  inferInstanceAs (Decidable (_ ∧ _))

theorem isIgnored_iff (address : Word) (width : BusOpWidth) :
    Emulator.isIgnored address width = true ↔ Misaligned address width := by
  have hodd : Emulator.lane address width &&& 1 ≠ 0 ↔ start address width % 2 = 1 := by
    have htoNat : (Emulator.lane address width &&& 1).toNat = start address width % 2 := by
      rw [BitVec.toNat_and, lane_eq]
      exact Nat.and_two_pow_sub_one_eq_mod (start address width) 1
    rw [ne_eq, ← BitVec.toNat_inj, htoNat]
    simp
  rw [Emulator.isIgnored, decide_eq_true_iff, hodd, Misaligned]
  constructor
  · rintro ⟨rfl, h⟩
    exact ⟨rfl, by simpa [start] using h⟩
  · rintro ⟨rfl, h⟩
    exact ⟨rfl, by simpa [start] using h⟩

theorem start_add_lt {address : Word} {width : BusOpWidth} (h : ¬ Misaligned address width)
    {i : ℕ} (hi : i < width.bytes) : start address width + i < 4 := by
  unfold start
  cases width with
  | byte =>
      rw [if_neg (by decide)]
      have : i < 1 := hi
      omega
  | halfWord =>
      rw [if_neg (by decide)]
      have hlt : i < 2 := hi
      have heven : ¬ address.toNat % 2 = 1 := fun hodd ↦ h ⟨rfl, hodd⟩
      omega
  | word =>
      rw [if_pos rfl]
      have hlt : i < 4 := hi
      omega

/-! ## Loads -/

/-- RAM holds the bytes of the word memory. -/
def SameBytes (mem : WordMemory) (ram : ℕ → Byte) : Prop :=
  ∀ a < Emulator.memoryEnd, ram a = byte (mem (a / 4)) (a % 4)

section Loads

variable {mem : WordMemory} {ram : ℕ → Byte} {address : Word}

theorem SameBytes.ramIndex (h : SameBytes mem ram) (ha : address.toNat < Emulator.memoryEnd)
    {width : BusOpWidth} {i : ℕ} (hi : start address width + i < 4) :
    ram (Emulator.ramIndex address width i) =
      byte (mem (address.toNat / 4)) (start address width + i) := by
  unfold Emulator.memoryEnd at ha
  have hplace : 4 * (address.toNat / 4) + (start address width + i) < Emulator.memoryEnd := by
    unfold Emulator.memoryEnd
    omega
  rw [ramIndex_eq hi, h _ hplace]
  congr 1
  · congr 1
    omega
  · omega

theorem getLsbD_placed (v : Word) (k j i : ℕ) :
    ((byte v (k + j)).setWidth 32 <<< (8 * j)).getLsbD i =
      (decide (i < 32) && decide (8 * j ≤ i) && decide (i < 8 * j + 8) &&
        v.getLsbD (8 * k + i)) := by
  simp only [BitVec.getLsbD_shiftLeft, BitVec.getLsbD_setWidth, getLsbD_byte]
  by_cases hi : i < 32
  · by_cases hj : 8 * j ≤ i
    · have hplace : 8 * (k + j) + (i - 8 * j) = 8 * k + i := by omega
      by_cases hlt : i < 8 * j + 8
      · have h8 : i - 8 * j < 8 := by omega
        have h32 : i - 8 * j < 32 := by omega
        simp [hi, hj, hlt, hplace, h8, h32, Nat.not_lt.mpr hj]
      · have h8 : ¬ i - 8 * j < 8 := by omega
        simp [hi, hj, hlt, h8]
    · simp [hi, hj, Nat.lt_of_not_le hj]
  · simp [hi]

theorem moved_shift (v : Word) (width : BusOpWidth) (k : ℕ) :
    (List.range width.bytes).foldl (fun data i ↦ data ||| (byte v (k + i)).setWidth 32 <<< (8 * i))
      0 = moved width (v >>> (8 * k)) := by
  apply BitVec.eq_of_getLsbD_eq
  intro i hi
  cases width with
  | byte =>
      simp only [BusOpWidth.bytes, List.range_one, List.foldl_cons, List.foldl_nil,
        BitVec.getLsbD_or, getLsbD_placed, moved]
      simp [hi]
  | halfWord =>
      simp only [BusOpWidth.bytes, List.range_succ, List.range_zero, List.nil_append,
        List.cons_append, List.foldl_cons, List.foldl_nil, BitVec.getLsbD_or, getLsbD_placed, moved]
      by_cases h8 : i < 8
      · simp [hi, h8, show i < 16 by omega, show ¬ 8 ≤ i by omega]
      · by_cases h16 : i < 16
        · simp [hi, h8, h16, show 8 ≤ i by omega]
        · simp [hi, h8, h16]
  | word =>
      simp only [BusOpWidth.bytes, List.range_succ, List.range_zero, List.nil_append,
        List.cons_append, List.foldl_cons, List.foldl_nil, BitVec.getLsbD_or, getLsbD_placed, moved]
      rcases (show i < 8 ∨ (8 ≤ i ∧ i < 16) ∨ (16 ≤ i ∧ i < 24) ∨ 24 ≤ i by omega) with
        h | ⟨h, h'⟩ | ⟨h, h'⟩ | h
      · simp [hi, h, show ¬ 8 ≤ i by omega, show ¬ 16 ≤ i by omega, show ¬ 24 ≤ i by omega]
      · simp [hi, h, h', show ¬ i < 8 by omega, show ¬ 16 ≤ i by omega, show ¬ 24 ≤ i by omega]
      · simp [hi, h, h', show ¬ i < 8 by omega, show ¬ i < 16 by omega, show ¬ 24 ≤ i by omega]
      · simp [hi, h, show ¬ i < 8 by omega, show ¬ i < 16 by omega, show ¬ i < 24 by omega]

/-- A load from the array is the width's part of the word, moved to lane 0. -/
theorem SameBytes.loadRam_eq (h : SameBytes mem ram) (ha : address.toNat < Emulator.memoryEnd)
    (width : BusOpWidth) :
    Emulator.loadRam address width ram =
      if Misaligned address width then 0
      else moved width (mem (address.toNat / 4) >>> (8 * start address width)) := by
  unfold Emulator.loadRam
  by_cases hmis : Misaligned address width
  · rw [if_pos ((isIgnored_iff address width).mpr hmis), if_pos hmis]
  · rw [if_neg fun hign ↦ hmis ((isIgnored_iff address width).mp hign), if_neg hmis,
      ← moved_shift]
    apply List.foldl_ext
    intro data i hi
    rw [h.ramIndex ha (start_add_lt hmis (List.mem_range.mp hi))]

theorem extended_eq (isSigned : Bool) (v : Word) (n k : ℕ) :
    Ramio.extended isSigned (v.extractLsb' k n) =
      if isSigned then ((v >>> k).setWidth n).signExtend 32
      else ((v >>> k).setWidth n).setWidth 32 := by
  have hslice : v.extractLsb' k n = (v >>> k).setWidth n := by
    apply BitVec.eq_of_getLsbD_eq
    intro i hi
    simp [hi]
  rw [Ramio.extended, hslice]

/-- What `ramio` makes of the word for a load. -/
theorem loadData_eq (l : Load) {r : BitVec 3} (hr : Core.loadType l.funct3 = some r) (v : Word) :
    Ramio.loadData r address v =
      if Misaligned address (readWidth r) then 0
      else extend r (v >>> (8 * start address (readWidth r))) := by
  have hlane : address.toNat % 4 = (Ramio.lane address).toNat := (lane_toNat address).symm
  have hodd : address.toNat % 2 = (Ramio.lane address).toNat % 2 := by omega
  simp only [Ramio.loadData, Misaligned, start, hlane, hodd]
  rcases lane_cases address with h | h | h | h <;> simp only [h] <;> cases l <;>
    obtain rfl := Option.some.inj hr <;> simp [extended_eq, extend, readWidth]

end Loads

/-! ## Stores -/

section Stores

variable {mem : WordMemory} {ram : ℕ → Byte} {address data : Word}

theorem foldl_update (ram : ℕ → Byte) (b : ℕ) (f : ℕ → Byte) (n x : ℕ) :
    (List.range n).foldl (fun ram i ↦ Function.update ram (b + i) (f i)) ram x =
      if b ≤ x ∧ x < b + n then f (x - b) else ram x := by
  induction n with
  | zero => simp
  | succ n ih =>
      rw [List.range_succ, List.foldl_append, List.foldl_cons, List.foldl_nil]
      by_cases hlast : x = b + n
      · rw [hlast, Function.update_self, if_pos ⟨by omega, by omega⟩, Nat.add_sub_cancel_left]
      · rw [Function.update_of_ne hlast, ih]
        by_cases hin : b ≤ x ∧ x < b + n
        · rw [if_pos hin, if_pos ⟨hin.1, by omega⟩]
        · rw [if_neg hin, if_neg (by omega)]

/-- A store to the array replaces the bytes of the width. -/
theorem storeRam_apply (address : Word) (width : BusOpWidth) (data : Word) (ram : ℕ → Byte)
    (x : ℕ) :
    Emulator.storeRam address width data ram x =
      if ¬ Misaligned address width ∧
          4 * (address.toNat / 4) + start address width ≤ x ∧
          x < 4 * (address.toNat / 4) + start address width + width.bytes then
        byte data (x - (4 * (address.toNat / 4) + start address width))
      else ram x := by
  unfold Emulator.storeRam
  by_cases hmis : Misaligned address width
  · rw [if_pos ((isIgnored_iff address width).mpr hmis), if_neg (by simp [hmis])]
  · rw [if_neg fun hign ↦ hmis ((isIgnored_iff address width).mp hign)]
    have hfold : (List.range width.bytes).foldl (fun ram i ↦
          Function.update ram (Emulator.ramIndex address width i) (byte data i)) ram =
        (List.range width.bytes).foldl (fun ram i ↦ Function.update ram
          (4 * (address.toNat / 4) + start address width + i) (byte data i)) ram := by
      apply List.foldl_ext
      intro ram i hi
      rw [ramIndex_eq (start_add_lt hmis (List.mem_range.mp hi)), Nat.add_assoc]
    rw [hfold, foldl_update]
    simp only [hmis, not_false_eq_true, true_and]

/-- The bytes that `ramio` enables. -/
theorem storeMask_eq (width : BusOpWidth) {j : ℕ} (hj : j < 4) :
    (Ramio.storeMask (writeType width) address).getLsbD j =
      decide (¬ Misaligned address width ∧ start address width ≤ j ∧
        j < start address width + width.bytes) := by
  have hlane : address.toNat % 4 = (Ramio.lane address).toNat := (lane_toNat address).symm
  have hodd : address.toNat % 2 = (Ramio.lane address).toNat % 2 := by omega
  simp only [Ramio.storeMask, Misaligned, start, hlane, hodd]
  rcases lane_cases address with h | h | h | h <;> simp only [h] <;> cases width <;>
    interval_cases j <;> rfl

/-- The enabled bytes carry the bytes of the stored value. -/
theorem storeData_eq (width : BusOpWidth) {j : ℕ} (hj : j < 4)
    (h : ¬ Misaligned address width ∧ start address width ≤ j ∧
      j < start address width + width.bytes) :
    byte (Ramio.storeData (writeType width) address data) j =
      byte data (j - start address width) := by
  have hlane : address.toNat % 4 = (Ramio.lane address).toNat := (lane_toNat address).symm
  have hodd : address.toNat % 2 = (Ramio.lane address).toNat % 2 := by omega
  simp only [Ramio.storeData, Misaligned, start, hlane, hodd] at h ⊢
  apply BitVec.eq_of_getLsbD_eq
  intro i hi
  rw [getLsbD_byte, getLsbD_byte]
  have h32 : ∀ k ≤ 24, k + i < 32 := by omega
  have h16 : ∀ k ≤ 8, k + i < 16 := by omega
  have hhigh : 24 + i - 16 = 8 + i := by omega
  have hge : 16 ≤ 24 + i := by omega
  have i32 : i < 32 := by omega
  have i16 : i < 16 := by omega
  rcases lane_cases address with hl | hl | hl | hl <;> simp only [hl] at h ⊢ <;> cases width <;>
    interval_cases j <;> first
      | exact absurd h (by decide)
      | simp [writeType, Ramio.placed, hi, h32, h16, hhigh, hge, i32, i16]

/-- A store keeps the two memories equal. -/
theorem SameBytes.store (h : SameBytes mem ram) (address : Word) (width : BusOpWidth)
    (data : Word) :
    SameBytes
      (mem.write ⟨address.toNat / 4, Ramio.storeMask (writeType width) address,
        Ramio.storeData (writeType width) address data⟩)
      (Emulator.storeRam address width data ram) := by
  intro x hx
  have hj : x % 4 < 4 := Nat.mod_lt _ (by decide)
  rw [storeRam_apply]
  by_cases hword : x / 4 = address.toNat / 4
  · rw [hword, WordMemory.write_same, byte_mergeBytes _ _ _ hj, storeMask_eq width hj]
    have hrange : (¬ Misaligned address width ∧ 4 * (address.toNat / 4) + start address width ≤ x ∧
          x < 4 * (address.toNat / 4) + start address width + width.bytes) ↔
        ¬ Misaligned address width ∧ start address width ≤ x % 4 ∧
          x % 4 < start address width + width.bytes := and_congr_right fun _ ↦ by omega
    by_cases hin : ¬ Misaligned address width ∧ start address width ≤ x % 4 ∧
        x % 4 < start address width + width.bytes
    · rw [if_pos (hrange.mpr hin), if_pos (decide_eq_true hin), storeData_eq width hj hin]
      congr 1
      omega
    · rw [if_neg (mt hrange.mp hin), if_neg (by simpa using hin), h x hx, hword]
  · rw [WordMemory.write_of_ne _ _ hword, if_neg, h x hx]
    rintro ⟨hmis, hle, hlt⟩
    have hlast : start address width + (width.bytes - 1) < 4 :=
      start_add_lt hmis (by cases width <;> decide)
    omega

end Stores

/-! ## Operations -/

section Operations

variable {q : Ramio.Parts} {s : Ramio.Regs} {mem : WordMemory} {m : Emulator.Machine}
  {address : Word}

theorem ne_port (ha : address.toNat < Emulator.memoryEnd) (port : Word)
    (hport : Emulator.memoryEnd ≤ port.toNat) : address ≠ port := by
  rintro rfl
  omega

theorem not_port (ha : address.toNat < Emulator.memoryEnd) : Ramio.isPort address = false := by
  rw [Bool.eq_false_iff, ne_eq, Ramio.isPort_iff]
  have hne := ne_port ha
  simp only [not_or]
  exact ⟨hne _ (by decide), hne _ (by decide), hne _ (by decide), hne _ (by decide),
    hne _ (by decide), hne _ (by decide), hne _ (by decide), hne _ (by decide)⟩

theorem serve_read (ha : address.toNat < Emulator.memoryEnd) {r : BitVec 3} (hr : r ≠ 0)
    (data : Word) :
    serve q s ⟨true, r, 0, address, data⟩ mem =
      (Ramio.loadData r address (mem (address.toNat / 4)), mem) := by
  unfold serve
  dsimp only
  rw [Ramio.wires_of_read rfl hr rfl, Ramio.readWires_ram (not_port ha)]
  exact Prod.ext rfl (mem.write_disabled _ 0)

theorem serve_write (ha : address.toNat < Emulator.memoryEnd) {w : BitVec 2} (hw : w ≠ 0)
    (data : Word) :
    serve q s ⟨true, 0, w, address, data⟩ mem =
      (0, mem.write ⟨address.toNat / 4, Ramio.storeMask w address,
        Ramio.storeData w address data⟩) := by
  unfold serve
  dsimp only
  rw [Ramio.wires_of_write rfl rfl hw, Ramio.writeWires_ram (not_port ha)]
  simp only [if_true, Ramio.idleWires, Ramio.cacheAddress_div]

theorem bus_ram (ha : address.toNat < Emulator.memoryEnd) :
    ¬ (address < Emulator.ioAddressesStart ∧
      (Emulator.ramAddress address).toNat + 4 > Emulator.memoryEnd) := by
  rintro ⟨-, hend⟩
  rw [ramAddress_toNat] at hend
  unfold Emulator.memoryEnd at ha hend
  omega

theorem bus_load (ha : address.toNat < Emulator.memoryEnd) (width : BusOpWidth) (data : Word) :
    Emulator.bus m address width false data = ⟨0, Emulator.loadRam address width m.ram, m⟩ := by
  have hne := ne_port ha
  unfold Emulator.bus
  rw [if_neg (bus_ram ha), if_neg Bool.false_ne_true]
  unfold Emulator.load
  rw [if_neg (hne _ (by decide)), if_neg (hne _ (by decide)), if_neg (hne _ (by decide)),
    if_neg (hne _ (by decide)), if_neg (hne _ (by decide)), if_neg (hne _ (by decide)),
    if_neg (hne _ (by decide)), if_neg (hne _ (by decide))]

theorem bus_store (ha : address.toNat < Emulator.memoryEnd) (width : BusOpWidth) (data : Word) :
    Emulator.bus m address width true data =
      ⟨0, data, { m with ram := Emulator.storeRam address width data m.ram }⟩ := by
  have hne := ne_port ha
  unfold Emulator.bus
  rw [if_neg (bus_ram ha), if_pos rfl]
  unfold Emulator.store
  rw [if_neg (hne _ (by decide)), if_neg (hne _ (by decide)), if_neg (hne _ (by decide)),
    if_neg (hne _ (by decide)), if_neg (hne _ (by decide)), if_neg (hne _ (by decide)),
    if_neg (hne _ (by decide)), if_neg (hne _ (by decide))]

theorem moved_zero (width : BusOpWidth) : moved width 0 = 0 := by
  cases width with
  | byte => rfl
  | halfWord => rfl
  | word => rfl

theorem extend_zero (r : BitVec 3) : extend r 0 = 0 := by
  unfold extend
  split_ifs <;> rfl

/-- Both sides return the same and stay equal; on the bus nothing but RAM changes. -/
theorem SameBytes.operation (h : SameBytes mem m.ram) (op : Operation)
    (ha : op.address.toNat < Emulator.memoryEnd) :
    (serve q s op.request mem).1 = (op.tick m).2.1 ∧ (op.tick m).1 = 0 ∧
      SameBytes (serve q s op.request mem).2 (op.tick m).2.2.ram ∧
      (op.tick m).2.2 = { m with ram := (op.tick m).2.2.ram } := by
  cases op with
  | load instruction address =>
      change address.toNat < Emulator.memoryEnd at ha
      obtain ⟨width, base, g, hwidth⟩ : ∃ width base g,
          loadWidth (instruction.funct3.setWidth 32) = some (width, base, g) := by
        cases instruction <;> exact ⟨_, _, _, rfl⟩
      obtain ⟨r, hr, hne, hread, hextend⟩ := loadType_eq hwidth
      have hserve : serve q s (Operation.load instruction address).request mem =
          (Ramio.loadData r address (mem (address.toNat / 4)), mem) := by
        rw [Operation.request, hr]
        exact serve_read ha hne 0
      have htick : (Operation.load instruction address).tick m =
          (0, g (Emulator.loadRam address width m.ram), m) := by
        simp only [Operation.tick, hwidth, bus_load ha]
      rw [hserve, htick]
      refine ⟨?_, rfl, h, rfl⟩
      dsimp only
      rw [loadData_eq instruction hr, h.loadRam_eq ha, hread]
      split
      · have hzero := hextend 0
        rw [moved_zero, extend_zero] at hzero
        exact hzero.symm
      · exact (hextend _).symm
  | store instruction address data =>
      change address.toNat < Emulator.memoryEnd at ha
      obtain ⟨width, base, hwidth⟩ : ∃ width base,
          storeWidth (instruction.funct3.setWidth 32) = some (width, base) := by
        cases instruction <;> exact ⟨_, _, rfl⟩
      have hw := storeType_eq hwidth
      have hne : writeType width ≠ 0 := by cases width <;> decide
      have hserve : serve q s (Operation.store instruction address data).request mem =
          (0, mem.write ⟨address.toNat / 4, Ramio.storeMask (writeType width) address,
            Ramio.storeData (writeType width) address data⟩) := by
        rw [Operation.request, hw]
        exact serve_write ha hne data
      have htick : (Operation.store instruction address data).tick m =
          (0, 0, { m with ram := Emulator.storeRam address width data m.ram }) := by
        simp only [Operation.tick, hwidth, bus_store ha]
      rw [hserve, htick]
      exact ⟨rfl, rfl, h.store address width data, rfl⟩
  | fetch address =>
      change address.toNat < Emulator.memoryEnd at ha
      have hserve : serve q s (Operation.fetch address).request mem =
          (Ramio.loadData 7 address (mem (address.toNat / 4)), mem) :=
        serve_read ha (by decide) 0
      have htick : (Operation.fetch address).tick m =
          (0, Emulator.loadRam address .word m.ram, m) := by
        simp only [Operation.tick, bus_load ha]
      rw [hserve, htick]
      refine ⟨?_, rfl, h, rfl⟩
      dsimp only
      rw [loadData_eq .lw rfl, h.loadRam_eq ha]
      rfl

/-- On both sides a half word at an odd lane reads 0 and writes nothing. -/
theorem odd_lane (ha : address.toNat < Emulator.memoryEnd) (hodd : address.toNat % 2 = 1) :
    (∀ l, l = Load.lh ∨ l = Load.lhu →
      serve q s (Operation.load l address).request mem = (0, mem) ∧
        (Operation.load l address).tick m = (0, 0, m)) ∧
    ∀ data, serve q s (Operation.store .sh address data).request mem = (0, mem) ∧
      (Operation.store .sh address data).tick m = (0, 0, m) := by
  have hmis : Misaligned address .halfWord := ⟨rfl, hodd⟩
  have hign := (isIgnored_iff address .halfWord).mpr hmis
  have hload : Emulator.loadRam address .halfWord m.ram = 0 := if_pos hign
  have hstore (data : Word) : Emulator.storeRam address .halfWord data m.ram = m.ram :=
    if_pos hign
  refine ⟨?_, ?_⟩
  · rintro l (rfl | rfl)
    · refine ⟨?_, ?_⟩
      · exact (serve_read ha (r := 0b110) (by decide) 0).trans
          (by rw [loadData_eq .lh rfl,
              if_pos (show Misaligned address (readWidth 0b110) from hmis)])
      · simp [Operation.tick, Load.funct3, loadWidth, bus_load ha, hload]
    · refine ⟨?_, ?_⟩
      · exact (serve_read ha (r := 0b010) (by decide) 0).trans
          (by rw [loadData_eq .lhu rfl,
            if_pos (show Misaligned address (readWidth 0b010) from hmis)])
      · simp [Operation.tick, Load.funct3, loadWidth, bus_load ha, hload]
  · intro data
    refine ⟨?_, ?_⟩
    · have hmask : Ramio.storeMask 0b10 address = 0 := by
        have hne : Ramio.lane address ≠ 0b00 ∧ Ramio.lane address ≠ 0b10 := by
          have hlane := lane_toNat address
          refine ⟨?_, ?_⟩ <;> intro h <;> rw [h] at hlane <;> simp at hlane <;> omega
        unfold Ramio.storeMask
        rw [if_neg (by decide), if_pos rfl, if_neg hne.1, if_neg hne.2]
      refine (serve_write ha (w := 0b10) (by decide) data).trans ?_
      rw [hmask, WordMemory.write_disabled]
    · simp [Operation.tick, Store.funct3, storeWidth, bus_store ha, hstore]

/-- On both sides a word access ignores the low two bits of its address. -/
theorem word_lane {address' : Word} (ha : address.toNat < Emulator.memoryEnd)
    (ha' : address'.toNat < Emulator.memoryEnd)
    (hword : address.toNat / 4 = address'.toNat / 4) :
    (serve q s (Operation.load .lw address).request mem =
      serve q s (Operation.load .lw address').request mem ∧
      (Operation.load .lw address).tick m = (Operation.load .lw address').tick m) ∧
    ∀ data, serve q s (Operation.store .sw address data).request mem =
        serve q s (Operation.store .sw address' data).request mem ∧
      (Operation.store .sw address data).tick m = (Operation.store .sw address' data).tick m := by
  have hindex (i : ℕ) : Emulator.ramIndex address .word i = Emulator.ramIndex address' .word i := by
    have hbase : Emulator.ramAddress address = Emulator.ramAddress address' := by
      apply BitVec.eq_of_toNat_eq
      rw [ramAddress_toNat, ramAddress_toNat, hword]
    simp [Emulator.ramIndex, Emulator.lane, hbase]
  have hign (a : Word) : Emulator.isIgnored a .word = false := by
    simp [Emulator.isIgnored]
  have hload : Emulator.loadRam address .word m.ram = Emulator.loadRam address' .word m.ram := by
    simp only [Emulator.loadRam, hign, hindex]
  have hstore (data : Word) : Emulator.storeRam address .word data m.ram =
      Emulator.storeRam address' .word data m.ram := by
    simp only [Emulator.storeRam, hign, hindex]
  refine ⟨⟨?_, ?_⟩, ?_⟩
  · refine (serve_read ha (r := 0b111) (by decide) 0).trans
      (Eq.trans ?_ (serve_read ha' (r := 0b111) (by decide) 0).symm)
    rw [hword]
    rfl
  · simp [Operation.tick, Load.funct3, loadWidth, bus_load ha, bus_load ha', hload]
  · intro data
    refine ⟨?_, ?_⟩
    · refine (serve_write ha (w := 0b11) (by decide) data).trans
        (Eq.trans ?_ (serve_write ha' (w := 0b11) (by decide) data).symm)
      rw [hword]
      rfl
    · simp [Operation.tick, Store.funct3, storeWidth, bus_store ha, bus_store ha', hstore]

end Operations

/-! ## Sequences of operations -/

/-- An operation and what else is on the wires of `ramio` when it completes. -/
structure Cycle where
  operation : Operation
  parts : Ramio.Parts
  regs : Ramio.Regs

/-- The values returned by `ramio` and the memory after all operations. -/
def onRamio : List Cycle → WordMemory → List Word × WordMemory
  | [], mem => ([], mem)
  | c :: cs, mem =>
      let r := serve c.parts c.regs c.operation.request mem
      (r.1 :: (onRamio cs r.2).1, (onRamio cs r.2).2)

/-- The statuses and values of the emulator and its machine after all operations. -/
def onBus : List Cycle → Emulator.Machine → List (ℕ × Word) × Emulator.Machine
  | [], m => ([], m)
  | c :: cs, m =>
      let r := c.operation.tick m
      ((r.1, r.2.1) :: (onBus cs r.2.2).1, (onBus cs r.2.2).2)

theorem same_after (cs : List Cycle)
    (hbelow : ∀ c ∈ cs, c.operation.address.toNat < Emulator.memoryEnd) {mem : WordMemory}
    {m : Emulator.Machine} (hsame : SameBytes mem m.ram) :
    (onBus cs m).1 = (onRamio cs mem).1.map (fun v ↦ (0, v)) ∧
      SameBytes (onRamio cs mem).2 (onBus cs m).2.ram ∧
      (onBus cs m).2 = { m with ram := (onBus cs m).2.ram } := by
  induction cs generalizing mem m with
  | nil => exact ⟨rfl, hsame, rfl⟩
  | cons c cs ih =>
      obtain ⟨hvalue, hstatus, hnext, hrest⟩ :=
        hsame.operation (q := c.parts) (s := c.regs) c.operation (hbelow c List.mem_cons_self)
      obtain ⟨hvalues, hlast, hdevices⟩ :=
        ih (fun d hd ↦ hbelow d (List.mem_cons_of_mem c hd)) hnext
      refine ⟨?_, hlast, ?_⟩
      · simp only [onBus, onRamio, List.map_cons, hvalues, hvalue, hstatus]
      · simp only [onBus]
        rw [hdevices, hrest]

/-- Both memories return the same values and hold the same bytes after any
operations; half words at odd lanes read 0 and write nothing, and word accesses
ignore the low two bits of the address. -/
theorem ram_path_agrees :
    (∀ (cs : List Cycle) (mem : WordMemory) (m : Emulator.Machine),
      (∀ c ∈ cs, c.operation.address.toNat < Emulator.memoryEnd) → SameBytes mem m.ram →
      (onBus cs m).1 = (onRamio cs mem).1.map (fun v ↦ (0, v)) ∧
        SameBytes (onRamio cs mem).2 (onBus cs m).2.ram ∧
        (onBus cs m).2 = { m with ram := (onBus cs m).2.ram }) ∧
    (∀ (q : Ramio.Parts) (s : Ramio.Regs) (mem : WordMemory) (m : Emulator.Machine)
        (address : Word), address.toNat < Emulator.memoryEnd → address.toNat % 2 = 1 →
      (∀ l, l = Load.lh ∨ l = Load.lhu →
        serve q s (Operation.load l address).request mem = (0, mem) ∧
          (Operation.load l address).tick m = (0, 0, m)) ∧
      ∀ data, serve q s (Operation.store .sh address data).request mem = (0, mem) ∧
        (Operation.store .sh address data).tick m = (0, 0, m)) ∧
    ∀ (q : Ramio.Parts) (s : Ramio.Regs) (mem : WordMemory) (m : Emulator.Machine)
        (address address' : Word), address.toNat < Emulator.memoryEnd →
        address'.toNat < Emulator.memoryEnd → address.toNat / 4 = address'.toNat / 4 →
      (serve q s (Operation.load .lw address).request mem =
          serve q s (Operation.load .lw address').request mem ∧
        (Operation.load .lw address).tick m = (Operation.load .lw address').tick m) ∧
      ∀ data, serve q s (Operation.store .sw address data).request mem =
          serve q s (Operation.store .sw address' data).request mem ∧
        (Operation.store .sw address data).tick m = (Operation.store .sw address' data).tick m :=
  ⟨fun cs _ _ hbelow hsame ↦ same_after cs hbelow hsame,
    fun _ _ _ _ _ ha hodd ↦ odd_lane ha hodd,
    fun _ _ _ _ _ _ ha ha' hword ↦ word_lane ha ha' hword⟩

/-- A store into the third byte of a word, a half word at an odd address and two
loads that see the stored byte. -/
def misalignedOperations : List Operation :=
  [.store .sb 6 0x80, .store .sh 7 0x1234, .load .lb 6, .load .lw 7]

/-- Nothing on the wires but what the operations put there. -/
def idleParts : Ramio.Parts := ⟨0, true, false, 0, false, 6, false, false, 0⟩

def idleRegs : Ramio.Regs := ⟨0b1111, BitVec.allOnes 32, false, BitVec.allOnes 32, true⟩

def blankMachine : Emulator.Machine :=
  ⟨fun _ ↦ 0, ⟨fun _ ↦ 0, 0, fun _ ↦ 0, 0⟩, [], []⟩

theorem ram_path_agrees_misaligned :
    (onBus (misalignedOperations.map (⟨·, idleParts, idleRegs⟩)) blankMachine).1 =
      [(0, 0), (0, 0), (0, 0xffffff80), (0, 0x00800000)] := by
  have hagrees := (ram_path_agrees.1 (misalignedOperations.map (⟨·, idleParts, idleRegs⟩))
    (fun _ ↦ 0) blankMachine (by decide)
    (by intro a _; simp [blankMachine, byte])).1
  rw [hagrees]
  decide

end TangNano.RamPath
