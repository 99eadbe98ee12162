import TangNano.Ramio.RamPath

/-!
# The indices in RAM

The bus of the emulator refuses addresses past the end of RAM, but not above
`ioAddressesStart`, where only the addresses of the ports are handled.
-/

namespace TangNano.Emulator

open Rv32i RamPath

/-- The addresses that are not handled by the default branches. -/
def ports : List Word :=
  [sdcardBusy, sdcardStatus, sdcardNextByte, sdcardWriteSector, sdcardReadSector, uartOut, uartIn,
    led]

/-- The indices in RAM that the default branches evaluate. -/
def ramIndices (address : Word) (width : BusOpWidth) : List ℕ :=
  if isIgnored address width then [] else (List.range width.bytes).map (ramIndex address width)

/-- A call of the bus fails, is for a port, or stays inside RAM. -/
def InBounds (m : Machine) (address : Word) (width : BusOpWidth) (isStore : Bool) (data : Word) :
    Prop :=
  (bus m address width isStore data).status ≠ 0 ∨ address ∈ ports ∨
    ∀ i ∈ ramIndices address width, i < memoryEnd

section Access

variable {address : Word} {width : BusOpWidth}

/-- A store to RAM changes nothing at other indices. -/
theorem storeRam_of_not_mem (data : Word) (ram : ℕ → Byte) {k : ℕ}
    (h : k ∉ ramIndices address width) : storeRam address width data ram k = ram k := by
  unfold ramIndices at h
  unfold storeRam
  split
  · rfl
  · next hignored =>
      rw [if_neg hignored] at h
      generalize List.range width.bytes = l at h
      induction l generalizing ram with
      | nil => rfl
      | cons i l ih =>
          rw [List.map_cons, List.mem_cons, not_or] at h
          rw [List.foldl_cons, ih _ h.2, Function.update_of_ne h.1]

/-- A load from RAM reads nothing at other indices. -/
theorem loadRam_congr {ram ram' : ℕ → Byte} (h : ∀ k ∈ ramIndices address width, ram k = ram' k) :
    loadRam address width ram = loadRam address width ram' := by
  unfold ramIndices at h
  unfold loadRam
  split
  · rfl
  · next hignored =>
      rw [if_neg hignored] at h
      generalize (0 : Word) = data
      generalize List.range width.bytes = l at h
      induction l generalizing data with
      | nil => rfl
      | cons i l ih =>
          rw [List.map_cons, List.forall_mem_cons] at h
          rw [List.foldl_cons, List.foldl_cons, h.1]
          exact ih _ h.2

/-- What is not a port is handled by the default branches. -/
theorem bus_default (m : Machine) (isStore : Bool) (data : Word) (hport : address ∉ ports)
    (hend : ¬ (address < ioAddressesStart ∧ (ramAddress address).toNat + 4 > memoryEnd)) :
    bus m address width isStore data =
      if isStore then ⟨0, data, { m with ram := storeRam address width data m.ram }⟩
      else ⟨0, loadRam address width m.ram, m⟩ := by
  simp only [ports, List.mem_cons, List.not_mem_nil, or_false, not_or] at hport
  obtain ⟨hbusy, hstatus, hnextByte, hwriteSector, hreadSector, huartOut, huartIn, hled⟩ := hport
  rw [bus, if_neg hend]
  cases isStore with
  | true =>
      simp only [if_true, store, hbusy, hstatus, hnextByte, hwriteSector, hreadSector, huartOut,
        huartIn, hled, if_false]
  | false =>
      simp only [Bool.false_eq_true, load, hbusy, hstatus, hnextByte, hwriteSector, hreadSector,
        huartOut, huartIn, hled, if_false]

/-- Above `ioAddressesStart` every aligned address is a port. -/
theorem mem_ports_iff (hio : ioAddressesStart ≤ address) :
    address ∈ ports ↔ address.toNat % 4 = 0 := by
  have hstart : 4294967264 ≤ address.toNat := hio
  have hlt := address.isLt
  simp only [ports, List.mem_cons, List.not_mem_nil, or_false, ← BitVec.toNat_inj, sdcardBusy,
    sdcardStatus, sdcardNextByte, sdcardWriteSector, sdcardReadSector, uartOut, uartIn, led,
    BitVec.reduceToNat]
  omega

/-- The first index of an access that is not ignored. -/
theorem start_mem_ramIndices (h : ¬ Misaligned address width) :
    4 * (address.toNat / 4) + start address width ∈ ramIndices address width := by
  have hpos : 0 < width.bytes := by
    cases width with
    | byte => decide
    | halfWord => decide
    | word => decide
  rw [ramIndices, if_neg ((isIgnored_iff address width).not.mpr h)]
  exact List.mem_map.mpr ⟨0, List.mem_range.mpr hpos, ramIndex_eq (start_add_lt h hpos)⟩

/-- Inside RAM all indices of an access are. -/
theorem lt_of_mem_ramIndices (hend : 4 * (address.toNat / 4) + 4 ≤ memoryEnd) {k : ℕ}
    (hk : k ∈ ramIndices address width) : k < memoryEnd := by
  unfold ramIndices at hk
  split at hk
  · exact absurd hk List.not_mem_nil
  · next hignored =>
      obtain ⟨i, hi, rfl⟩ := List.mem_map.mp hk
      have hmis := (isIgnored_iff address width).not.mp hignored
      have hlt := start_add_lt hmis (List.mem_range.mp hi)
      rw [ramIndex_eq hlt]
      omega

end Access

/-- The bus stays inside RAM unless an address above `ioAddressesStart` is not
aligned and the access is not ignored. -/
theorem inBounds_iff (m : Machine) (address : Word) (width : BusOpWidth) (isStore : Bool)
    (data : Word) :
    InBounds m address width isStore data ↔
      address < ioAddressesStart ∨ address &&& 3 = 0 ∨ isIgnored address width = true := by
  have haligned : address &&& 3 = 0 ↔ address.toNat % 4 = 0 := by
    rw [← BitVec.toNat_inj, BitVec.toNat_and]
    exact Eq.congr_left (Nat.and_two_pow_sub_one_eq_mod address.toNat 2)
  by_cases hio : address < ioAddressesStart
  · refine iff_of_true ?_ (.inl hio)
    by_cases hend : (ramAddress address).toNat + 4 > memoryEnd
    · refine .inl ?_
      rw [bus, if_pos ⟨hio, hend⟩]
      exact Nat.one_ne_zero
    · rw [ramAddress_toNat, not_lt] at hend
      exact .inr (.inr fun k ↦ lt_of_mem_ramIndices hend)
  · have hport := mem_ports_iff (BitVec.not_lt.mp hio)
    rw [haligned, InBounds, hport]
    by_cases hzero : address.toNat % 4 = 0
    · exact iff_of_true (.inr (.inl hzero)) (.inr (.inl hzero))
    · have hdefault : bus m address width isStore data = _ :=
        bus_default m isStore data (hport.not.mpr hzero) fun h ↦ hio h.1
      have hstatus : (bus m address width isStore data).status = 0 := by
        rw [hdefault]
        split <;> rfl
      by_cases hignored : isIgnored address width = true
      · refine iff_of_true (.inr (.inr ?_)) (.inr (.inr hignored))
        rw [ramIndices, if_pos hignored]
        exact List.forall_mem_nil _
      · refine iff_of_false ?_ (by simp [hio, hzero, hignored])
        rintro (hfail | hzero' | hbounds)
        · exact hfail hstatus
        · exact hzero hzero'
        · have hmis := (isIgnored_iff address width).not.mp hignored
          have hfirst := hbounds _ (start_mem_ramIndices hmis)
          have hstart : 4294967264 ≤ address.toNat := BitVec.not_lt.mp hio
          unfold memoryEnd at hfirst
          omega

/-- A byte load between two ports. -/
theorem not_inBounds :
    ¬ ∀ (m : Machine) (address : Word) (width : BusOpWidth) (isStore : Bool) (data : Word),
      InBounds m address width isStore data := by
  intro h
  have hbyte := h ⟨fun _ ↦ 0xff, ⟨fun _ ↦ 0, 0, fun _ ↦ 0, 0⟩, [], []⟩ 0xfffffff9 .byte false 0
  simp [InBounds, bus, load, ports, ramIndices, isIgnored, ramIndex, ramAddress, lane, memoryEnd,
    ioAddressesStart, sdcardBusy, sdcardStatus, sdcardNextByte, sdcardWriteSector,
    sdcardReadSector, uartOut, uartIn, led, BusOpWidth.bytes] at hbyte

end TangNano.Emulator
