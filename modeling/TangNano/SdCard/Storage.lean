import TangNano.Emulator.Bus
import TangNano.Ramio.Model
import TangNano.SdCard.Drivers
import TangNano.SdCard.WriteTransfer

/-!
# The SD card as a store of sectors

The drivers on the hardware, `ramio` in front of `sdcard`, and on the bus of
the emulator.  On both the sectors are a store; on the hardware it does not
matter where the index of the buffer is.
-/

namespace TangNano.SdDriver

open Bytes SdCardPort SdSystem Service

/-! ## The hardware -/

/-- The system and the numbers of cycles that pass before the next accesses. -/
structure Hardware where
  system : System
  gaps : ℕ → ℕ

/-- What `ramio` is given by the system. -/
def parts (q : Ramio.Parts) (x : System) : Ramio.Parts :=
  { q with
    sdcardDataOut := dataOut x.port
    sdcardBusy := busy x.port
    sdcardStatus := (SdController.status x.engine.controller).setWidth 32 }

section Hardware

variable (p : Params) (T : ℕ → SpiCard.Timing) (q : Ramio.Parts) (s : Ramio.Regs)

/-- The system when the next access comes. -/
def Hardware.next (h : Hardware) : System := (idle p T)^[h.gaps 0] h.system

/-- One access, made in one cycle. -/
def Hardware.access (r : Ramio.Request) (h : Hardware) : Word × Hardware :=
  let w := Ramio.wires r (parts q (h.next p T)) s
  (w.dataOut,
    ⟨step p T ⟨true, w.sdcardCommand, w.sdcardSector, w.sdcardDataIn⟩ (h.next p T),
      fun n ↦ h.gaps (n + 1)⟩)

def hardware : Ports Hardware where
  load address h := some (h.access p T q s ⟨true, 0b111, 0, address, 0⟩)
  store address data h := some (h.access p T q s ⟨true, 0, 0b11, address, data⟩).2

end Hardware

section Conformance

variable {p : Params} {T : ℕ → SpiCard.Timing} {q : Ramio.Parts} {s : Ramio.Regs} {h : Hardware}
  {x : System} {d : Contents}

theorem hardware_load_busy :
    (hardware p T q s).load sdcardBusy h =
      some (if busy (h.next p T).port then 1 else 0,
        ⟨idle p T (h.next p T), fun n ↦ h.gaps (n + 1)⟩) := rfl

theorem hardware_load_nextByte :
    (hardware p T q s).load sdcardNextByte h =
      some ((dataOut (h.next p T).port).setWidth 32,
        ⟨step p T ⟨true, 2, 0, 0⟩ (h.next p T), fun n ↦ h.gaps (n + 1)⟩) := rfl

theorem hardware_store_nextByte (v : Word) :
    (hardware p T q s).store sdcardNextByte v h =
      some ⟨step p T ⟨true, 3, 0, byte v 0⟩ (h.next p T), fun n ↦ h.gaps (n + 1)⟩ := rfl

theorem hardware_store_readSector (v : Word) :
    (hardware p T q s).store sdcardReadSector v h =
      some ⟨step p T ⟨true, 1, v, 0⟩ (h.next p T), fun n ↦ h.gaps (n + 1)⟩ := rfl

theorem hardware_store_writeSector (v : Word) :
    (hardware p T q s).store sdcardWriteSector v h =
      some ⟨step p T ⟨true, 4, v, 0⟩ (h.next p T), fun n ↦ h.gaps (n + 1)⟩ := rfl

/-- The loop ends when the system is ready. -/
theorem hardware_wait {n : ℕ} (hbusy : ∀ k < n, Busy ((idle p T)^[k] h.system))
    (hready : Ready p ((idle p T)^[n] h.system) d) :
    ∃ y, (∀ fuel > n, waitWhileBusy (hardware p T q s) fuel h = some y) ∧ Ready p y.system d := by
  induction n using Nat.strong_induction_on generalizing h with
  | _ n ih =>
      rcases Nat.lt_or_ge (h.gaps 0) n with hless | hge
      · have hnow : busy (h.next p T).port = true := hbusy _ hless
        have hsplit (k : ℕ) : (idle p T)^[k] (idle p T (h.next p T)) =
            (idle p T)^[k + (h.gaps 0 + 1)] h.system := by
          rw [Function.iterate_add_apply, Function.iterate_succ_apply']
          rfl
        obtain ⟨y, hwait, hy⟩ := ih (n - (h.gaps 0 + 1)) (by omega)
          (h := ⟨idle p T (h.next p T), fun n ↦ h.gaps (n + 1)⟩) (by
            intro k hk
            rw [hsplit]
            exact hbusy _ (by omega)) (by
            rw [hsplit, Nat.sub_add_cancel hless]
            exact hready)
        refine ⟨y, ?_, hy⟩
        intro fuel hfuel
        obtain ⟨fuel, rfl⟩ := Nat.exists_eq_succ_of_ne_zero (Nat.ne_zero_of_lt hfuel)
        have hrest := hwait fuel (by omega)
        simp only [waitWhileBusy, hardware_load_busy, hnow, if_true, Option.bind_eq_bind,
          Option.bind_some]
        exact hrest
      · have hnext : Ready p (h.next p T) d := by
          have hlater := hready.iterate (T := T) (h.gaps 0 - n)
          rwa [← Function.iterate_add_apply, Nat.sub_add_cancel hge] at hlater
        refine ⟨⟨idle p T (h.next p T), fun n ↦ h.gaps (n + 1)⟩, ?_, hnext.idle⟩
        intro fuel hfuel
        obtain ⟨fuel, rfl⟩ := Nat.exists_eq_succ_of_ne_zero (Nat.ne_zero_of_lt hfuel)
        simp only [waitWhileBusy, hardware_load_busy, hnext.not_busy, Option.bind_eq_bind,
          Option.bind_some]
        rfl

/-- The loop ends after a transfer. -/
theorem hardware_wait_transfer {y : System} {l : List Event} (hbusy : Busy h.system)
    (hlogged : Clocked.Logged (idle p T) events Busy h.system l y) (hready : Ready p y d) :
    ∃ z n, (∀ fuel ≥ n, waitWhileBusy (hardware p T q s) fuel h = some z) ∧
      Ready p z.system d := by
  obtain ⟨n, hend, -, hguarded⟩ := hlogged.iterate_of_guard hbusy
  obtain ⟨z, hwait, hz⟩ := hardware_wait (q := q) (s := s) (d := d) hguarded (by
    rw [hend]
    exact hready)
  exact ⟨z, n + 1, fun fuel hfuel ↦ hwait fuel hfuel, hz⟩

/-- Without a divider and a shift of the addresses the hardware is a device for
the drivers, wherever its index is. -/
theorem hardware_conforms (hp : p = ⟨0, 0⟩) :
    Conforms (hardware p T q s) (fun h d ↦ Ready p h.system d) (fun _ ↦ True) (fun _ ↦ True) where
  wait h d hready := hardware_wait (n := 0) (fun k hk ↦ absurd hk (Nat.not_lt_zero k)) hready
  load h d hready := by
    have hnext : Ready p (h.next p T) d := hready.iterate (h.gaps 0)
    refine ⟨_, _, hardware_load_nextByte, ?_, hnext.advance 0 0⟩
    rw [byte_setWidth, dataOut, hnext.buffer, hnext.index]
  store h d v hready := by
    have hnext : Ready p (h.next p T) d := hready.iterate (h.gaps 0)
    exact ⟨_, hardware_store_nextByte v, hnext.store 0 (byte v 0)⟩
  read h d sector hready _ _ := by
    have hnext : Ready p (h.next p T) d := hready.iterate (h.gaps 0)
    have haddress : sectorAddress p sector = sector := by
      subst hp
      exact BitVec.shiftLeft_zero sector
    obtain ⟨hbusy, y, hlogged, hy⟩ := hnext.read (T := T) (by rw [hp]) sector haddress 0
    obtain ⟨z, n, hwait, hz⟩ := hardware_wait_transfer (q := q) (s := s)
      (h := ⟨step p T ⟨true, 1, sector, 0⟩ (h.next p T), fun n ↦ h.gaps (n + 1)⟩) hbusy hlogged hy
    refine ⟨_, z, n, _, hardware_store_readSector sector, hwait, hz, ?_, rfl, trivial⟩
    intro i
    change d.sectors sector (d.index + i - d.index) = d.sectors sector i
    rw [BitVec.add_comm, BitVec.add_sub_cancel]
  write h d sector hready _ _ := by
    have hnext : Ready p (h.next p T) d := hready.iterate (h.gaps 0)
    have haddress : sectorAddress p sector = sector := by
      subst hp
      exact BitVec.shiftLeft_zero sector
    have hphase : ((h.next p T).port.counter + 1) % period p = 0 := by
      rw [period, hp, pow_zero, Nat.mod_one]
    obtain ⟨hbusy, y, hlogged, hy⟩ := hnext.write (T := T) hphase sector haddress 0
    obtain ⟨z, n, hwait, hz⟩ := hardware_wait_transfer (q := q) (s := s)
      (h := ⟨step p T ⟨true, 4, sector, 0⟩ (h.next p T), fun n ↦ h.gaps (n + 1)⟩) hbusy hlogged hy
    exact ⟨_, z, n, _, hardware_store_writeSector sector, hwait, hz, rfl, trivial⟩

end Conformance

/-! ## The emulator -/

def emulator : Ports Emulator.Machine where
  load address m :=
    let r := Emulator.bus m address .word false 0
    if r.status = 0 then some (r.data, r.state) else none
  store address data m :=
    let r := Emulator.bus m address .word true data
    if r.status = 0 then some r.state else none

/-- What the emulator holds; sectors past the end of the image do not count. -/
structure Holds (count : ℕ) (m : Emulator.Machine) (d : Contents) : Prop where
  index : m.sdcard.bufferIndex = d.index.toNat
  buffer : ∀ i : BitVec 9, m.sdcard.buffer i.toNat = d.buffer i
  sectorCount : m.sdcard.sectorCount = count
  sectors : ∀ s : Word, s.toNat < count → ∀ i : BitVec 9,
    m.sdcard.image (Emulator.SdCard.offset s + i.toNat) = d.sectors s i

section Emulator

open Emulator (Machine)
open Emulator.SdCard (offset)

variable {count : ℕ} {m : Machine} {d : Contents} {s : Word}

theorem emulator_wait {fuel : ℕ} (hfuel : fuel > 0) : waitWhileBusy emulator fuel m = some m := by
  obtain ⟨fuel, rfl⟩ := Nat.exists_eq_succ_of_ne_zero hfuel.ne'
  rfl

theorem emulator_load_nextByte :
    emulator.load sdcardNextByte m =
      some (m.sdcard.nextByte.1.setWidth 32, { m with sdcard := m.sdcard.nextByte.2 }) := rfl

theorem emulator_store_nextByte (v : Word) :
    emulator.store sdcardNextByte v m =
      some { m with sdcard := m.sdcard.storeNextByte (byte v 0) } := rfl

theorem emulator_store_readSector (hs : s.toNat < m.sdcard.sectorCount) :
    emulator.store sdcardReadSector s m =
      some { m with
        sdcard := { m.sdcard with
          buffer := fun i ↦
            if i < 512 then m.sdcard.image (offset s + i) else m.sdcard.buffer i } } := by
  have hbus : Emulator.bus m sdcardReadSector .word true s = _ := Emulator.bus_readSector m .word s
  rw [Emulator.SdCard.readSector, if_neg (Nat.not_le.mpr hs)] at hbus
  simp only [emulator, hbus, if_true]
  rfl

theorem emulator_store_writeSector (hs : s.toNat < m.sdcard.sectorCount) :
    emulator.store sdcardWriteSector s m =
      some { m with
        sdcard := { m.sdcard with
          image := fun a ↦
            if offset s ≤ a ∧ a < offset s + 512 then m.sdcard.buffer (a - offset s)
            else m.sdcard.image a } } := by
  have hbus : Emulator.bus m sdcardWriteSector .word true s = _ :=
    Emulator.bus_writeSector m .word s
  rw [Emulator.SdCard.writeSector, if_neg (Nat.not_le.mpr hs)] at hbus
  simp only [emulator, hbus, if_true]
  rfl

theorem Holds.advance (h : Holds count m d) :
    Holds count { m with sdcard := m.sdcard.advance } d.advance where
  index := by
    change (m.sdcard.bufferIndex + 1) % 512 = (d.index + 1).toNat
    rw [h.index, BitVec.toNat_add]
    rfl
  buffer := h.buffer
  sectorCount := h.sectorCount
  sectors := h.sectors

theorem Holds.store (h : Holds count m d) (v : Byte) :
    Holds count { m with sdcard := m.sdcard.storeNextByte v } (d.store v) where
  index := h.advance.index
  buffer i := by
    change Function.update m.sdcard.buffer m.sdcard.bufferIndex v i.toNat =
      Function.update d.buffer d.index v i
    rw [h.index]
    by_cases hi : i = d.index
    · rw [hi, Function.update_self, Function.update_self]
    · have hne : i.toNat ≠ d.index.toNat := fun heq ↦ hi (BitVec.eq_of_toNat_eq heq)
      rw [Function.update_of_ne hi, Function.update_of_ne hne, h.buffer]
  sectorCount := h.sectorCount
  sectors := h.sectors

/-- The buffer is filled from its start on. -/
theorem Holds.read (h : Holds count m d) (hs : s.toNat < count) :
    ∃ m', emulator.store sdcardReadSector s m = some m' ∧
      Holds count m' { d with buffer := d.sectors s } := by
  rw [← h.sectorCount] at hs
  refine ⟨_, emulator_store_readSector hs, h.index, ?_, h.sectorCount, h.sectors⟩
  intro i
  dsimp only
  rw [if_pos i.isLt, h.sectors s (by rwa [h.sectorCount] at hs)]

/-- The sector is written from the start of the buffer. -/
theorem Holds.write (h : Holds count m d) (hs : s.toNat < count) :
    ∃ m', emulator.store sdcardWriteSector s m = some m' ∧
      Holds count m' { d with sectors := Function.update d.sectors s d.buffer } := by
  rw [← h.sectorCount] at hs
  refine ⟨_, emulator_store_writeSector hs, h.index, h.buffer, h.sectorCount, ?_⟩
  intro s' hs' i
  have hi := i.isLt
  dsimp only
  by_cases heq : s' = s
  · subst heq
    rw [if_pos ⟨by omega, Nat.add_lt_add_left hi _⟩, Nat.add_sub_cancel_left, h.buffer,
      Function.update_self]
  · have hne : s'.toNat ≠ s.toNat := fun hcontra ↦ heq (BitVec.eq_of_toNat_eq hcontra)
    have houtside : ¬ (offset s ≤ offset s' + i.toNat ∧
        offset s' + i.toNat < offset s + 512) := by
      unfold offset Emulator.SdCard.sectorSize
      omega
    rw [if_neg houtside, Function.update_of_ne heq, h.sectors s' hs']

/-- The emulator is a device for the drivers as long as the index is 0 before
and after each call. -/
theorem emulator_conforms :
    Conforms emulator (Holds count) (fun i ↦ i = 0) (fun s ↦ s.toNat < count) where
  wait m d h := ⟨m, fun _ hfuel ↦ emulator_wait hfuel, h⟩
  load m d h := by
    refine ⟨_, _, emulator_load_nextByte, ?_, h.advance⟩
    rw [byte_setWidth, Emulator.SdCard.nextByte, h.index, h.buffer]
  store m d v h := ⟨_, emulator_store_nextByte v, h.store (byte v 0)⟩
  read m d s h hindex hs := by
    obtain ⟨m', hread, hm'⟩ := h.read hs
    refine ⟨m', m', 1, _, hread, fun _ hfuel ↦ emulator_wait hfuel, hm', ?_, rfl, hindex⟩
    intro i
    rw [hindex]
    exact congrArg (d.sectors s) (BitVec.zero_add i)
  write m d s h hindex hs := by
    obtain ⟨m', hwrite, hm'⟩ := h.write hs
    refine ⟨m', m', 1, _, hwrite, fun _ hfuel ↦ emulator_wait hfuel, hm', ?_, hindex⟩
    have hzero : (fun i ↦ d.buffer (d.index + i)) = d.buffer := by
      funext i
      rw [hindex]
      exact congrArg d.buffer (BitVec.zero_add i)
    rw [hzero]

end Emulator

/-- The image of a card whose sectors are as those of the system at rest. -/
def restedMachine : Emulator.Machine :=
  ⟨fun _ ↦ 0, ⟨fun a ↦ BitVec.ofNat 8 a, 16, fun _ ↦ 0, 0⟩, [], []⟩

theorem restedMachine_holds : Holds 16 restedMachine restedContents where
  index := rfl
  buffer _ := rfl
  sectorCount := rfl
  sectors s _ i := by
    apply BitVec.eq_of_toNat_eq
    change (BitVec.ofNat 8 (s.toNat * 512 + i.toNat)).toNat = (i.setWidth 8).toNat
    rw [BitVec.toNat_ofNat, BitVec.toNat_setWidth]
    omega

/-! ## The store -/

/-- Whatever the index, the buffer and the sectors are, how long the card lets
the host wait and when the accesses come: the calls of the drivers return what
a store of sectors returns and leave the sectors of the store on the card.  The
emulator returns the same. -/
theorem sectors_are_a_store {T : ℕ → SpiCard.Timing} {x : System} {d : Contents}
    (h : Ready ⟨0, 0⟩ x d) (gaps : ℕ → ℕ) (q : Ramio.Parts) (s : Ramio.Regs)
    (calls : List (Call Word Sector)) :
    (∃ y n, (∀ fuel ≥ n, serve (driver (hardware ⟨0, 0⟩ T q s) fuel) calls ⟨x, gaps⟩ =
        some ((perform Service.store calls d.sectors).1, y)) ∧
      y.system.engine.card.sectors = (perform Service.store calls d.sectors).2) ∧
    ∀ m : Emulator.Machine, m.sdcard.bufferIndex = 0 →
      (∀ sector : Word, sector.toNat < m.sdcard.sectorCount → ∀ i : BitVec 9,
        m.sdcard.image (Emulator.SdCard.offset sector + i.toNat) = d.sectors sector i) →
      (∀ c ∈ calls, c.block.toNat < m.sdcard.sectorCount) →
      ∃ m' n, ∀ fuel ≥ n, serve (driver emulator fuel) calls m =
        some ((perform Service.store calls d.sectors).1, m') := by
  constructor
  · obtain ⟨y, n, hserve, d', hready, hsectors⟩ := (hardware_conforms (T := T) (q := q) (s := s)
      rfl).serve (x := ⟨x, gaps⟩) h trivial calls fun _ _ ↦ trivial
    exact ⟨y, n, hserve, hready.sectors.trans hsectors⟩
  · intro m hindex himage hcalls
    have hholds : Holds m.sdcard.sectorCount m ⟨fun i ↦ m.sdcard.buffer i.toNat, 0, d.sectors⟩ :=
      ⟨hindex, fun _ ↦ rfl, rfl, himage⟩
    obtain ⟨m', n, hserve, -⟩ := emulator_conforms.serve hholds rfl calls hcalls
    exact ⟨m', n, hserve⟩

/-- Sector 5 is written and read back. -/
theorem sectors_are_a_store_rested :
    (∃ y n, ∀ fuel ≥ n,
      serve (driver (hardware ⟨0, 0⟩ prompt ⟨0, false, false, 0, false, 0, false, false, 0⟩
          ⟨0, 0, false, 0, false⟩) fuel)
        [.write 5 fun i ↦ i.setWidth 8 + 1, .read 5 fun _ ↦ 0, .read 6 fun _ ↦ 0]
        ⟨rested, fun n ↦ n⟩ = some ([fun i ↦ i.setWidth 8 + 1, fun i ↦ i.setWidth 8], y)) ∧
    ∃ m n, ∀ fuel ≥ n,
      serve (driver emulator fuel)
        [.write 5 fun i ↦ i.setWidth 8 + 1, .read 5 fun _ ↦ 0, .read 6 fun _ ↦ 0]
        restedMachine = some ([fun i ↦ i.setWidth 8 + 1, fun i ↦ i.setWidth 8], m) := by
  obtain ⟨⟨y, n, hserve, -⟩, hemulator⟩ := sectors_are_a_store (T := prompt)
    (rested_ready ⟨0, 0⟩) (fun n ↦ n) ⟨0, false, false, 0, false, 0, false, false, 0⟩
    ⟨0, 0, false, 0, false⟩
    [.write 5 fun i ↦ i.setWidth 8 + 1, .read 5 fun _ ↦ 0, .read 6 fun _ ↦ 0]
  obtain ⟨m, k, hserve'⟩ := hemulator restedMachine rfl restedMachine_holds.sectors
    (by simp [Call.block, restedMachine])
  have hresult : (perform Service.store
      [.write 5 fun i ↦ i.setWidth 8 + 1, .read 5 fun _ ↦ 0, .read 6 fun _ ↦ 0]
      restedContents.sectors).1 = [fun i ↦ i.setWidth 8 + 1, fun i ↦ i.setWidth 8] := by
    simp [perform, Service.store, restedContents]
  rw [hresult] at hserve hserve'
  exact ⟨⟨y, n, hserve⟩, m, k, hserve'⟩

end TangNano.SdDriver
