import TangNano.Emulator.Bus
import TangNano.Emulator.Execution

/-!
# Rejected instructions

A tick of the emulated CPU that returns an error, and a tick that halts, leave
the program counter, the registers and RAM alone.
-/

namespace TangNano.Rv32i

section Rejection

variable {σ ρ : Type*}

/-- RAM stays as it is when the bus refuses an access and when it serves a load. -/
def KeepsRam (bus : Bus σ) (ram : σ → ρ) : Prop :=
  ∀ (m : σ) (address : Word) (width : BusOpWidth) (isStore : Bool) (data : Word),
    (bus m address width isStore data).status ≠ 0 ∨ isStore = false →
      ram (bus m address width isStore data).state = ram m

/-- Register 0 is not looked at: every tick clears it. -/
structure Unchanged (ram : σ → ρ) (c : Cpu) (m : σ) (t : Tick σ) : Prop where
  pc : t.cpu.pc = c.pc
  regs : ∀ r, r ≠ 0 → t.cpu.regs r = c.regs r
  ram : ram t.state = ram m

/-- The instruction at the program counter is the EBREAK. -/
def FetchesEbreak (bus : Bus σ) (c : Cpu) (m : σ) : Prop :=
  (bus m c.pc .word false 0).status = 0 ∧ (bus m c.pc .word false 0).data = instructionEbreak

/-! ## What an instruction can do -/

/-- The CPU is left alone, and the bus has been called at most once, in vain. -/
def Rejects (bus : Bus σ) (c : Cpu) (m : σ) (t : Tick σ) : Prop :=
  t.cpu = c ∧
    (t.state = m ∨ ∃ address width isStore data,
      (bus m address width isStore data).status ≠ 0 ∧
        t.state = (bus m address width isStore data).state)

theorem rejects_fail (bus : Bus σ) (status : ℕ) (c : Cpu) (m : σ) :
    Rejects bus c m (fail status c m) := ⟨rfl, .inl rfl⟩

theorem rejects_bus {bus : Bus σ} {m : σ} {address : Word} {width : BusOpWidth} {isStore : Bool}
    {data : Word} (h : (bus m address width isStore data).status ≠ 0) (status : ℕ) (c : Cpu) :
    Rejects bus c m (fail status c (bus m address width isStore data).state) :=
  ⟨rfl, .inr ⟨address, width, isStore, data, h, rfl⟩⟩

/-- An instruction succeeds without halting, is rejected, or is the EBREAK. -/
def Outcome (bus : Bus σ) (c : Cpu) (m : σ) (w : Word) (t : Tick σ) : Prop :=
  (t.status = 0 ∧ t.cpu.isHalted = c.isHalted) ∨ Rejects bus c m t ∨
    (w = instructionEbreak ∧ t = ⟨0, { c with isHalted := true }, m⟩)

theorem execute_outcome (bus : Bus σ) (c : Cpu) (m : σ) (w : Word) :
    Outcome bus c m w (execute bus c m w) := by
  have hexecution := execution_execute bus c m w
  generalize execute bus c m w = t at hexecution
  cases hexecution with
  | fails status hstatus => exact .inr (.inl (rejects_fail bus status c m))
  | refused address width isStore data base hstatus => exact .inr (.inl (rejects_bus hstatus _ c))
  | ebreak hword => exact .inr (.inr ⟨hword, rfl⟩)
  | lui => exact .inl ⟨rfl, rfl⟩
  | logicalImm => exact .inl ⟨rfl, rfl⟩
  | logical => exact .inl ⟨rfl, rfl⟩
  | store => exact .inl ⟨rfl, rfl⟩
  | load => exact .inl ⟨rfl, rfl⟩
  | auipc => exact .inl ⟨rfl, rfl⟩
  | jal => exact .inl ⟨rfl, rfl⟩
  | jalr => exact .inl ⟨rfl, rfl⟩
  | branch => exact .inl ⟨rfl, rfl⟩
  | fence => exact .inl ⟨rfl, rfl⟩

theorem execute_ebreak (bus : Bus σ) (c : Cpu) (m : σ) :
    execute bus c m instructionEbreak = ⟨0, { c with isHalted := true }, m⟩ := by
  have hopcode : opcodeFrom instructionEbreak = opcodeSystem := by decide
  unfold execute
  rw [hopcode]
  simp [opcodeLui, opcodeLogicalImm, opcodeLogical, opcodeStore, opcodeLoad, opcodeAuipc, opcodeJal,
    opcodeJalr, opcodeBranch, opcodeFencePause, opcodeSystem]

@[simp] theorem cleared_isHalted (c : Cpu) : (cleared c).isHalted = c.isHalted := rfl

theorem cleared_regs (c : Cpu) {r : ℕ} (h : r ≠ 0) : (cleared c).regs r = c.regs r :=
  Function.update_of_ne h ..

@[simp] theorem cleared_cleared (c : Cpu) : cleared (cleared c) = cleared c := by
  simp [cleared]

/-! ## What a tick can do -/

/-- The two places at which a tick can fail. -/
theorem tick_cases (bus : Bus σ) (c : Cpu) (m : σ) :
    ((bus m c.pc .word false 0).status ≠ 0 ∧
        tick bus c m = fail (1000 + (bus m c.pc .word false 0).status) (cleared c)
          (bus m c.pc .word false 0).state) ∨
      ((bus m c.pc .word false 0).status = 0 ∧
        tick bus c m = execute bus (cleared c) (bus m c.pc .word false 0).state
          (bus m c.pc .word false 0).data) := by
  unfold tick
  dsimp only
  rw [cleared_pc]
  by_cases hstatus : (bus m c.pc .word false 0).status = 0
  · exact .inr ⟨hstatus, if_neg (not_not.mpr hstatus)⟩
  · exact .inl ⟨hstatus, if_pos hstatus⟩

theorem tick_ebreak {bus : Bus σ} {c : Cpu} {m : σ} (h : FetchesEbreak bus c m) :
    tick bus c m = ⟨0, { cleared c with isHalted := true }, (bus m c.pc .word false 0).state⟩ := by
  obtain ⟨hstatus, hdata⟩ := h
  rcases tick_cases bus c m with ⟨hfail, -⟩ | ⟨-, heq⟩
  · exact absurd hstatus hfail
  · rw [heq, hdata, execute_ebreak]

variable {bus : Bus σ} {ram : σ → ρ} {c : Cpu} {m : σ}

theorem Unchanged.of_cleared {t : Tick σ} (hcpu : t.cpu = cleared c) (hram : ram t.state = ram m) :
    Unchanged ram c m t := by
  refine ⟨?_, ?_, hram⟩
  · rw [hcpu, cleared_pc]
  · intro r hr
    rw [hcpu, cleared_regs c hr]

/-- A rejected instruction has changed neither the CPU nor RAM. -/
theorem Rejects.unchanged {m' : σ} {t : Tick σ} (hbus : KeepsRam bus ram) (hram : ram m' = ram m)
    (h : Rejects bus (cleared c) m' t) : Unchanged ram c m t ∧ t.cpu.isHalted = c.isHalted := by
  obtain ⟨hcpu, hstate⟩ := h
  refine ⟨Unchanged.of_cleared hcpu ?_, ?_⟩
  · rcases hstate with hstate | ⟨address, width, isStore, data, hstatus, hstate⟩
    · rw [hstate, hram]
    · rw [hstate, hbus m' address width isStore data (.inl hstatus), hram]
  · rw [hcpu, cleared_isHalted]

theorem tick_rejected (hbus : KeepsRam bus ram) (h : (tick bus c m).status ≠ 0) :
    Unchanged ram c m (tick bus c m) ∧ (tick bus c m).cpu.isHalted = c.isHalted := by
  have hfetch := hbus m c.pc .word false 0 (.inr rfl)
  rcases tick_cases bus c m with ⟨-, heq⟩ | ⟨-, heq⟩
  · rw [heq]
    exact ⟨Unchanged.of_cleared rfl hfetch, rfl⟩
  · rw [heq] at h ⊢
    rcases execute_outcome bus (cleared c) (bus m c.pc .word false 0).state
      (bus m c.pc .word false 0).data with ⟨hstatus, -⟩ | hrejects | ⟨-, hebreak⟩
    · exact absurd hstatus h
    · exact hrejects.unchanged hbus hfetch
    · rw [hebreak] at h
      exact absurd rfl h

/-- Nothing else halts the CPU. -/
theorem fetchesEbreak_of_isHalted (hrunning : c.isHalted = false)
    (hhalted : (tick bus c m).cpu.isHalted = true) : FetchesEbreak bus c m := by
  have hcleared : (cleared c).isHalted ≠ true := Bool.eq_false_iff.mp hrunning
  rcases tick_cases bus c m with ⟨-, heq⟩ | ⟨hstatus, heq⟩
  · rw [heq] at hhalted
    exact absurd hhalted hcleared
  · rw [heq] at hhalted
    rcases execute_outcome bus (cleared c) (bus m c.pc .word false 0).state
      (bus m c.pc .word false 0).data with ⟨-, hsame⟩ | hrejects | ⟨hebreak, -⟩
    · exact absurd (hsame.symm.trans hhalted) hcleared
    · rw [hrejects.1] at hhalted
      exact absurd hhalted hcleared
    · exact ⟨hstatus, hebreak⟩

theorem tick_halted (hbus : KeepsRam bus ram) (h : FetchesEbreak bus c m) :
    (tick bus c m).status = 0 ∧ (tick bus c m).cpu.isHalted = true ∧
      Unchanged ram c m (tick bus c m) := by
  rw [tick_ebreak h]
  refine ⟨rfl, rfl, ⟨rfl, ?_, hbus m c.pc .word false 0 (.inr rfl)⟩⟩
  intro r hr
  exact cleared_regs c hr

/-- The CPU that an EBREAK leaves is the one that a second EBREAK leaves. -/
theorem tick_again (h : FetchesEbreak bus c m)
    (hagain : FetchesEbreak bus (tick bus c m).cpu (tick bus c m).state) :
    tick bus (tick bus c m).cpu (tick bus c m).state =
      { tick bus c m with
        state := (bus (tick bus c m).state c.pc .word false 0).state } := by
  rw [tick_ebreak hagain]
  rw [tick_ebreak h]
  simp [cleared]

/-- What rejected and halting ticks do. -/
structure TickFrame (bus : Bus σ) (ram : σ → ρ) (c : Cpu) (m : σ) : Prop where
  rejected : (tick bus c m).status ≠ 0 →
    Unchanged ram c m (tick bus c m) ∧ (tick bus c m).cpu.isHalted = c.isHalted
  onlyEbreak : c.isHalted = false → (tick bus c m).cpu.isHalted = true → FetchesEbreak bus c m
  halted : FetchesEbreak bus c m →
    (tick bus c m).status = 0 ∧ (tick bus c m).cpu.isHalted = true ∧
      Unchanged ram c m (tick bus c m)
  again : FetchesEbreak bus c m → FetchesEbreak bus (tick bus c m).cpu (tick bus c m).state →
    let t := tick bus (tick bus c m).cpu (tick bus c m).state
    t.status = (tick bus c m).status ∧ t.cpu = (tick bus c m).cpu ∧
      ram t.state = ram (tick bus c m).state

theorem tickFrame_of_keepsRam (hbus : KeepsRam bus ram) (c : Cpu) (m : σ) :
    TickFrame bus ram c m where
  rejected := tick_rejected hbus
  onlyEbreak := fetchesEbreak_of_isHalted
  halted := tick_halted hbus
  again h hagain := by
    rw [tick_again h hagain]
    exact ⟨rfl, rfl, hbus _ c.pc .word false 0 (.inr rfl)⟩

end Rejection

end TangNano.Rv32i

namespace TangNano.Emulator

open Rv32i

/-! ## On the bus of the emulator -/

theorem getchar_ram (m : Machine) : (getchar m).2.ram = m.ram := by
  unfold getchar
  cases m.input with
  | nil => rfl
  | cons ch rest => rfl

theorem load_ram (address : Word) (width : BusOpWidth) (data : Word) (m : Machine) :
    (load address width data m).state.ram = m.ram := by
  unfold load
  split_ifs <;> first | rfl | apply getchar_ram

/-- A store that is refused has not been carried out. -/
theorem store_refused {address : Word} {width : BusOpWidth} {data : Word} {m : Machine}
    (h : (store address width data m).status ≠ 0) : (store address width data m).state = m := by
  unfold store at h ⊢
  split_ifs at h ⊢ <;> first | rfl | exact absurd rfl h | skip
  · cases hwrite : m.sdcard.writeSector data with
    | none => rfl
    | some sdcard =>
        rw [hwrite] at h
        exact absurd rfl h
  · cases hread : m.sdcard.readSector data with
    | none => rfl
    | some sdcard =>
        rw [hread] at h
        exact absurd rfl h

theorem keepsRam_bus : KeepsRam bus Machine.ram := by
  intro m address width isStore data h
  unfold bus at h ⊢
  by_cases hend : address < ioAddressesStart ∧ (ramAddress address).toNat + 4 > memoryEnd
  · rw [if_pos hend]
  rw [if_neg hend] at h ⊢
  cases isStore with
  | false => exact load_ram address width data m
  | true =>
      rcases h with hrefused | hload
      · rw [if_pos rfl] at hrefused ⊢
        rw [store_refused hrefused]
      · cases hload

theorem setWidth_ne_ebreak (ch : Byte) : ch.setWidth 32 ≠ instructionEbreak := by
  intro h
  have hlt := ch.isLt
  rw [← BitVec.toNat_inj, BitVec.toNat_setWidth, instructionEbreak] at h
  simp only [BitVec.reduceToNat] at h
  omega

theorem toSerial_ne_ebreak (ch : Option Byte) : toSerial ch ≠ instructionEbreak := by
  cases ch with
  | none => decide
  | some ch =>
      unfold toSerial
      dsimp only
      split_ifs
      · decide
      · decide
      · exact setWidth_ne_ebreak ch

/-- No port hands out the EBREAK, and a load from RAM changes nothing. -/
theorem load_ebreak {address : Word} {width : BusOpWidth} {m : Machine}
    (h : (load address width 0 m).data = instructionEbreak) :
    (load address width 0 m).state = m := by
  unfold load at h ⊢
  split_ifs at h ⊢ <;> first | rfl | skip
  · exact absurd h (setWidth_ne_ebreak _)
  · exact absurd h (toSerial_ne_ebreak _)

theorem bus_ebreak {c : Cpu} {m : Machine} (h : FetchesEbreak bus c m) :
    (bus m c.pc .word false 0).state = m := by
  obtain ⟨-, hdata⟩ := h
  unfold bus at hdata ⊢
  by_cases hend : c.pc < ioAddressesStart ∧ (ramAddress c.pc).toNat + 4 > memoryEnd
  · rw [if_pos hend]
  · rw [if_neg hend] at hdata ⊢
    exact load_ebreak hdata

/-- Another tick finds the same EBREAK. -/
theorem fetchesEbreak_again {c : Cpu} {m : Machine} (h : FetchesEbreak bus c m) :
    FetchesEbreak bus (tick bus c m).cpu (tick bus c m).state := by
  rw [tick_ebreak h, bus_ebreak h]
  exact h

/-- On any bus that keeps RAM, rejected and halting ticks change nothing; on the bus
of the emulator, which keeps it, a halted CPU stays as it is for good. -/
theorem rejected_tick_changes_nothing {σ ρ : Type*} {bus : Bus σ} {ram : σ → ρ}
    (hbus : KeepsRam bus ram) :
    (∀ (c : Cpu) (m : σ), TickFrame bus ram c m) ∧
      ∀ (c : Cpu) (m : Machine), TickFrame Emulator.bus Machine.ram c m ∧
        (FetchesEbreak Emulator.bus c m →
          let t := tick Emulator.bus c m
          tick Emulator.bus t.cpu t.state = t) := by
  refine ⟨tickFrame_of_keepsRam hbus, fun c m ↦ ⟨tickFrame_of_keepsRam keepsRam_bus c m, ?_⟩⟩
  intro h
  dsimp only
  rw [tick_again h (fetchesEbreak_again h), tick_ebreak h, bus_ebreak h]
  dsimp only
  rw [bus_ebreak h]

theorem rejected_tick_changes_nothing_on_bus :
    TickFrame Emulator.bus Machine.ram ⟨0, fun _ ↦ 0, false⟩
      ⟨fun _ ↦ 0xff, ⟨fun _ ↦ 0, 0, fun _ ↦ 0, 0⟩, [], []⟩ :=
  (rejected_tick_changes_nothing keepsRam_bus).1 _ _

/-- A bus that keeps RAM only when it fails: each load sets the one bit there is. -/
theorem rejected_tick_changes_ram :
    ¬ ∀ (bus : Bus Bool),
      (∀ m address width isStore data, (bus m address width isStore data).status ≠ 0 →
        (bus m address width isStore data).state = m) →
      ∀ (c : Cpu) (m : Bool), (tick bus c m).status ≠ 0 → (tick bus c m).state = m := by
  intro h
  have hset := h (fun _ _ _ _ _ ↦ ⟨0, 0, true⟩) (fun _ _ _ _ _ hstatus ↦ absurd rfl hstatus)
    ⟨0, fun _ ↦ 0, false⟩ false (by decide)
  exact absurd hset (by decide)

end TangNano.Emulator
