import TangNano.Core.Decode
import TangNano.Emulator.Bus
import TangNano.Emulator.Execution
import TangNano.Library.Clocked

/-!
# Even program counters

Neither the core nor the emulated CPU clears bit 0 of the target of a JALR.
Every other instruction adds an even offset, so the program counter stays even
exactly as long as the targets of JALR are even.
-/

namespace TangNano

open Decode

/-! ## Offsets -/

theorem even_add {a b : Word} (ha : 2 ∣ a.toNat) (hb : 2 ∣ b.toNat) : 2 ∣ (a + b).toNat := by
  rw [BitVec.toNat_add]
  omega

theorem even_append {k : ℕ} (v : BitVec k) : 2 ∣ (v ++ 0#1).toNat := by
  rw [BitVec.toNat_append]
  simp [Nat.shiftLeft_eq]

theorem even_jImm20 (w : Word) : 2 ∣ (Core.jImm20 w).toNat := even_append _

theorem even_bImm12 (w : Word) : 2 ∣ (Core.bImm12 w).toNat := even_append _

namespace Rv32i

section Ticks

variable {σ : Type*} {bus : Bus σ} {c : Cpu} {m : σ} {w : Word}

/-- Where a JALR goes. -/
def jalrTarget (regs : ℕ → Word) (instruction : Word) : Word :=
  reg regs (rs1From instruction) + iImm12From instruction

/-- If the next instruction is a JALR, its target is even. -/
def JalrEven (bus : Bus σ) (c : Cpu) (m : σ) : Prop :=
  let r := bus m c.pc .word false 0
  r.status = 0 → opcodeFrom r.data = opcodeJalr → 2 ∣ (jalrTarget (cleared c).regs r.data).toNat

/-- The CPU and what is behind the bus after `n` ticks. -/
def ticked (bus : Bus σ) (c : Cpu) (m : σ) : ℕ → Cpu × σ
  | 0 => (c, m)
  | n + 1 =>
      let x := ticked bus c m n
      ((tick bus x.1 x.2).cpu, (tick bus x.1 x.2).state)

theorem execute_jalr (h : opcodeFrom w = opcodeJalr) :
    (execute bus c m w).cpu.pc = jalrTarget c.regs w := by
  unfold execute
  rw [h]
  rfl

/-- An instruction that is not a JALR adds an even offset. -/
theorem execute_pc (h : opcodeFrom w ≠ opcodeJalr) :
    ∃ offset : Word, 2 ∣ offset.toNat ∧ (execute bus c m w).cpu.pc = c.pc + offset := by
  have hnext : ∃ offset : Word, 2 ∣ offset.toNat ∧ c.pc + 4 = c.pc + offset :=
    ⟨4, by decide, rfl⟩
  have hstay : ∃ offset : Word, 2 ∣ offset.toNat ∧ c.pc = c.pc + offset :=
    ⟨0, by decide, (BitVec.add_zero c.pc).symm⟩
  have hexecution := execution_execute bus c m w
  generalize execute bus c m w = t at hexecution
  cases hexecution with
  | jal => exact ⟨jImm20From w, by rw [jImm20From_eq]; exact even_jImm20 w, rfl⟩
  | jalr hjalr => exact absurd hjalr h
  | branch hbranch taken htaken =>
      cases taken with
      | false => exact hnext
      | true => exact ⟨bImm12From w, by rw [bImm12From_eq]; exact even_bImm12 w, rfl⟩
  | lui => exact hnext
  | logicalImm => exact hnext
  | logical => exact hnext
  | store => exact hnext
  | load => exact hnext
  | auipc => exact hnext
  | fence => exact hnext
  | ebreak => exact hstay
  | fails => exact hstay
  | refused => exact hstay

/-- A tick keeps the program counter even unless it jumps to an odd target. -/
theorem even_tick_iff (hpc : 2 ∣ c.pc.toNat) :
    2 ∣ (tick bus c m).cpu.pc.toNat ↔ JalrEven bus c m := by
  unfold JalrEven
  dsimp only
  by_cases hstatus : (bus m c.pc .word false 0).status = 0
  · have hfetch : bus m c.pc .word false 0 =
        ⟨0, (bus m c.pc .word false 0).data, (bus m c.pc .word false 0).state⟩ := by
      rw [← hstatus]
    rw [tick_of_fetch hfetch]
    by_cases hjalr : opcodeFrom (bus m c.pc .word false 0).data = opcodeJalr
    · rw [execute_jalr hjalr]
      exact ⟨fun h _ _ ↦ h, fun h ↦ h hstatus hjalr⟩
    · obtain ⟨offset, hoffset, hnext⟩ := @execute_pc _ bus (cleared c)
        (bus m c.pc .word false 0).state _ hjalr
      rw [hnext]
      exact iff_of_true (even_add hpc hoffset) fun _ h ↦ absurd h hjalr
  · have hfail : (tick bus c m).cpu.pc = c.pc := by
      unfold tick
      exact congrArg (fun t : Tick σ ↦ t.cpu.pc) (if_pos hstatus)
    rw [hfail]
    exact iff_of_true hpc fun h ↦ absurd h hstatus

end Ticks

end Rv32i

namespace Core

/-- If a JALR is executed in this cycle, its target is even. -/
def JalrEven (i : Input) (s : Regs) : Prop :=
  i.rstN = true → s.state = .cpuExecute → opcode s.ir = 0b11001 →
    2 ∣ (rs1DataOut s + iImm12 s.ir).toNat

section Steps

variable {p : Params} {i : Input} {s : Regs}

theorem cpuExecute_jalr (h : opcode s.ir = 0b11001) :
    (cpuExecute s).pc = rs1DataOut s + iImm12 s.ir := by
  unfold cpuExecute
  rw [h]
  rfl

theorem cpuExecute_pc (h : opcode s.ir ≠ 0b11001) :
    ∃ offset : Word, 2 ∣ offset.toNat ∧ (cpuExecute s).pc = s.pc + offset := by
  have hnext : ∃ offset : Word, 2 ∣ offset.toNat ∧ s.pc + 4 = s.pc + offset :=
    ⟨4, by decide, rfl⟩
  by_cases hstore : opcode s.ir = 0b01000
  · rw [cpuExecute_store s hstore]
    exact hnext
  by_cases hload : opcode s.ir = 0b00000
  · rw [cpuExecute_load s hload]
    exact hnext
  obtain ⟨execute, hcompleted, hexecute⟩ := exists_completed s hstore hload
  have hself : cpuExecute s = execute s.led := hexecute s.led
  rw [hself]
  cases hcompleted with
  | value => exact hnext
  | jal => exact ⟨jImm20 s.ir, even_jImm20 s.ir, rfl⟩
  | jalr hjalr => exact absurd hjalr h
  | branch => exact ⟨bImm12 s.ir, even_bImm12 s.ir, rfl⟩
  | next => exact hnext
  | error => exact hnext

/-- The other states leave the program counter or set it to 0. -/
theorem fsm_pc (h : s.state ≠ .cpuExecute) : (fsm p i s).pc = s.pc ∨ (fsm p i s).pc = 0 := by
  unfold fsm
  split
  · unfold bootInit
    split <;> exact .inl rfl
  · exact .inl rfl
  · unfold bootSend
    split <;> exact .inl rfl
  · exact .inl rfl
  · unfold bootReadData
    dsimp only
    split_ifs <;> exact .inl rfl
  · unfold bootStartWrite
    split <;> exact .inl rfl
  · unfold bootWrite
    split_ifs
    · exact .inl rfl
    · exact .inl rfl
    · exact .inr rfl
  · unfold cpuFetch
    split <;> exact .inl rfl
  · next hexecute => exact absurd hexecute h
  · unfold cpuStore
    split <;> exact .inl rfl
  · unfold cpuLoad
    split <;> exact .inl rfl

/-- A cycle keeps the program counter even unless it jumps to an odd target. -/
theorem even_step_iff (hpc : 2 ∣ s.pc.toNat) : 2 ∣ (step p i s).pc.toNat ↔ JalrEven i s := by
  unfold step JalrEven
  dsimp only
  by_cases hrst : i.rstN = true
  · rw [if_pos hrst]
    by_cases hexecute : s.state = .cpuExecute
    · have hfsm : fsm p i s = cpuExecute s := by
        unfold fsm
        rw [hexecute]
      rw [hfsm]
      by_cases hjalr : opcode s.ir = 0b11001
      · rw [cpuExecute_jalr hjalr]
        exact ⟨fun h _ _ _ ↦ h, fun h ↦ h hrst hexecute hjalr⟩
      · obtain ⟨offset, hoffset, hnext⟩ := cpuExecute_pc hjalr
        rw [hnext]
        exact iff_of_true (even_add hpc hoffset) fun _ _ h ↦ absurd h hjalr
    · refine iff_of_true ?_ fun _ h ↦ absurd h hexecute
      rcases fsm_pc (p := p) (i := i) hexecute with hsame | hzero
      · rw [hsame]
        exact hpc
      · rw [hzero]
        exact dvd_zero 2
  · rw [if_neg hrst]
    exact iff_of_true (dvd_zero 2) fun h ↦ absurd h hrst

end Steps

end Core

/-! ## Runs -/

/-- A property that every step keeps exactly under a condition holds up to step
`n` exactly if the condition has held before. -/
theorem holds_up_to_iff {P Q : ℕ → Prop} (hzero : P 0) (hstep : ∀ k, P k → (P (k + 1) ↔ Q k))
    (n : ℕ) : (∀ k ≤ n, P k) ↔ ∀ k < n, Q k := by
  constructor
  · intro h k hk
    exact (hstep k (h k hk.le)).mp (h (k + 1) hk)
  · intro h k hk
    induction k with
    | zero => exact hzero
    | succ k ih => exact (hstep k (ih (by omega))).mpr (h k hk)

/-- From program counter 0, on the emulated CPU and on the core. -/
theorem pc_even_iff {σ : Type*} (bus : Rv32i.Bus σ) {c : Rv32i.Cpu} (hc : c.pc = 0) (m : σ)
    (p : Core.Params) {s : Core.Regs} (hs : s.pc = 0) (input : ℕ → Core.Input) (n : ℕ) :
    ((∀ k ≤ n, 2 ∣ (Rv32i.ticked bus c m k).1.pc.toNat) ↔
      ∀ k < n, Rv32i.JalrEven bus (Rv32i.ticked bus c m k).1 (Rv32i.ticked bus c m k).2) ∧
    ((∀ k ≤ n, 2 ∣ (Clocked.state (Core.step p) s input k).pc.toNat) ↔
      ∀ k < n, Core.JalrEven (input k) (Clocked.state (Core.step p) s input k)) := by
  constructor
  · refine holds_up_to_iff ?_ (fun k h ↦ Rv32i.even_tick_iff h) n
    rw [Rv32i.ticked, hc]
    exact dvd_zero 2
  · refine holds_up_to_iff ?_ (fun k h ↦ Core.even_step_iff h) n
    rw [Clocked.state_zero, hs]
    exact dvd_zero 2

/-- RAM that begins with this instruction. -/
def programmed (instruction : Word) : Emulator.Machine where
  ram := Bytes.byte instruction
  sdcard := ⟨fun _ ↦ 0, 0, fun _ ↦ 0, 0⟩
  input := []
  output := []

/-- The core fetches this instruction. -/
def fetched (instruction : Word) (_ : ℕ) : Core.Input := ⟨true, instruction, true, false, true⟩

def fetching : Core.Regs := { Core.powerUp with state := .cpuFetch }

def started : Rv32i.Cpu := ⟨0, fun _ ↦ 0, false⟩

/-- `jalr x0, 8(x0)` -/
theorem pc_even_iff_jalr :
    (∀ k ≤ 1, 2 ∣ (Rv32i.ticked Emulator.bus started (programmed 0x00800067) k).1.pc.toNat) ∧
      ∀ k ≤ 2,
        2 ∣ (Clocked.state (Core.step ⟨0, 0, 0⟩) fetching (fetched 0x00800067) k).pc.toNat := by
  constructor
  · refine ((pc_even_iff Emulator.bus rfl _ ⟨0, 0, 0⟩ (s := fetching) rfl (fetched 0) 1).1).mpr ?_
    intro k hk
    obtain rfl : k = 0 := by omega
    intro _ _
    decide
  · refine ((pc_even_iff Emulator.bus (c := started) rfl (programmed 0) ⟨0, 0, 0⟩ rfl
      (fetched 0x00800067) 2).2).mpr ?_
    intro k hk _ hstate hopcode
    interval_cases k
    · exact absurd hstate (by decide)
    · decide

/-- `jalr x0, 1(x0)` -/
theorem pc_odd :
    ¬ 2 ∣ (Rv32i.ticked Emulator.bus started (programmed 0x00100067) 1).1.pc.toNat ∧
      ¬ 2 ∣ (Clocked.state (Core.step ⟨0, 0, 0⟩) fetching (fetched 0x00100067) 2).pc.toNat := by
  decide

end TangNano
