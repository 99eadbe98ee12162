import TangNano.Core.Control
import TangNano.Core.Decode
import TangNano.Emulator.Execution

/-!
# One instruction on both sides

The emulated CPU runs on a memory that answers its bus calls at once.  For
every instruction it completes, `cpuExecute` either has the whole result or
leaves the access that is missing on the wires of `ramio`.
-/

namespace TangNano.Refinement

open TangNano.Core Rv32i Decode

structure Access where
  address : Word
  width : BusOpWidth
  isStore : Bool
  data : Word
deriving DecidableEq, Repr

/-- A memory that may refuse an access with a status other than 0.  A load
may change it, as a device does. -/
structure Memory (σ : Type*) where
  status : σ → Word → BusOpWidth → Bool → ℕ
  load : σ → Word → BusOpWidth → Word × σ
  store : σ → Word → BusOpWidth → Word → σ

/-- A memory with the accesses made so far. -/
structure Traced (σ : Type*) where
  memory : σ
  accesses : List Access

section Memories

variable {σ : Type*} (M : Memory σ)

def Memory.read (m : Traced σ) (address : Word) (width : BusOpWidth) : Word × Traced σ :=
  let r := M.load m.memory address width
  (r.1, ⟨r.2, m.accesses ++ [⟨address, width, false, 0⟩]⟩)

def Memory.write (m : Traced σ) (address : Word) (width : BusOpWidth) (data : Word) : Traced σ :=
  ⟨M.store m.memory address width (moved width data),
    m.accesses ++ [⟨address, width, true, moved width data⟩]⟩

/-- The memory behind the bus of the emulated CPU. -/
def Memory.bus : Bus (Traced σ) := fun m address width isStore data ↦
  let status := M.status m.memory address width isStore
  if status ≠ 0 then ⟨status, 0, m⟩
  else if isStore then ⟨0, data, M.write m address width data⟩
  else ⟨0, moved width (M.read m address width).1, (M.read m address width).2⟩

end Memories

/-! ## Execution -/

/-- What an instruction that succeeds does on both sides: write a register, only
move on, or leave a store or a load on the wires. -/
inductive Outcome {σ : Type*} (M : Memory σ) (c : Cpu) (m : Traced σ) (s : Regs) :
    Regs → Tick (Traced σ) → Prop
  | writes (value nextPc : Word) :
      Outcome M c m s { fetchNext nextPc s with rdDataIn := value, rdWriteEnable := true }
        (retire c m (rdFrom s.ir) value nextPc)
  | moves (nextPc : Word) : Outcome M c m s (fetchNext nextPc s) (jump c m nextPc)
  | stores (width : BusOpWidth) (address data : Word) :
      Outcome M c m s
        { fetchNext (c.pc + 4) s with
          ramioReadType := 0
          ramioWriteType := writeType width
          ramioAddress := address
          ramioDataIn := data
          state := .cpuStore }
        (jump c (M.write m address width data) (c.pc + 4))
  | loads (readType : BitVec 3) (address : Word) :
      Outcome M c m s
        { fetchNext (c.pc + 4) s with
          ramioReadType := readType
          ramioAddress := address
          state := .cpuLoad }
        (retire c (M.read m address (readWidth readType)).2 (rdFrom s.ir)
          (extend readType (M.read m address (readWidth readType)).1) (c.pc + 4))

section Execution

variable {σ : Type*} {M : Memory σ} {c : Cpu} {m : Traced σ} {s : Regs}

theorem Memory.bus_status {address data : Word} {width : BusOpWidth}
    {isStore : Bool} (h : (M.bus m address width isStore data).status = 0) :
    M.bus m address width isStore data =
      if isStore then ⟨0, data, M.write m address width data⟩
      else ⟨0, moved width (M.read m address width).1, (M.read m address width).2⟩ := by
  unfold Memory.bus at h ⊢
  dsimp only at h ⊢
  split
  · next hne => rw [if_pos hne] at h; exact absurd h hne
  · rfl

theorem outcome_lui (hpc : s.pc = c.pc) (hcode : opcodeFrom s.ir = opcodeLui) :
    Outcome M c m s (cpuExecute s) (retire c m (rdFrom s.ir) (uImm20From s.ir) (c.pc + 4)) := by
  have hcore : cpuExecute s = writeBack (some (uImm20 s.ir)) (fetchNext (s.pc + 4) s) := by
    unfold cpuExecute
    rw [opcode_of_opcodeFrom 0b0110111 hcode]
    rfl
  rw [hcore, hpc, uImm20From_eq]
  exact .writes (uImm20 s.ir) (c.pc + 4)

theorem outcome_logicalImm (hregs : SameRegs s.data c.regs) (hpc : s.pc = c.pc)
    (hcode : opcodeFrom s.ir = opcodeLogicalImm) {value : Word}
    (hvalue : logicalImm c.regs s.ir = .ok value) :
    Outcome M c m s (cpuExecute s) (retire c m (rdFrom s.ir) value (c.pc + 4)) := by
  have hcore : cpuExecute s = writeBack (logicalImmediate s) (fetchNext (s.pc + 4) s) := by
    unfold cpuExecute
    rw [opcode_of_opcodeFrom 0b0010011 hcode]
    rfl
  rw [hcore, hpc, logicalImmediate_eq hregs hvalue]
  exact .writes value (c.pc + 4)

theorem outcome_logical (hregs : SameRegs s.data c.regs) (hpc : s.pc = c.pc)
    (hcode : opcodeFrom s.ir = opcodeLogical) {value : Word}
    (hvalue : Rv32i.logical c.regs s.ir = .ok value) :
    Outcome M c m s (cpuExecute s) (retire c m (rdFrom s.ir) value (c.pc + 4)) := by
  have hcore : cpuExecute s = writeBack (Core.logical s) (fetchNext (s.pc + 4) s) := by
    unfold cpuExecute
    rw [opcode_of_opcodeFrom 0b0110011 hcode]
    rfl
  rw [hcore, hpc, logical_eq hregs hvalue]
  exact .writes value (c.pc + 4)

theorem cpuExecute_storeType (hcode : opcodeFrom s.ir = opcodeStore) {w : BitVec 2}
    (hw : storeType (funct3 s.ir) = some w) :
    cpuExecute s =
      { fetchNext (s.pc + 4) s with
        ramioReadType := 0
        ramioWriteType := w
        ramioAddress := rs1DataOut s + sImm12 s.ir
        ramioDataIn := rs2DataOut s
        state := .cpuStore } := by
  rw [Core.cpuExecute_store s (opcode_of_opcodeFrom 0b0100011 hcode), hw]
  rfl

theorem cpuExecute_loadType (hcode : opcodeFrom s.ir = opcodeLoad) {r : BitVec 3}
    (hr : loadType (funct3 s.ir) = some r) :
    cpuExecute s =
      { fetchNext (s.pc + 4) s with
        ramioReadType := r
        ramioAddress := rs1DataOut s + iImm12 s.ir
        state := .cpuLoad } := by
  rw [Core.cpuExecute_load s (opcode_of_opcodeFrom 0b0000011 hcode), hr]
  rfl

theorem outcome_store (hregs : SameRegs s.data c.regs) (hpc : s.pc = c.pc)
    (hcode : opcodeFrom s.ir = opcodeStore) {width : BusOpWidth} {base : ℕ}
    (hwidth : storeWidth (funct3From s.ir) = some (width, base)) :
    Outcome M c m s (cpuExecute s)
      (jump c (M.write m (reg c.regs (rs1From s.ir) + sImm12From s.ir) width
        (reg c.regs (rs2From s.ir))) (c.pc + 4)) := by
  rw [funct3From_eq] at hwidth
  rw [cpuExecute_storeType hcode (storeType_eq hwidth), hpc, hregs.rs1_eq,
    hregs.rs2_eq, sImm12From_eq]
  exact .stores width (rs1DataOut s + sImm12 s.ir) (rs2DataOut s)

theorem outcome_load (hregs : SameRegs s.data c.regs) (hpc : s.pc = c.pc)
    (hcode : opcodeFrom s.ir = opcodeLoad) {width : BusOpWidth} {base : ℕ} {f : Word → Word}
    (hwidth : loadWidth (funct3From s.ir) = some (width, base, f)) :
    Outcome M c m s (cpuExecute s)
      (retire c (M.read m (reg c.regs (rs1From s.ir) + iImm12From s.ir) width).2 (rdFrom s.ir)
        (f (moved width (M.read m (reg c.regs (rs1From s.ir) + iImm12From s.ir) width).1))
        (c.pc + 4)) := by
  rw [funct3From_eq] at hwidth
  obtain ⟨readType, htype, -, rfl, hextend⟩ := loadType_eq hwidth
  rw [cpuExecute_loadType hcode htype, hpc, hregs.rs1_eq, iImm12From_eq, hextend]
  exact .loads readType (rs1DataOut s + iImm12 s.ir)

theorem outcome_auipc (hpc : s.pc = c.pc) (hcode : opcodeFrom s.ir = opcodeAuipc) :
    Outcome M c m s (cpuExecute s)
      (retire c m (rdFrom s.ir) (c.pc + uImm20From s.ir) (c.pc + 4)) := by
  have hcore : cpuExecute s =
      writeBack (some (s.pc + uImm20 s.ir)) (fetchNext (s.pc + 4) s) := by
    unfold cpuExecute
    rw [opcode_of_opcodeFrom 0b0010111 hcode]
    rfl
  rw [hcore, hpc, uImm20From_eq]
  exact .writes (c.pc + uImm20 s.ir) (c.pc + 4)

theorem outcome_jal (hpc : s.pc = c.pc) (hcode : opcodeFrom s.ir = opcodeJal) :
    Outcome M c m s (cpuExecute s)
      (retire c m (rdFrom s.ir) (c.pc + 4) (c.pc + jImm20From s.ir)) := by
  have hcore : cpuExecute s =
      writeBack (some (s.pc + 4)) (fetchNext (s.pc + jImm20 s.ir) s) := by
    unfold cpuExecute
    rw [opcode_of_opcodeFrom 0b1101111 hcode]
    rfl
  rw [hcore, hpc, jImm20From_eq]
  exact .writes (c.pc + 4) (c.pc + jImm20 s.ir)

theorem outcome_jalr (hregs : SameRegs s.data c.regs) (hpc : s.pc = c.pc)
    (hcode : opcodeFrom s.ir = opcodeJalr) :
    Outcome M c m s (cpuExecute s)
      (retire c m (rdFrom s.ir) (c.pc + 4) (reg c.regs (rs1From s.ir) + iImm12From s.ir)) := by
  have hcore : cpuExecute s =
      writeBack (some (s.pc + 4)) (fetchNext (rs1DataOut s + iImm12 s.ir) s) := by
    unfold cpuExecute
    rw [opcode_of_opcodeFrom 0b1100111 hcode]
    rfl
  rw [hcore, hpc, hregs.rs1_eq, iImm12From_eq]
  exact .writes (c.pc + 4) (rs1DataOut s + iImm12 s.ir)

theorem outcome_branch (hregs : SameRegs s.data c.regs) (hpc : s.pc = c.pc)
    (hcode : opcodeFrom s.ir = opcodeBranch) {taken : Bool}
    (htaken : Rv32i.branchTaken c.regs s.ir = .ok taken) :
    Outcome M c m s (cpuExecute s)
      (jump c m (if taken then c.pc + bImm12From s.ir else c.pc + 4)) := by
  have hcore : cpuExecute s =
      fetchNext (if taken then s.pc + bImm12 s.ir else s.pc + 4) s := by
    unfold cpuExecute
    rw [opcode_of_opcodeFrom 0b1100011 hcode, branchTaken_eq hregs htaken]
    cases taken <;> rfl
  rw [hcore, hpc, bImm12From_eq]
  exact .moves (if taken then c.pc + bImm12 s.ir else c.pc + 4)

theorem outcome_fence (hpc : s.pc = c.pc) (hcode : opcodeFrom s.ir = opcodeFencePause) :
    Outcome M c m s (cpuExecute s) (jump c m (c.pc + 4)) := by
  have hcore : cpuExecute s = fetchNext (s.pc + 4) s := by
    unfold cpuExecute
    rw [opcode_of_opcodeFrom 0b0001111 hcode]
    rfl
  rw [hcore, hpc]
  exact .moves (c.pc + 4)

/-- Every instruction that the emulated CPU completes has the same outcome on
the core. -/
theorem outcome_of_execute (hregs : SameRegs s.data c.regs) (hpc : s.pc = c.pc)
    (hstatus : (execute M.bus c m s.ir).status = 0)
    (hrunning : (execute M.bus c m s.ir).cpu.isHalted = false) :
    Outcome M c m s (cpuExecute s) (execute M.bus c m s.ir) := by
  have hexecution := execution_execute M.bus c m s.ir
  generalize execute M.bus c m s.ir = t at hexecution hstatus hrunning
  cases hexecution with
  | lui hcode => exact outcome_lui hpc hcode
  | logicalImm hcode value hvalue => exact outcome_logicalImm hregs hpc hcode hvalue
  | logical hcode value hvalue => exact outcome_logical hregs hpc hcode hvalue
  | store hcode width base hwidth hserved =>
      rw [Memory.bus_status hserved]
      exact outcome_store hregs hpc hcode hwidth
  | load hcode width base extend hwidth hserved =>
      rw [Memory.bus_status hserved]
      exact outcome_load hregs hpc hcode hwidth
  | auipc hcode => exact outcome_auipc hpc hcode
  | jal hcode => exact outcome_jal hpc hcode
  | jalr hcode => exact outcome_jalr hregs hpc hcode
  | branch hcode taken htaken => exact outcome_branch hregs hpc hcode htaken
  | fence hcode => exact outcome_fence hpc hcode
  | ebreak => exact absurd hrunning Bool.noConfusion
  | fails status hfails => exact absurd hstatus hfails
  | refused address width isStore data base hrefused =>
      exact absurd (Nat.add_eq_zero_iff.mp hstatus).2 hrefused

end Execution

end TangNano.Refinement
