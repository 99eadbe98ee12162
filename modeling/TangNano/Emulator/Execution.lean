import TangNano.Emulator.Rv32i

/-!
# What an instruction does

The outcomes of `execute`: one for each kind of instruction that succeeds, and
two for those that fail, without and with a call of the bus.
-/

namespace TangNano.Rv32i

/-! ## Errors -/

theorem logicalImm_status {regs : ℕ → Word} {w : Word} {status : ℕ}
    (h : logicalImm regs w = .error status) : status ≠ 0 := by
  rintro rfl
  revert h
  unfold logicalImm
  dsimp only
  repeat' split
  all_goals simp

theorem logical_status {regs : ℕ → Word} {w : Word} {status : ℕ}
    (h : logical regs w = .error status) : status ≠ 0 := by
  rintro rfl
  revert h
  unfold logical
  dsimp only
  repeat' split
  all_goals simp

theorem branchTaken_status {regs : ℕ → Word} {w : Word} {status : ℕ}
    (h : branchTaken regs w = .error status) : status ≠ 0 := by
  rintro rfl
  revert h
  unfold branchTaken
  dsimp only
  repeat' split
  all_goals simp

section Executions

variable {σ : Type*}

/-- The tick that an instruction leads to. -/
inductive Execution (bus : Bus σ) (c : Cpu) (m : σ) (w : Word) : Tick σ → Prop
  | lui (hcode : opcodeFrom w = opcodeLui) :
      Execution bus c m w (retire c m (rdFrom w) (uImm20From w) (c.pc + 4))
  | logicalImm (hcode : opcodeFrom w = opcodeLogicalImm) (value : Word)
      (hvalue : logicalImm c.regs w = .ok value) :
      Execution bus c m w (retire c m (rdFrom w) value (c.pc + 4))
  | logical (hcode : opcodeFrom w = opcodeLogical) (value : Word)
      (hvalue : logical c.regs w = .ok value) :
      Execution bus c m w (retire c m (rdFrom w) value (c.pc + 4))
  | store (hcode : opcodeFrom w = opcodeStore) (width : BusOpWidth) (base : ℕ)
      (hwidth : storeWidth (funct3From w) = some (width, base))
      (hstatus : (bus m (reg c.regs (rs1From w) + sImm12From w) width true
        (reg c.regs (rs2From w))).status = 0) :
      Execution bus c m w
        (jump c (bus m (reg c.regs (rs1From w) + sImm12From w) width true
          (reg c.regs (rs2From w))).state (c.pc + 4))
  | load (hcode : opcodeFrom w = opcodeLoad) (width : BusOpWidth) (base : ℕ)
      (extend : Word → Word) (hwidth : loadWidth (funct3From w) = some (width, base, extend))
      (hstatus : (bus m (reg c.regs (rs1From w) + iImm12From w) width false 0).status = 0) :
      Execution bus c m w
        (retire c (bus m (reg c.regs (rs1From w) + iImm12From w) width false 0).state (rdFrom w)
          (extend (bus m (reg c.regs (rs1From w) + iImm12From w) width false 0).data) (c.pc + 4))
  | auipc (hcode : opcodeFrom w = opcodeAuipc) :
      Execution bus c m w (retire c m (rdFrom w) (c.pc + uImm20From w) (c.pc + 4))
  | jal (hcode : opcodeFrom w = opcodeJal) :
      Execution bus c m w (retire c m (rdFrom w) (c.pc + 4) (c.pc + jImm20From w))
  | jalr (hcode : opcodeFrom w = opcodeJalr) :
      Execution bus c m w
        (retire c m (rdFrom w) (c.pc + 4) (reg c.regs (rs1From w) + iImm12From w))
  | branch (hcode : opcodeFrom w = opcodeBranch) (taken : Bool)
      (htaken : branchTaken c.regs w = .ok taken) :
      Execution bus c m w (jump c m (if taken then c.pc + bImm12From w else c.pc + 4))
  | fence (hcode : opcodeFrom w = opcodeFencePause) : Execution bus c m w (jump c m (c.pc + 4))
  | ebreak (hword : w = instructionEbreak) :
      Execution bus c m w ⟨0, { c with isHalted := true }, m⟩
  | fails (status : ℕ) (hstatus : status ≠ 0) : Execution bus c m w (fail status c m)
  | refused (address : Word) (width : BusOpWidth) (isStore : Bool) (data : Word) (base : ℕ)
      (hstatus : (bus m address width isStore data).status ≠ 0) :
      Execution bus c m w
        (fail (base + (bus m address width isStore data).status) c
          (bus m address width isStore data).state)

theorem execution_ite {bus : Bus σ} {c : Cpu} {m : σ} {w : Word} {p : Prop} [Decidable p]
    {t t' : Tick σ} (hpos : p → Execution bus c m w t) (hneg : ¬ p → Execution bus c m w t') :
    Execution bus c m w (if p then t else t') := iteInduction hpos hneg

theorem execution_execute (bus : Bus σ) (c : Cpu) (m : σ) (w : Word) :
    Execution bus c m w (execute bus c m w) := by
  unfold execute
  dsimp only
  apply execution_ite .lui
  intro _
  apply execution_ite
  · intro himm
    cases hvalue : logicalImm c.regs w with
    | ok value => exact .logicalImm himm value hvalue
    | error status => exact .fails status (logicalImm_status hvalue)
  intro _
  apply execution_ite
  · intro hlogical
    cases hvalue : logical c.regs w with
    | ok value => exact .logical hlogical value hvalue
    | error status => exact .fails status (logical_status hvalue)
  intro _
  apply execution_ite
  · intro hstore
    cases hwidth : storeWidth (funct3From w) with
    | none => exact .fails 6 (by decide)
    | some access =>
        obtain ⟨width, base⟩ := access
        apply execution_ite
        · exact .refused _ width true _ base
        · intro hserved
          exact .store hstore width base hwidth (not_not.mp hserved)
  intro _
  apply execution_ite
  · intro hload
    cases hwidth : loadWidth (funct3From w) with
    | none => exact .fails 7 (by decide)
    | some access =>
        obtain ⟨width, base, extend⟩ := access
        apply execution_ite
        · exact .refused _ width false 0 base
        · intro hserved
          exact .load hload width base extend hwidth (not_not.mp hserved)
  intro _
  apply execution_ite .auipc
  intro _
  apply execution_ite .jal
  intro _
  apply execution_ite .jalr
  intro _
  apply execution_ite
  · intro hbranch
    cases htaken : branchTaken c.regs w with
    | ok taken => exact .branch hbranch taken htaken
    | error status => exact .fails status (branchTaken_status htaken)
  intro _
  apply execution_ite .fence
  intro _
  apply execution_ite
  · intro _
    apply execution_ite
    · exact fun _ ↦ .fails 10 (by decide)
    · exact fun hebreak ↦ .ebreak (not_not.mp hebreak)
  · exact fun _ ↦ .fails 9 (by decide)

end Executions

end TangNano.Rv32i
