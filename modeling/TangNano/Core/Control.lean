import TangNano.Core.Model

/-!
# What an instruction leaves on the wires

`cpuExecute` asks for the next instruction, for a store or for a load, and can
only switch `led` off.
-/

namespace TangNano.Core

/-- The core on its way to fetch from `nextPc`. -/
def fetchNext (nextPc : Word) (s : Regs) : Regs :=
  { s with
    ramioEnable := true
    ramioReadType := 0b111
    ramioWriteType := 0
    ramioAddress := nextPc
    pc := nextPc
    state := .cpuFetch }

inductive Executed (s : Regs) : Regs → Prop
  | next (nextPc value : Word) (enable led : Bool) (hled : led = true → s.led = true) :
      Executed s
        { fetchNext nextPc s with rdDataIn := value, rdWriteEnable := enable, led := led }
  | store (hopcode : opcode s.ir = 0b01000) (writeType : BitVec 2)
      (address data : Word) (led : Bool)
      (hled : led = true → s.led = true) :
      Executed s
        { fetchNext (s.pc + 4) s with
          ramioReadType := 0
          ramioWriteType := writeType
          ramioAddress := address
          ramioDataIn := data
          state := .cpuStore
          led := led }
  | load (hopcode : opcode s.ir = 0b00000) (readType : BitVec 3) (address : Word) (led : Bool)
      (hread : readType ≠ 0) (hled : led = true → s.led = true) :
      Executed s
        { fetchNext (s.pc + 4) s with
          ramioReadType := readType
          ramioAddress := address
          state := .cpuLoad
          led := led }

section Executions

variable (s : Regs)

/-- The request of a store; an unknown width stores nothing and is an error. -/
theorem cpuExecute_store (h : opcode s.ir = 0b01000) :
    cpuExecute s =
      { fetchNext (s.pc + 4) s with
        ramioReadType := 0
        ramioWriteType := (storeType (funct3 s.ir)).getD 0
        ramioAddress := rs1DataOut s + sImm12 s.ir
        ramioDataIn := rs2DataOut s
        state := .cpuStore
        led := (storeType (funct3 s.ir)).isSome && s.led } := by
  unfold cpuExecute
  rw [h]
  cases storeType (funct3 s.ir) with
  | none => rfl
  | some w => rfl

/-- The request of a load; an unknown width loads a word and is an error. -/
theorem cpuExecute_load (h : opcode s.ir = 0b00000) :
    cpuExecute s =
      { fetchNext (s.pc + 4) s with
        ramioReadType := (loadType (funct3 s.ir)).getD 0b111
        ramioAddress := rs1DataOut s + iImm12 s.ir
        state := .cpuLoad
        led := (loadType (funct3 s.ir)).isSome && s.led } := by
  unfold cpuExecute
  rw [h]
  cases loadType (funct3 s.ir) with
  | none => rfl
  | some r => rfl

theorem loadType_ne_zero (f : BitVec 3) : (loadType f).getD 0b111 ≠ 0 := by
  revert f
  decide

theorem funct3_cases (f : BitVec 3) :
    f = 0 ∨ f = 1 ∨ f = 2 ∨ f = 3 ∨ f = 4 ∨ f = 5 ∨ f = 6 ∨ f = 7 := by
  revert f
  decide

theorem exists_logicalImmediate : ∃ v, logicalImmediate s = some v := by
  unfold logicalImmediate
  rcases funct3_cases (funct3 s.ir) with hf | hf | hf | hf | hf | hf | hf | hf <;>
    · rw [hf]
      exact ⟨_, rfl⟩

theorem exists_logical : ∃ v, logical s = some v := by
  unfold logical
  rcases funct3_cases (funct3 s.ir) with hf | hf | hf | hf | hf | hf | hf | hf <;>
    · rw [hf]
      exact ⟨_, rfl⟩

/-- What an instruction without a request of its own leads to, whether `led` is
on or off. -/
inductive Completed (s : Regs) : (Bool → Regs) → Prop
  | value (value : Word) :
      Completed s fun led ↦ writeBack (some value) (fetchNext (s.pc + 4) { s with led := led })
  | jal :
      Completed s fun led ↦
        writeBack (some (s.pc + 4)) (fetchNext (s.pc + jImm20 s.ir) { s with led := led })
  | jalr (hopcode : opcode s.ir = 0b11001) :
      Completed s fun led ↦
        writeBack (some (s.pc + 4))
          (fetchNext (rs1DataOut s + iImm12 s.ir) { s with led := led })
  | branch : Completed s fun led ↦ fetchNext (s.pc + bImm12 s.ir) { s with led := led }
  | next : Completed s fun led ↦ fetchNext (s.pc + 4) { s with led := led }
  | error : Completed s fun led ↦ error (fetchNext (s.pc + 4) { s with led := led })

theorem completed_cpuExecute (hstore : opcode s.ir ≠ 0b01000) (hload : opcode s.ir ≠ 0b00000) :
    Completed s fun led ↦ cpuExecute { s with led := led } := by
  obtain ⟨immediate, himmediate⟩ := exists_logicalImmediate s
  obtain ⟨result, hresult⟩ := exists_logical s
  change Completed s fun led ↦
    let next (nextPc : Word) := fetchNext nextPc { s with led := led }
    if opcode s.ir = 0b01101 then writeBack (some (uImm20 s.ir)) (next (s.pc + 4))
    else if opcode s.ir = 0b00100 then writeBack (logicalImmediate s) (next (s.pc + 4))
    else if opcode s.ir = 0b01100 then writeBack (logical s) (next (s.pc + 4))
    else if opcode s.ir = 0b01000 then _
    else if opcode s.ir = 0b00000 then _
    else if opcode s.ir = 0b00101 then
      writeBack (some (s.pc + uImm20 s.ir)) (next (s.pc + 4))
    else if opcode s.ir = 0b11011 then writeBack (some (s.pc + 4)) (next (s.pc + jImm20 s.ir))
    else if opcode s.ir = 0b11001 then
      writeBack (some (s.pc + 4)) (next (rs1DataOut s + iImm12 s.ir))
    else if opcode s.ir = 0b11000 then _
    else if opcode s.ir = 0b00011 then next (s.pc + 4)
    else error (next (s.pc + 4))
  simp only [himmediate, hresult, if_neg hstore, if_neg hload]
  by_cases hlui : opcode s.ir = 0b01101
  · simp only [if_pos hlui]
    exact .value _
  simp only [if_neg hlui]
  by_cases himm : opcode s.ir = 0b00100
  · simp only [if_pos himm]
    exact .value _
  simp only [if_neg himm]
  by_cases hlogical : opcode s.ir = 0b01100
  · simp only [if_pos hlogical]
    exact .value _
  simp only [if_neg hlogical]
  by_cases hauipc : opcode s.ir = 0b00101
  · simp only [if_pos hauipc]
    exact .value _
  simp only [if_neg hauipc]
  by_cases hjal : opcode s.ir = 0b11011
  · simp only [if_pos hjal]
    exact .jal
  simp only [if_neg hjal]
  by_cases hjalr : opcode s.ir = 0b11001
  · simp only [if_pos hjalr]
    exact .jalr hjalr
  simp only [if_neg hjalr]
  by_cases hbranch : opcode s.ir = 0b11000
  · have htaken (led : Bool) : branchTaken { s with led := led } = branchTaken s := rfl
    simp only [if_pos hbranch, htaken]
    cases branchTaken s with
    | none => exact .error
    | some taken =>
        cases taken with
        | true => exact .branch
        | false => exact .next
  simp only [if_neg hbranch]
  by_cases hfence : opcode s.ir = 0b00011
  · simp only [if_pos hfence]
    exact .next
  · simp only [if_neg hfence]
    exact .error

theorem exists_completed (hstore : opcode s.ir ≠ 0b01000) (hload : opcode s.ir ≠ 0b00000) :
    ∃ execute, Completed s execute ∧ ∀ led, cpuExecute { s with led := led } = execute led :=
  ⟨_, completed_cpuExecute s hstore hload, fun _ ↦ rfl⟩

theorem executed_cpuExecute : Executed s (cpuExecute s) := by
  by_cases hstore : opcode s.ir = 0b01000
  · rw [cpuExecute_store s hstore]
    exact .store hstore _ _ _ _ fun hled ↦ (Bool.and_eq_true_iff.mp hled).2
  by_cases hload : opcode s.ir = 0b00000
  · rw [cpuExecute_load s hload]
    exact .load hload _ _ _ (loadType_ne_zero _) fun hled ↦ (Bool.and_eq_true_iff.mp hled).2
  obtain ⟨execute, hcompleted, hexecute⟩ := exists_completed s hstore hload
  have hself : cpuExecute s = execute s.led := hexecute s.led
  rw [hself]
  cases hcompleted with
  | value value => exact .next (s.pc + 4) value true s.led id
  | jal => exact .next (s.pc + jImm20 s.ir) (s.pc + 4) true s.led id
  | jalr => exact .next (rs1DataOut s + iImm12 s.ir) (s.pc + 4) true s.led id
  | branch => exact .next (s.pc + bImm12 s.ir) s.rdDataIn s.rdWriteEnable s.led id
  | next => exact .next (s.pc + 4) s.rdDataIn s.rdWriteEnable s.led id
  | error =>
      exact .next (s.pc + 4) s.rdDataIn s.rdWriteEnable false fun h ↦ absurd h Bool.false_ne_true

theorem Executed.led {s s' : Regs} (h : Executed s s') (hled : s'.led = true) : s.led = true := by
  cases h with
  | next nextPc value enable led hkept => exact hkept hled
  | store hopcode writeType address data led hkept => exact hkept hled
  | load hopcode readType address led hread hkept => exact hkept hled

end Executions

/-- Without a reset nothing switches `led` on. -/
theorem led_of_step {p : Params} {i : Input} {s : Regs} (hrun : i.rstN = true)
    (h : (step p i s).led = true) : s.led = true := by
  have hfsm : (fsm p i s).led = true := by simpa [step, hrun] using h
  cases hstate : s.state with
  | cpuExecute =>
      rw [fsm, hstate] at hfsm
      exact (executed_cpuExecute s).led hfsm
  | bootLoadCommandToSend => simpa [fsm, hstate, bootLoadCommandToSend] using hfsm
  | bootLoadAddressToSend => simpa [fsm, hstate, bootLoadAddressToSend] using hfsm
  | bootInit =>
      simp only [fsm, hstate, bootInit] at hfsm
      split at hfsm <;> exact hfsm
  | bootSend =>
      simp only [fsm, hstate, bootSend] at hfsm
      split at hfsm <;> exact hfsm
  | bootReadData =>
      simp only [fsm, hstate, bootReadData] at hfsm
      split_ifs at hfsm <;> exact hfsm
  | bootStartWrite =>
      simp only [fsm, hstate, bootStartWrite] at hfsm
      split at hfsm <;> exact hfsm
  | bootWrite =>
      simp only [fsm, hstate, bootWrite] at hfsm
      split_ifs at hfsm <;> exact hfsm
  | cpuFetch =>
      simp only [fsm, hstate, cpuFetch] at hfsm
      split at hfsm <;> exact hfsm
  | cpuStore =>
      simp only [fsm, hstate, cpuStore] at hfsm
      split at hfsm <;> exact hfsm
  | cpuLoad =>
      simp only [fsm, hstate, cpuLoad] at hfsm
      split at hfsm <;> exact hfsm

/-! ## Errors -/

/-- `cpuExecute` takes one of its error branches: it switches `led` off. -/
def erroneous (s : Regs) : Bool := !(cpuExecute { s with led := true }).led

/-- An error in a store or a load is an unknown width; any other one only leads
to the next instruction. -/
theorem erroneous_cases {s : Regs} (h : erroneous s = true) :
    (opcode s.ir = 0b01000 ∧ storeType (funct3 s.ir) = none) ∨
      (opcode s.ir = 0b00000 ∧ loadType (funct3 s.ir) = none) ∨
      (opcode s.ir ≠ 0b01000 ∧ opcode s.ir ≠ 0b00000 ∧
        cpuExecute s = error (fetchNext (s.pc + 4) s)) := by
  rw [erroneous, Bool.not_eq_true'] at h
  by_cases hstore : opcode s.ir = 0b01000
  · rw [cpuExecute_store { s with led := true } hstore] at h
    exact .inl ⟨hstore, by simpa using h⟩
  by_cases hload : opcode s.ir = 0b00000
  · rw [cpuExecute_load { s with led := true } hload] at h
    exact .inr (.inl ⟨hload, by simpa using h⟩)
  refine .inr (.inr ⟨hstore, hload, ?_⟩)
  obtain ⟨execute, hcompleted, hexecute⟩ := exists_completed s hstore hload
  have hself : cpuExecute s = execute s.led := hexecute s.led
  rw [hexecute true] at h
  rw [hself]
  cases hcompleted with
  | error => rfl
  | value => exact Bool.noConfusion h
  | jal => exact Bool.noConfusion h
  | jalr => exact Bool.noConfusion h
  | branch => exact Bool.noConfusion h
  | next => exact Bool.noConfusion h

end TangNano.Core
