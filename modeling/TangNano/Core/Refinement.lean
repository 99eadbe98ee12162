import TangNano.Core.Execution
import TangNano.Library.Clocked

/-!
# The core executes what the emulated CPU executes

Both sides run on the same abstract memory.  It answers a bus call of the
emulated CPU at once and a request of the core after any number of cycles.
Between two retirements the core is fetching, executing, storing or loading;
each of these phases says how far the tick has come.
-/

namespace TangNano.Refinement

open TangNano.Core Rv32i Decode

structure System (σ : Type*) where
  core : Regs
  traced : Traced σ

/-- What the memory decides in a cycle: whether it answers a request, and what
is on the data wires when it does not. -/
structure Answer where
  ready : Bool
  idleData : Word
  flashMiso : Bool

/-- The width of a `ramio_write_type`. -/
def writeWidth (writeType : BitVec 2) : BusOpWidth :=
  if writeType = 0b01 then .byte else if writeType = 0b10 then .halfWord else .word

section Systems

variable {σ : Type*} (M : Memory σ)

/-- The memory's answer to the request on the core's wires. -/
def Memory.answer (s : Regs) (m : Traced σ) : Word × Traced σ :=
  if s.ramioWriteType ≠ 0 then
    (0, M.write m s.ramioAddress (writeWidth s.ramioWriteType) s.ramioDataIn)
  else
    let r := M.read m s.ramioAddress (readWidth s.ramioReadType)
    (extend s.ramioReadType r.1, r.2)

def System.completes (a : Answer) (x : System σ) : Bool := x.core.ramioEnable && a.ready

def System.input (a : Answer) (x : System σ) : Input where
  rstN := true
  ramioDataOut := if x.completes a then (M.answer x.core x.traced).1 else a.idleData
  ramioDataOutReady := x.completes a && x.core.ramioWriteType == 0
  ramioBusy := x.core.ramioEnable && !a.ready
  flashMiso := a.flashMiso

/-- One rising edge of the core and its memory. -/
def System.step (p : Params) (a : Answer) (x : System σ) : System σ where
  core := Core.step p (x.input M a) x.core
  traced := if x.completes a then (M.answer x.core x.traced).2 else x.traced

/-- The instructions retired in the first `t` cycles: an instruction retires
when the core returns to `CpuFetch`. -/
def retired (run : ℕ → System σ) : ℕ → ℕ
  | 0 => 0
  | t + 1 =>
      retired run t +
        if (run t).core.state ≠ .cpuFetch ∧ (run (t + 1)).core.state = .cpuFetch then 1 else 0

/-! ## Phases of an instruction -/

/-- The core requests the instruction at the emulated `pc`; the result of the
previous instruction may still be on its way into the register file. -/
structure Fetching (c : Cpu) (m : Traced σ) (x : System σ) : Prop where
  state : x.core.state = .cpuFetch
  enable : x.core.ramioEnable = true
  readType : x.core.ramioReadType = 7
  writeType : x.core.ramioWriteType = 0
  address : x.core.ramioAddress = c.pc
  pc : x.core.pc = c.pc
  led : x.core.led = true
  regs : ∀ r < 32, r ≠ 0 →
    Registers.step (rd x.core.ir) x.core.rdWriteEnable x.core.rdDataIn x.core.data r = c.regs r
  traced : x.traced = m

/-- The instruction has been fetched; no write to the register file is pending. -/
structure Fetched (c : Cpu) (m : Traced σ) (x : System σ) : Prop where
  led : x.core.led = true
  rdWriteEnable : x.core.rdWriteEnable = false
  regs : SameRegs x.core.data (cleared c).regs
  ir : x.core.ir = (M.bus m c.pc .word false 0).data

structure Executing (c : Cpu) (m : Traced σ) (x : System σ) : Prop extends
    Fetched M c m x where
  state : x.core.state = .cpuExecute
  enable : x.core.ramioEnable = false
  pc : x.core.pc = c.pc
  traced : x.traced = (M.bus m c.pc .word false 0).state

/-- The store on the wires is the rest of the tick. -/
structure Storing (c : Cpu) (m : Traced σ) (width : BusOpWidth) (x : System σ) : Prop extends
    Fetched M c m x where
  state : x.core.state = .cpuStore
  enable : x.core.ramioEnable = true
  writeType : x.core.ramioWriteType = Decode.writeType width
  pc : x.core.pc = c.pc + 4
  rest : tick M.bus c m =
    jump (cleared c) (M.write x.traced x.core.ramioAddress width x.core.ramioDataIn) (c.pc + 4)

/-- The load on the wires is the rest of the tick. -/
structure Loading (c : Cpu) (m : Traced σ) (x : System σ) : Prop extends
    Fetched M c m x where
  state : x.core.state = .cpuLoad
  enable : x.core.ramioEnable = true
  writeType : x.core.ramioWriteType = 0
  pc : x.core.pc = c.pc + 4
  rest : tick M.bus c m =
    retire (cleared c) (M.answer x.core x.traced).2 (rdFrom x.core.ir)
      (M.answer x.core x.traced).1 (c.pc + 4)

def InFlight (c : Cpu) (m : Traced σ) (x : System σ) : Prop :=
  Executing M c m x ∨ (∃ width, Storing M c m width x) ∨ Loading M c m x

end Systems

/-! ## One edge in each phase -/

section Phases

variable {σ : Type*} {M : Memory σ} {p : Params} {a : Answer} {c : Cpu} {m : Traced σ}
  {x : System σ}

variable (M p a) in
theorem System.step_core (hstate : x.core.state = .cpuFetch ∨ x.core.state = .cpuExecute ∨
      x.core.state = .cpuStore ∨ x.core.state = .cpuLoad) :
    (x.step M p a).core =
      { (match x.core.state with
          | .cpuFetch => cpuFetch (x.input M a) x.core
          | .cpuExecute => cpuExecute x.core
          | .cpuStore => cpuStore (x.input M a) x.core
          | _ => cpuLoad (x.input M a) x.core) with
        data := Registers.step (rd x.core.ir) x.core.rdWriteEnable
          x.core.rdDataIn x.core.data } := by
  rcases hstate with h | h | h | h <;>
    simp [System.step, Core.step, System.input, Core.fsm, h]

/-- The register file as it will be after the pending write. -/
theorem sameRegs_of_pending {data : RegisterFile} {regs : ℕ → Word}
    (h : ∀ r < 32, r ≠ 0 → data r = regs r) : SameRegs data (Function.update regs 0 0) where
  zero := Function.update_self ..
  pos r hr hne := by rw [Function.update_of_ne hne, h r hr hne]

theorem Fetching.wait (h : Fetching c m x) (ha : a.ready = false) :
    Fetching c m (x.step M p a) := by
  have hcompletes : x.completes a = false := by simp [System.completes, ha]
  have hcore : (x.step M p a).core = { cpuFetch (x.input M a) x.core with
      data := Registers.step (rd x.core.ir) x.core.rdWriteEnable x.core.rdDataIn x.core.data } := by
    rw [System.step_core M p a (.inl h.state), h.state]
  have hready : (x.input M a).ramioDataOutReady = false := by simp [System.input, hcompletes]
  simp only [cpuFetch, hready, Bool.false_eq_true, if_false] at hcore
  refine ⟨?_, ?_, ?_, ?_, ?_, ?_, ?_, ?_, ?_⟩
  · rw [hcore]; exact h.state
  · rw [hcore]; exact h.enable
  · rw [hcore]; exact h.readType
  · rw [hcore]; exact h.writeType
  · rw [hcore]; exact h.address
  · rw [hcore]; exact h.pc
  · rw [hcore]; exact h.led
  · rw [hcore]; exact h.regs
  · simp only [System.step, hcompletes]
    exact h.traced

theorem Fetching.receive (h : Fetching c m x) (ha : a.ready = true)
    (hok : (M.bus m c.pc .word false 0).status = 0) : Executing M c m (x.step M p a) := by
  have hcompletes : x.completes a = true := by simp [System.completes, h.enable, ha]
  have hcore : (x.step M p a).core = { cpuFetch (x.input M a) x.core with
      data := Registers.step (rd x.core.ir) x.core.rdWriteEnable x.core.rdDataIn x.core.data } := by
    rw [System.step_core M p a (.inl h.state), h.state]
  have hready : (x.input M a).ramioDataOutReady = true := by
    simp [System.input, hcompletes, h.writeType]
  have hanswer : M.answer x.core x.traced = M.read m c.pc .word := by
    simp [Memory.answer, h.writeType, h.readType, h.address, h.traced, readWidth, extend]
  simp only [cpuFetch, hready, if_true] at hcore
  have hbus := Memory.bus_status hok
  refine ⟨⟨?_, ?_, ?_, ?_⟩, ?_, ?_, ?_, ?_⟩
  · rw [hcore]; exact h.led
  · rw [hcore]
  · rw [hcore]; exact sameRegs_of_pending h.regs
  · rw [hcore, hbus]
    simp [System.input, hcompletes, hanswer, moved]
  · rw [hcore]
  · rw [hcore]
  · rw [hcore]; exact h.pc
  · rw [hbus]
    simp [System.step, hcompletes, hanswer]

/-- The tick whose instruction has been fetched executes what is in `ir`. -/
theorem Executing.tick_eq (h : Executing M c m x) (hok : (tick M.bus c m).status = 0) :
    tick M.bus c m = execute M.bus (cleared c) x.traced x.core.ir := by
  unfold tick at hok ⊢
  dsimp only at hok ⊢
  rw [cleared_pc] at hok ⊢
  split at hok
  · next hrefused => exact absurd (Nat.add_eq_zero_iff.mp hok).2 hrefused
  · next hserved =>
      rw [if_neg hserved, h.ir, h.traced]

theorem tick_fetched (hok : (tick M.bus c m).status = 0) :
    (M.bus m c.pc .word false 0).status = 0 := by
  by_contra hrefused
  unfold tick at hok
  dsimp only at hok
  rw [cleared_pc, if_pos hrefused] at hok
  exact hrefused (Nat.add_eq_zero_iff.mp hok).2

/-- A result on its way into the register file is the one the tick writes. -/
theorem written_regs {w value : Word} {data : RegisterFile} {regs : ℕ → Word}
    (h : ∀ r < 32, r ≠ 0 → data r = regs r) (r : ℕ) (hr : r < 32) (hne : r ≠ 0) :
    Registers.step (rd w) true value data r = Function.update regs (rdFrom w).toNat value r := by
  rw [Registers.step, if_pos rfl, rdFrom_toNat]
  by_cases hrd : r = (rd w).toNat
  · rw [hrd, Function.update_self, Function.update_self]
  · rw [Function.update_of_ne hrd, Function.update_of_ne hrd, h r hr hne]

/-- The instruction is complete, or its access is on the wires. -/
theorem Executing.step (h : Executing M c m x) (hok : (tick M.bus c m).status = 0)
    (hrunning : (tick M.bus c m).cpu.isHalted = false) :
    Fetching (tick M.bus c m).cpu (tick M.bus c m).state (x.step M p a) ∨
      (∃ width, Storing M c m width (x.step M p a)) ∨ Loading M c m (x.step M p a) := by
  have htraced : (x.step M p a).traced = x.traced := by
    simp [System.step, System.completes, h.enable]
  have hcore : (x.step M p a).core = { cpuExecute x.core with data := x.core.data } := by
    rw [System.step_core M p a (.inr (.inl h.state)), h.state, h.rdWriteEnable]
    rfl
  have hregs : ∀ r < 32, r ≠ 0 → x.core.data r = (cleared c).regs r := h.regs.pos
  have htick := h.tick_eq hok
  have hled := h.led
  have hwrite := h.rdWriteEnable
  have hir := h.ir
  have houtcome := outcome_of_execute h.regs h.pc
    (by rw [← htick]; exact hok) (by rw [← htick]; exact hrunning)
  rw [← htick] at houtcome
  generalize cpuExecute x.core = s' at hcore houtcome
  generalize ht : tick M.bus c m = t at houtcome ⊢
  cases houtcome with
  | writes value nextPc =>
      left
      refine ⟨?_, ?_, ?_, ?_, ?_, ?_, ?_, ?_, htraced⟩
      · simp [hcore, fetchNext]
      · simp [hcore, fetchNext]
      · simp [hcore, fetchNext]
      · simp [hcore, fetchNext]
      · simp [hcore, fetchNext, retire]
      · simp [hcore, fetchNext, retire]
      · rw [hcore]; exact hled
      · rw [hcore]; exact written_regs hregs
  | moves nextPc =>
      left
      refine ⟨?_, ?_, ?_, ?_, ?_, ?_, ?_, ?_, htraced⟩
      · simp [hcore, fetchNext]
      · simp [hcore, fetchNext]
      · simp [hcore, fetchNext]
      · simp [hcore, fetchNext]
      · simp [hcore, fetchNext, jump]
      · simp [hcore, fetchNext, jump]
      · rw [hcore]; exact hled
      · intro r hr hne
        simp only [hcore, fetchNext, Registers.step, hwrite]
        exact hregs r hr hne
  | stores width address data =>
      right; left
      refine ⟨width, ⟨?_, ?_, ?_, ?_⟩, ?_, ?_, ?_, ?_, ?_⟩
      · rw [hcore]; exact hled
      · rw [hcore]; exact hwrite
      · rw [hcore]; exact h.regs
      · rw [hcore]; exact hir
      · simp [hcore]
      · simp [hcore, fetchNext]
      · simp [hcore]
      · simp [hcore, fetchNext, cleared]
      · rw [ht, htraced, hcore]
        rfl
  | loads readType address =>
      right; right
      refine ⟨⟨?_, ?_, ?_, ?_⟩, ?_, ?_, ?_, ?_, ?_⟩
      · rw [hcore]; exact hled
      · rw [hcore]; exact hwrite
      · rw [hcore]; exact h.regs
      · rw [hcore]; exact hir
      · simp [hcore]
      · simp [hcore, fetchNext]
      · simp [hcore, fetchNext]
      · simp [hcore, fetchNext, cleared]
      · rw [ht, htraced, hcore]
        rfl

/-- Nothing moves while an access waits. -/
theorem System.step_waiting (hstate : x.core.state = .cpuStore ∨ x.core.state = .cpuLoad)
    (henable : x.core.ramioEnable = true) (hwrite : x.core.rdWriteEnable = false)
    (ha : a.ready = false) : x.step M p a = x := by
  have hcompletes : x.completes a = false := by simp [System.completes, ha]
  have hcore : (x.step M p a).core = x.core := by
    rw [System.step_core M p a (.inr (.inr hstate))]
    have hbusy : (x.input M a).ramioBusy = true := by simp [System.input, henable, ha]
    have hready : (x.input M a).ramioDataOutReady = false := by simp [System.input, hcompletes]
    rcases hstate with hstate | hstate
    · rw [hstate, hwrite]
      simp only [cpuStore, hbusy, if_true]
      rfl
    · rw [hstate, hwrite]
      simp only [cpuLoad, hready]
      rfl
  have htraced : (x.step M p a).traced = x.traced := by simp [System.step, hcompletes]
  calc x.step M p a = ⟨(x.step M p a).core, (x.step M p a).traced⟩ := rfl
    _ = x := by rw [hcore, htraced]

theorem Storing.finish {width : BusOpWidth} (h : Storing M c m width x) (ha : a.ready = true) :
    Fetching (tick M.bus c m).cpu (tick M.bus c m).state (x.step M p a) := by
  have hcompletes : x.completes a = true := by simp [System.completes, h.enable, ha]
  have hbusy : (x.input M a).ramioBusy = false := by simp [System.input, ha]
  have hcore := System.step_core M p a (.inr (.inr (.inl h.state)))
  rw [h.state] at hcore
  simp only [cpuStore, hbusy, Bool.false_eq_true, if_false] at hcore
  have htype : writeWidth (Decode.writeType width) = width := by cases width <;> rfl
  have hne : Decode.writeType width ≠ 0 := by cases width <;> decide
  have hanswer : (M.answer x.core x.traced).2 =
      M.write x.traced x.core.ramioAddress width x.core.ramioDataIn := by
    rw [Memory.answer, h.writeType, if_pos hne, htype]
  rw [h.rest]
  refine ⟨?_, ?_, ?_, ?_, ?_, ?_, ?_, ?_, ?_⟩
  · simp [hcore]
  · simp [hcore, h.enable]
  · simp [hcore]
  · simp [hcore]
  · simp [hcore, jump, h.pc]
  · simp [hcore, jump, h.pc]
  · simp [hcore, h.led]
  · intro r hr hne
    simp only [hcore, h.rdWriteEnable, Registers.step]
    exact h.regs.pos r hr hne
  · simp [System.step, hcompletes, hanswer, jump]

theorem Loading.finish (h : Loading M c m x) (ha : a.ready = true) :
    Fetching (tick M.bus c m).cpu (tick M.bus c m).state (x.step M p a) := by
  have hcompletes : x.completes a = true := by simp [System.completes, h.enable, ha]
  have hready : (x.input M a).ramioDataOutReady = true := by
    simp [System.input, hcompletes, h.writeType]
  have hdata : (x.input M a).ramioDataOut = (M.answer x.core x.traced).1 := by
    simp [System.input, hcompletes]
  have hcore := System.step_core M p a (.inr (.inr (.inr h.state)))
  rw [h.state] at hcore
  simp only [cpuLoad, hready, if_true] at hcore
  rw [h.rest]
  refine ⟨?_, ?_, ?_, ?_, ?_, ?_, ?_, ?_, ?_⟩
  · simp [hcore]
  · simp [hcore, h.enable]
  · simp [hcore]
  · simp [hcore]
  · simp [hcore, retire, h.pc]
  · simp [hcore, retire, h.pc]
  · simp [hcore, h.led]
  · rw [hcore, h.rdWriteEnable]
    simp only [hdata]
    exact written_regs h.regs.pos
  · simp [System.step, hcompletes, retire]

theorem Fetching.state_receive (h : Fetching c m x) (ha : a.ready = true) :
    (x.step M p a).core.state = .cpuExecute := by
  have hready : (x.input M a).ramioDataOutReady = true := by
    simp [System.input, System.completes, h.enable, h.writeType, ha]
  rw [System.step_core M p a (.inl h.state), h.state]
  simp only [cpuFetch, hready, if_true]

/-- An instruction on its way retires as its tick or stays on its way. -/
theorem InFlight.step (h : InFlight M c m x) (hok : (tick M.bus c m).status = 0)
    (hrunning : (tick M.bus c m).cpu.isHalted = false) :
    Fetching (tick M.bus c m).cpu (tick M.bus c m).state (x.step M p a) ∨
      InFlight M c m (x.step M p a) := by
  rcases h with h | ⟨width, h⟩ | h
  · rcases h.step (p := p) (a := a) hok hrunning with hnext | hnext | hnext
    · exact .inl hnext
    · exact .inr (.inr (.inl hnext))
    · exact .inr (.inr (.inr hnext))
  · cases ha : a.ready with
    | true => exact .inl (h.finish ha)
    | false =>
        rw [System.step_waiting (.inl h.state) h.enable h.rdWriteEnable ha]
        exact .inr (.inr (.inl ⟨width, h⟩))
  · cases ha : a.ready with
    | true => exact .inl (h.finish ha)
    | false =>
        rw [System.step_waiting (.inr h.state) h.enable h.rdWriteEnable ha]
        exact .inr (.inr (.inr h))

theorem InFlight.state_ne (h : InFlight M c m x) : x.core.state ≠ .cpuFetch := by
  rcases h with h | ⟨width, h⟩ | h
  · rw [h.state]; decide
  · rw [h.state]; decide
  · rw [h.state]; decide

theorem InFlight.led (h : InFlight M c m x) : x.core.led = true := by
  rcases h with h | ⟨width, h⟩ | h
  · exact h.led
  · exact h.led
  · exact h.led

end Phases

/-! ## Runs -/

section Runs

variable {σ : Type*} (M : Memory σ) (p : Params) (x : System σ) (answer : ℕ → Answer)

/-- The core and its memory after every number of cycles. -/
def System.run : ℕ → System σ := Clocked.state (System.step M p) x answer

variable {M p x answer} {c : Cpu} {m : Traced σ}

theorem retired_fetching {run : ℕ → System σ} {t : ℕ} (h : (run t).core.state = .cpuFetch) :
    retired run (t + 1) = retired run t := by
  simp [retired, h]

theorem retired_inFlight {run : ℕ → System σ} {t : ℕ}
    (h : (run (t + 1)).core.state ≠ .cpuFetch) : retired run (t + 1) = retired run t := by
  simp [retired, h]

theorem retired_retires {run : ℕ → System σ} {t : ℕ} (h : (run t).core.state ≠ .cpuFetch)
    (hnext : (run (t + 1)).core.state = .cpuFetch) :
    retired run (t + 1) = retired run t + 1 := by
  simp [retired, h, hnext]

/-- Where the core is after `k` retirements, as long as the emulated CPU succeeds. -/
def Reached (M : Memory σ) (c : Cpu) (m : Traced σ) (x : System σ) : Prop :=
  Fetching c m x ∨ x.core.state ≠ .cpuFetch ∧
    ((tick M.bus c m).status = 0 → (tick M.bus c m).cpu.isHalted = false → InFlight M c m x)

theorem reached_of_ticks (hstart : Fetching c m x) (t : ℕ) :
    ∀ {k : ℕ} {c' : Cpu} {m' : Traced σ}, Ticks M.bus k c m c' m' →
      retired (x.run M p answer) t = k → Reached M c' m' (x.run M p answer t) := by
  induction t with
  | zero =>
      intro k c' m' hticks hretired
      obtain rfl : 0 = k := hretired
      cases hticks
      exact .inl hstart
  | succ t ih =>
      intro k c' m' hticks hretired
      have hstep : x.run M p answer (t + 1) =
          (x.run M p answer t).step M p (answer t) := Clocked.state_succ ..
      by_cases hfetch : (x.run M p answer t).core.state = .cpuFetch
      · -- fetching: no instruction retires in this cycle
        rw [retired_fetching hfetch] at hretired
        rcases ih hticks hretired with h | ⟨hne, -⟩
        · rw [hstep]
          cases ha : (answer t).ready with
          | false => exact .inl (h.wait ha)
          | true =>
              refine .inr ⟨?_, ?_⟩
              · rw [h.state_receive ha]
                decide
              · intro hok _
                exact .inl (h.receive ha (tick_fetched hok))
        · exact absurd hfetch hne
      · by_cases hnext : (x.run M p answer (t + 1)).core.state = .cpuFetch
        · -- the instruction retires, and with it the last tick
          rw [retired_retires hfetch hnext] at hretired
          subst hretired
          cases hticks with
          | succ hticks hok hrunning =>
              rcases ih hticks rfl with h | ⟨-, h⟩
              · exact absurd h.state hfetch
              · rcases (h hok hrunning).step hok hrunning with hdone | hdone
                · rw [hstep]
                  exact .inl hdone
                · rw [hstep] at hnext
                  exact absurd hnext hdone.state_ne
        · rw [retired_inFlight hnext] at hretired
          rcases ih hticks hretired with h | ⟨-, h⟩
          · exact absurd h.state hfetch
          · refine .inr ⟨hnext, ?_⟩
            intro hok hrunning
            rw [hstep] at hnext ⊢
            rcases (h hok hrunning).step hok hrunning with hdone | hdone
            · exact absurd hdone.state hnext
            · exact hdone

theorem led_of_later {u t : ℕ} (hut : u ≤ t) (h : (x.run M p answer t).core.led = true) :
    (x.run M p answer u).core.led = true := by
  induction t, hut using Nat.le_induction with
  | base => exact h
  | succ t hut ih =>
      apply ih
      have hstep : x.run M p answer (t + 1) =
          (x.run M p answer t).step M p (answer t) := Clocked.state_succ ..
      rw [hstep] at h
      exact led_of_step rfl h

theorem InFlight.retires {t : ℕ} (h : InFlight M c m (x.run M p answer t))
    (hnext : Fetching (tick M.bus c m).cpu (tick M.bus c m).state (x.run M p answer (t + 1))) :
    retired (x.run M p answer) (t + 1) = retired (x.run M p answer) t + 1 :=
  retired_retires h.state_ne hnext.state

/-- A memory that keeps answering completes the access on the wires. -/
theorem exists_access_retired {t : ℕ}
    (h : (∃ width, Storing M c m width (x.run M p answer t)) ∨ Loading M c m (x.run M p answer t))
    (hfair : ∀ t, ∃ u ≥ t, (answer u).ready = true) :
    ∃ u, retired (x.run M p answer) u = retired (x.run M p answer) t + 1 ∧
      (x.run M p answer u).core.state = .cpuFetch := by
  have hwait : ∀ u ≥ t, retired (x.run M p answer) u = retired (x.run M p answer) t ∧
      ((∃ width, Storing M c m width (x.run M p answer u)) ∨ Loading M c m (x.run M p answer u)) →
      ¬ (answer u).ready = true →
      retired (x.run M p answer) (u + 1) = retired (x.run M p answer) t ∧
      ((∃ width, Storing M c m width (x.run M p answer (u + 1))) ∨
        Loading M c m (x.run M p answer (u + 1))) := by
    rintro u - ⟨hretired, hwaiting⟩ hbusy
    have hstay : x.run M p answer (u + 1) = x.run M p answer u := by
      rcases hwaiting with ⟨width, hstoring⟩ | hloading
      · exact System.step_waiting (.inl hstoring.state) hstoring.enable hstoring.rdWriteEnable
          (Bool.eq_false_iff.mpr hbusy)
      · exact System.step_waiting (.inr hloading.state) hloading.enable hloading.rdWriteEnable
          (Bool.eq_false_iff.mpr hbusy)
    have hne : (x.run M p answer u).core.state ≠ .cpuFetch := InFlight.state_ne (.inr hwaiting)
    refine ⟨?_, ?_⟩
    · rw [retired_inFlight (by rw [hstay]; exact hne), hretired]
    · rw [hstay]
      exact hwaiting
  obtain ⟨u, -, ⟨hretired, hwaiting⟩, hready⟩ := Clocked.exists_event ⟨rfl, h⟩ hwait hfair
  have hnext : Fetching (tick M.bus c m).cpu (tick M.bus c m).state
      (x.run M p answer (u + 1)) := by
    rcases hwaiting with ⟨width, hstoring⟩ | hloading
    · exact hstoring.finish hready
    · exact hloading.finish hready
  refine ⟨u + 1, ?_, hnext.state⟩
  rw [InFlight.retires (.inr hwaiting) hnext, hretired]

/-- If the memory keeps answering, every instruction retires. -/
theorem exists_retired (hstart : Fetching c m x) (hfair : ∀ t, ∃ u ≥ t, (answer u).ready = true)
    {n : ℕ} {c' : Cpu} {m' : Traced σ} (hticks : Ticks M.bus n c m c' m') :
    ∃ t, retired (x.run M p answer) t = n ∧ (x.run M p answer t).core.state = .cpuFetch := by
  induction hticks with
  | zero c m => exact ⟨0, rfl, hstart.state⟩
  | @succ n c c' m m' hticks hok hrunning ih =>
      obtain ⟨t, hretired, hstate⟩ := ih hstart
      have hfetching : Fetching c' m' (x.run M p answer t) := by
        rcases reached_of_ticks hstart t hticks hretired with h | ⟨hne, -⟩
        · exact h
        · exact absurd hstate hne
      obtain ⟨u, -, ⟨hretired, hfetching⟩, hready⟩ := Clocked.exists_event
        (P := fun u ↦ retired (x.run M p answer) u = n ∧ Fetching c' m' (x.run M p answer u))
        (Q := fun u ↦ (answer u).ready = true) ⟨hretired, hfetching⟩
        (fun u _ h hbusy ↦ ⟨(retired_fetching h.2.state).trans h.1,
          h.2.wait (Bool.eq_false_iff.mpr hbusy)⟩) hfair
      have hexecuting : Executing M c' m' (x.run M p answer (u + 1)) :=
        hfetching.receive hready (tick_fetched hok)
      have hcount : retired (x.run M p answer) (u + 1) = n :=
        (retired_fetching hfetching.state).trans hretired
      have hflight : InFlight M c' m' (x.run M p answer (u + 1)) := .inl hexecuting
      rcases hexecuting.step (p := p) (a := answer (u + 1)) hok hrunning with hnext | haccess
      · exact ⟨u + 2, by rw [hflight.retires hnext, hcount], hnext.state⟩
      · have hstay : retired (x.run M p answer) (u + 2) = n :=
          (retired_inFlight (InFlight.state_ne (.inr haccess))).trans hcount
        obtain ⟨v, hv, hdone⟩ := exists_access_retired (t := u + 2) haccess hfair
        exact ⟨v, by rw [hv, hstay], hdone⟩

/-- The core, started in `CpuFetch`, refines the emulated CPU instruction by
instruction, however long the memory takes. -/
theorem core_refines_ticks {n : ℕ} {c c' : Cpu} {m m' : Traced σ}
    (hticks : Ticks M.bus n c m c' m') (hstart : Fetching c m x) (p : Params)
    (answer : ℕ → Answer) :
    (∀ t, retired (x.run M p answer) t = n → (x.run M p answer t).core.state = .cpuFetch →
      (x.run M p answer t).core.pc = c'.pc ∧
      (∀ r < 32, r ≠ 0 → (x.run M p answer (t + 1)).core.data r = c'.regs r) ∧
      (x.run M p answer t).traced = m' ∧
      ∀ u ≤ t, (x.run M p answer u).core.led = true) ∧
    (∀ u, (rs1 (x.run M p answer u).core.ir = 0 → rs1DataOut (x.run M p answer u).core = 0) ∧
      (rs2 (x.run M p answer u).core.ir = 0 → rs2DataOut (x.run M p answer u).core = 0)) ∧
    ((∀ t, ∃ u ≥ t, (answer u).ready = true) →
      ∃ t, retired (x.run M p answer) t = n ∧
        (x.run M p answer t).core.state = .cpuFetch) := by
  refine ⟨?_, ?_, fun hfair ↦ exists_retired hstart hfair hticks⟩
  · intro t hretired hstate
    rcases reached_of_ticks hstart t hticks hretired with h | ⟨hne, -⟩
    · exact ⟨h.pc, h.regs, h.traced, fun u hu ↦ led_of_later hu h.led⟩
    · exact absurd hstate hne
  · intro u
    exact ⟨fun h ↦ if_pos h, fun h ↦ if_pos h⟩

/-- `addi x1, x0, 5` and `sw x1, 64(x0)` above a single word of data. -/
def storeProgram : Memory Word where
  status _ _ _ _ := 0
  load m address _ :=
    (if address = 0 then 0x00500093 else if address = 4 then 0x04102023 else m, m)
  store _ _ _ data := data

def startCpu : Cpu := ⟨0, fun _ ↦ 0, false⟩

def startSystem : System Word where
  core := { powerUp with ramioEnable := true, ramioReadType := 7, state := .cpuFetch }
  traced := ⟨0, []⟩

/-- The memory answers in every other cycle. -/
def slowAnswer (t : ℕ) : Answer := ⟨t % 2 == 1, 0, false⟩

theorem core_refines_ticks_store :
    ∃ t, retired (startSystem.run storeProgram ⟨0, 0, 4⟩ slowAnswer) t = 2 ∧
      (startSystem.run storeProgram ⟨0, 0, 4⟩ slowAnswer t).core.pc = 8 ∧
      (startSystem.run storeProgram ⟨0, 0, 4⟩ slowAnswer t).traced =
        ⟨5, [⟨0, .word, false, 0⟩, ⟨4, .word, false, 0⟩, ⟨64, .word, true, 5⟩]⟩ := by
  have hzero : Ticks storeProgram.bus 0 startCpu ⟨0, []⟩ startCpu ⟨0, []⟩ := .zero _ _
  have hticks := (hzero.succ rfl rfl).succ rfl rfl
  have hstart : Fetching startCpu ⟨0, []⟩ startSystem := by
    refine ⟨rfl, rfl, rfl, rfl, rfl, rfl, rfl, ?_, rfl⟩
    intro r _ _
    rfl
  obtain ⟨hall, -, hexists⟩ := core_refines_ticks hticks hstart ⟨0, 0, 4⟩ slowAnswer
  obtain ⟨t, hretired, hstate⟩ := hexists fun t ↦ ⟨2 * t + 1, by omega, by
    simp [slowAnswer, Nat.add_mod]⟩
  obtain ⟨hpc, -, htraced, -⟩ := hall t hretired hstate
  exact ⟨t, hretired, hpc, htraced⟩

end Runs

end TangNano.Refinement
