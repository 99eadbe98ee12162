import TangNano.Library.WordMemory
import TangNano.Ramio.Acceptance

/-!
# Erroneous instructions

The core and `ramio` in front of a word memory that answers after any number of
cycles.  An instruction that switches `led` off is a NOP unless it is a load: a
load of unknown width loads a word all the same.
-/

namespace TangNano.Soc

open Ramio

/-- Whether the memory answers in a cycle, and what everything else drives. -/
structure Surroundings where
  answers : Bool
  parts : Parts
  flashMiso : Bool

structure Board where
  soc : State
  mem : WordMemory

namespace Board

def asked (e : Surroundings) (b : Board) : Wires :=
  Ramio.wires (request b.soc.core) e.parts b.soc.ramio

def answered (e : Surroundings) (b : Board) : Bool := (b.asked e).cacheEnable && e.answers

def input (e : Surroundings) (b : Board) : Input where
  rstN := true
  parts := { e.parts with
    cacheDataOut :=
      if b.answered e then b.mem ((b.asked e).cacheAddress.toNat / 4) else e.parts.cacheDataOut
    cacheDataOutReady := (b.asked e).cacheWriteEnable == 0 && b.answered e
    cacheBusy := (b.asked e).cacheEnable && !e.answers }
  flashMiso := e.flashMiso

def step (p : Core.Params) (e : Surroundings) (b : Board) : Board where
  soc := Soc.step p (b.input e) b.soc
  mem :=
    if b.answered e then
      b.mem.write ⟨(b.asked e).cacheAddress.toNat / 4, (b.asked e).cacheWriteEnable,
        (b.asked e).cacheDataIn⟩
    else b.mem

/-- The board after `n` cycles. -/
def run (p : Core.Params) (b : Board) (env : ℕ → Surroundings) (n : ℕ) : Board :=
  Clocked.state (step p) b env n

/-- The memory answers as a cache does. -/
theorem cacheAnswers (e : Surroundings) (b : Board) : CacheAnswers (b.input e) b.soc := by
  have hsame : cacheRequest (wires (b.input e) b.soc) = cacheRequest (b.asked e) :=
    cacheRequest_congr
  have henable : (wires (b.input e) b.soc).cacheEnable = (b.asked e).cacheEnable :=
    congrArg Prod.fst hsame
  have hwrite : (wires (b.input e) b.soc).cacheWriteEnable = (b.asked e).cacheWriteEnable :=
    congrArg (fun w ↦ w.2.2.2) hsame
  refine ⟨e.answers, ?_, ?_⟩
  · rw [henable]
    rfl
  · rw [henable, hwrite]
    rfl

end Board

/-- An instruction is being executed: nothing is requested and no register is
about to be written. -/
structure Executes (b : Board) : Prop where
  state : b.soc.core.state = .cpuExecute
  enable : b.soc.core.ramioEnable = false
  rdWriteEnable : b.soc.core.rdWriteEnable = false

/-- The registers as the next instruction reads them. -/
def registers (s : Core.Regs) (rs : BitVec 5) : Word :=
  Registers.dataOut (Registers.step (Core.rd s.ir) s.rdWriteEnable s.rdDataIn s.data) rs

/-- The core goes on behind the instruction as if it had been a NOP, with `led` off. -/
structure GoesOn (b x : Board) : Prop where
  enable : x.soc.core.ramioEnable = true
  readType : x.soc.core.ramioReadType = 0b111
  writeType : x.soc.core.ramioWriteType = 0
  address : x.soc.core.ramioAddress = b.soc.core.pc + 4
  pc : x.soc.core.pc = b.soc.core.pc + 4
  led : x.soc.core.led = false
  registers : ∀ rs, registers x.soc.core rs = registers b.soc.core rs
  mem : x.mem = b.mem

/-- The first fetch after the instruction executed in cycle 0 is in cycle `u`. -/
def NextFetch (p : Core.Params) (b : Board) (env : ℕ → Surroundings) (u : ℕ) : Prop :=
  0 < u ∧ (b.run p env u).soc.core.state = .cpuFetch ∧
    ∀ v, 0 < v → v < u → (b.run p env v).soc.core.state ≠ .cpuFetch

/-- The instruction executed in cycle 0 has no effect.  The wires of cycle 0 are
still those of its fetch. -/
def HasNoEffect (p : Core.Params) (b : Board) (env : ℕ → Surroundings) : Prop :=
  ∃ u, NextFetch p b env u ∧ GoesOn b (b.run p env u) ∧
    ∀ v, 0 < v → v < u → ¬ sideEffect ((b.run p env v).input (env v)) (b.run p env v).soc

section Instructions

variable {p : Core.Params} {e : Surroundings} {b x : Board} {env : ℕ → Surroundings}

/-- A fetch ends with an instruction that is being executed. -/
theorem executes_of_fetch (hfetch : b.soc.core.state = .cpuFetch)
    (hnext : (b.step p e).soc.core.state = .cpuExecute) : Executes (b.step p e) := by
  have hcore : (b.step p e).soc.core =
      { Core.cpuFetch (coreInput (b.input e) b.soc) b.soc.core with
        data := Registers.step (Core.rd b.soc.core.ir) b.soc.core.rdWriteEnable
          b.soc.core.rdDataIn b.soc.core.data } := by
    change Core.step p (coreInput (b.input e) b.soc) b.soc.core = _
    have hrun : (coreInput (b.input e) b.soc).rstN = true := rfl
    simp only [Core.step, hrun, if_true, Core.fsm, hfetch]
  cases hready : (coreInput (b.input e) b.soc).ramioDataOutReady with
  | true =>
      simp only [Core.cpuFetch, hready, if_true] at hcore
      refine ⟨hnext, ?_, ?_⟩ <;> rw [hcore]
  | false =>
      simp only [Core.cpuFetch, hready] at hcore
      rw [hcore] at hnext
      exact absurd (hfetch.symm.trans hnext) (by decide)

theorem NextFetch.unique {u v : ℕ} (hu : NextFetch p b env u) (hv : NextFetch p b env v) :
    u = v := by
  rcases Nat.lt_trichotomy u v with hlt | heq | hlt
  · exact absurd hu.2.1 (hv.2.2 u hu.1 hlt)
  · exact heq
  · exact absurd hv.2.1 (hu.2.2 v hv.1 hlt)

/-! ## One cycle -/

/-- Without a pending write the state machine alone changes the core. -/
theorem core_step (hwrite : b.soc.core.rdWriteEnable = false) :
    (b.step p e).soc.core =
      { Core.fsm p (coreInput (b.input e) b.soc) b.soc.core with data := b.soc.core.data } := by
  change Core.step p (coreInput (b.input e) b.soc) b.soc.core = _
  have hrun : (coreInput (b.input e) b.soc).rstN = true := rfl
  rw [Core.step, hrun, if_pos rfl, Registers.step, hwrite]
  rfl

/-- A cycle that asks the cache for no write leaves the memory as it is. -/
theorem mem_step (hwrite : (b.asked e).cacheWriteEnable = 0) : (b.step p e).mem = b.mem := by
  simp only [Board.step, hwrite, WordMemory.write_disabled, ite_self]

theorem Executes.mem_eq (h : Executes b) : (b.step p e).mem = b.mem := by
  apply mem_step
  rw [Board.asked, wires_of_disabled (r := request b.soc.core) h.enable]
  rfl

theorem Executes.core_eq (h : Executes b) :
    (b.step p e).soc.core = { Core.cpuExecute b.soc.core with data := b.soc.core.data } := by
  rw [core_step h.rdWriteEnable, Core.fsm, h.state]

theorem Executes.registers_eq (h : Executes b) (rs : BitVec 5) :
    registers b.soc.core rs = Registers.dataOut b.soc.core.data rs := by
  rw [registers, Registers.step, h.rdWriteEnable]
  rfl

/-- The core at the fetch after an error.  The instruction may have left a value
for its destination register. -/
def goneOn (s : Core.Regs) (data : Word) (value : Option Word) : Core.Regs :=
  let next := Core.error (Core.fetchNext (s.pc + 4) s)
  { next with
    ramioDataIn := data
    rdWriteEnable := value.isSome || next.rdWriteEnable
    rdDataIn := value.getD next.rdDataIn }

theorem goesOn_iff {data : Word} {value : Option Word}
    (hcore : x.soc.core = goneOn b.soc.core data value) (hmem : x.mem = b.mem) :
    GoesOn b x ↔ ∀ rs, registers x.soc.core rs = registers b.soc.core rs := by
  refine ⟨GoesOn.registers, fun hregisters ↦ ?_⟩
  refine ⟨?_, ?_, ?_, ?_, ?_, ?_, hregisters, hmem⟩
  all_goals
    rw [hcore]
    rfl

theorem goesOn_of_none {data : Word}
    (hcore : x.soc.core = goneOn b.soc.core data none) (hmem : x.mem = b.mem) : GoesOn b x := by
  rw [goesOn_iff hcore hmem]
  intro rs
  rw [hcore]
  rfl

/-- What a load writes is what the register holds. -/
theorem Executes.goesOn_iff (h : Executes b) {data value : Word}
    (hcore : x.soc.core = goneOn b.soc.core data (some value)) (hmem : x.mem = b.mem) :
    GoesOn b x ↔ Core.rd b.soc.core.ir = 0 ∨
      registers b.soc.core (Core.rd b.soc.core.ir) = value := by
  have hafter (rs : BitVec 5) : registers x.soc.core rs =
      Registers.dataOut
        (Function.update b.soc.core.data (Core.rd b.soc.core.ir).toNat value) rs := by
    rw [hcore]
    rfl
  simp only [Soc.goesOn_iff hcore hmem, hafter, h.registers_eq]
  constructor
  · intro hsame
    by_cases hzero : Core.rd b.soc.core.ir = 0
    · exact .inl hzero
    · have hrd := hsame (Core.rd b.soc.core.ir)
      rw [Registers.dataOut, if_neg hzero, Function.update_self] at hrd
      exact .inr hrd.symm
  · intro hrd rs
    by_cases hzero : rs = 0
    · rw [Registers.dataOut, Registers.dataOut, if_pos hzero, if_pos hzero]
    by_cases hsame : rs = Core.rd b.soc.core.ir
    · have hvalue := hrd.resolve_left (hsame ▸ hzero)
      rw [hsame, hvalue, Registers.dataOut, if_neg (hsame ▸ hzero), Function.update_self]
    · have hne : rs.toNat ≠ (Core.rd b.soc.core.ir).toNat :=
        fun heq ↦ hsame (BitVec.eq_of_toNat_eq heq)
      rw [Registers.dataOut, Registers.dataOut, Function.update_of_ne hne]

/-- An error that is no store and no load. -/
theorem Executes.hasNoEffect_of_error (h : Executes b)
    (herror : Core.cpuExecute b.soc.core =
      Core.error (Core.fetchNext (b.soc.core.pc + 4) b.soc.core)) : HasNoEffect p b env := by
  have hcore : (b.run p env 1).soc.core =
      goneOn b.soc.core b.soc.core.ramioDataIn none := by
    change (b.step p (env 0)).soc.core = _
    rw [h.core_eq, herror]
    rfl
  refine ⟨1, ⟨Nat.one_pos, ?_, fun v hpos hlt ↦ absurd hpos (by omega)⟩,
    goesOn_of_none hcore h.mem_eq, fun v hpos hlt ↦ absurd hpos (by omega)⟩
  rw [hcore]
  rfl

/-! ## Stores -/

/-- The store of unknown width is on the wires, and asks for nothing. -/
structure Stores (b x : Board) : Prop where
  core : x.soc.core =
    { goneOn b.soc.core (Core.rs2DataOut b.soc.core) none with
      ramioReadType := 0
      ramioAddress := Core.rs1DataOut b.soc.core + Core.sImm12 b.soc.core.ir
      state := .cpuStore }
  mem : x.mem = b.mem

theorem Executes.stores (h : Executes b) (hopcode : Core.opcode b.soc.core.ir = 0b01000)
    (herror : Core.storeType (Core.funct3 b.soc.core.ir) = none) : Stores b (b.step p e) := by
  refine ⟨?_, h.mem_eq⟩
  rw [h.core_eq, Core.cpuExecute_store _ hopcode, herror]
  rfl

theorem Stores.readType (h : Stores b x) : (request x.soc.core).readType = 0 := by
  rw [h.core]
  rfl

theorem Stores.writeType (h : Stores b x) : (request x.soc.core).writeType = 0 := by
  rw [h.core]
  rfl

theorem Stores.wires_eq (h : Stores b x) (q : Parts) :
    Ramio.wires (request x.soc.core) q x.soc.ramio = idleWires (request x.soc.core).address :=
  wires_of_neither h.readType h.writeType

theorem Stores.not_busy (h : Stores b x) : (coreInput (x.input e) x.soc).ramioBusy = false := by
  change (if isPort _ then false else (x.asked e).cacheEnable && _) = false
  rw [Board.asked, h.wires_eq]
  exact ite_self false

theorem Stores.finish (h : Stores b x) (hb : Executes b) :
    (x.step p e).soc.core = goneOn b.soc.core (Core.rs2DataOut b.soc.core) none := by
  have hpending : x.soc.core.rdWriteEnable = false := by
    rw [h.core]
    exact hb.rdWriteEnable
  have hstate : x.soc.core.state = .cpuStore := by rw [h.core]
  rw [core_step hpending, Core.fsm, hstate]
  simp only [Core.cpuStore, h.not_busy]
  rw [h.core]
  rfl

theorem Stores.mem_step (h : Stores b x) : (x.step p e).mem = b.mem := by
  have hquiet : (x.asked e).cacheWriteEnable = 0 := by
    rw [Board.asked, h.wires_eq]
    rfl
  exact (Soc.mem_step (p := p) hquiet).trans h.mem

theorem Stores.not_sideEffect (h : Stores b x) : ¬ sideEffect (x.input e) x.soc := by
  rintro (⟨-, hne⟩ | ⟨-, hne⟩ | ⟨-, hne⟩ | hne)
  · exact hne h.readType
  · exact hne h.writeType
  · exact hne h.writeType
  · refine hne ?_
    change (Ramio.wires (request x.soc.core) _ x.soc.ramio).sdcardCommand = 0
    rw [h.wires_eq]
    rfl

/-- A store of unknown width has nothing to wait for and stores nothing. -/
theorem Executes.hasNoEffect_of_store (h : Executes b)
    (hopcode : Core.opcode b.soc.core.ir = 0b01000)
    (herror : Core.storeType (Core.funct3 b.soc.core.ir) = none) : HasNoEffect p b env := by
  have hstores : Stores b (b.run p env 1) := h.stores hopcode herror
  have hnext : (b.run p env 2).soc.core =
      goneOn b.soc.core (Core.rs2DataOut b.soc.core) none := hstores.finish h
  refine ⟨2, ⟨Nat.two_pos, ?_, ?_⟩, goesOn_of_none hnext hstores.mem_step, ?_⟩
  · rw [hnext]
    rfl
  · intro v hpos hlt
    obtain rfl : v = 1 := by omega
    rw [hstores.core]
    rintro ⟨⟩
  · intro v hpos hlt
    obtain rfl : v = 1 := by omega
    exact hstores.not_sideEffect

/-! ## Loads -/

def loadAddress (s : Core.Regs) : Word := Core.rs1DataOut s + Core.iImm12 s.ir

/-- What a port shows to a load of a word. -/
def portWord (address : Word) (q : Parts) (s : Ramio.Regs) : Word :=
  (readWires ⟨true, 0b111, 0, address, 0⟩ q s (idleWires address)).dataOut

/-- What is loaded: a word of the memory, or what the port shows in the next cycle. -/
def loadedWord (b : Board) (env : ℕ → Surroundings) : Word :=
  let address := loadAddress b.soc.core
  if isPort address then
    portWord address (env 1).parts
      (Ramio.step true (request b.soc.core) (env 0).parts b.soc.ramio)
  else b.mem (address.toNat / 4)

/-- The load of unknown width is on the wires. -/
structure Loads (b x : Board) : Prop where
  core : x.soc.core =
    { goneOn b.soc.core b.soc.core.ramioDataIn none with
      ramioAddress := loadAddress b.soc.core
      state := .cpuLoad }
  mem : x.mem = b.mem

/-- The cycle in which the load is answered. -/
def loadReady (b : Board) (e : Surroundings) : Bool := isPort (loadAddress b.soc.core) || e.answers

theorem Executes.loads (h : Executes b) (hopcode : Core.opcode b.soc.core.ir = 0b00000)
    (herror : Core.loadType (Core.funct3 b.soc.core.ir) = none) : Loads b (b.step p e) := by
  refine ⟨?_, h.mem_eq⟩
  rw [h.core_eq, Core.cpuExecute_load _ hopcode, herror]
  rfl

theorem Loads.request_eq (h : Loads b x) : request x.soc.core =
    ⟨true, 0b111, 0, loadAddress b.soc.core, b.soc.core.ramioDataIn⟩ := by
  rw [h.core]
  rfl

theorem Loads.wires_eq (h : Loads b x) (q : Parts) :
    Ramio.wires (request x.soc.core) q x.soc.ramio =
    readWires (request x.soc.core) q x.soc.ramio (idleWires (loadAddress b.soc.core)) := by
  have hread : (0b111 : BitVec 3) ≠ 0 := by decide
  rw [h.request_eq]
  exact wires_of_read rfl hread rfl

theorem Loads.cacheWriteEnable (h : Loads b x) : (x.asked e).cacheWriteEnable = 0 := by
  rw [Board.asked, h.wires_eq]
  cases hport : isPort (request x.soc.core).address with
  | true => exact congrArg (fun w ↦ w.2.2.2) (readWires_port hport _).1
  | false => rw [readWires_ram hport]; rfl

theorem Loads.ready (h : Loads b x) :
    (coreInput (x.input e) x.soc).ramioDataOutReady = loadReady b e := by
  have haddress : (request x.soc.core).address = loadAddress b.soc.core := by rw [h.request_eq]
  change dataOutReady (request x.soc.core) (x.input e).parts = _
  unfold loadReady
  cases hport : isPort (loadAddress b.soc.core) with
  | true => exact dataOutReady_of_port (haddress ▸ hport)
  | false =>
      rw [dataOutReady_of_ram (haddress ▸ hport), Bool.false_or]
      change ((x.asked e).cacheWriteEnable == 0 && ((x.asked e).cacheEnable && e.answers)) = _
      rw [h.cacheWriteEnable, Board.asked, h.wires_eq, readWires_ram (haddress ▸ hport)]
      exact Bool.true_and _

theorem Loads.wait (h : Loads b x) (hb : Executes b) (hwait : loadReady b e = false) :
    Loads b (x.step p e) := by
  refine ⟨?_, (mem_step h.cacheWriteEnable).trans h.mem⟩
  have hpending : x.soc.core.rdWriteEnable = false := by
    rw [h.core]
    exact hb.rdWriteEnable
  have hstate : x.soc.core.state = .cpuLoad := by rw [h.core]
  rw [core_step hpending, Core.fsm, hstate]
  simp only [Core.cpuLoad, h.ready, hwait]
  exact h.core

theorem Loads.finish (h : Loads b x) (hb : Executes b) (hdone : loadReady b e = true) :
    (x.step p e).soc.core = goneOn b.soc.core b.soc.core.ramioDataIn
      (some (coreInput (x.input e) x.soc).ramioDataOut) := by
  have hpending : x.soc.core.rdWriteEnable = false := by
    rw [h.core]
    exact hb.rdWriteEnable
  have hstate : x.soc.core.state = .cpuLoad := by rw [h.core]
  rw [core_step hpending, Core.fsm, hstate]
  simp only [Core.cpuLoad, h.ready, hdone, if_true]
  rw [h.core]
  rfl

/-- A port shows the same whatever is on the wires of the cache. -/
theorem readWires_port_dataOut {r : Request} {q : Parts} {s : Ramio.Regs}
    (hport : isPort r.address = true) (cacheDataOut : Word) (ready busy : Bool) :
    (readWires r
        { q with
          cacheDataOut := cacheDataOut
          cacheDataOutReady := ready
          cacheBusy := busy } s (idleWires r.address)).dataOut =
      portWord r.address q s := by
  rcases (isPort_iff _).mp hport with h | h | h | h | h | h | h | h <;>
    · unfold portWord readWires
      rw [h]
      rfl

/-- What the core gets for the load. -/
theorem Loads.dataOut (h : Loads b x) (hdone : loadReady b e = true) :
    (coreInput (x.input e) x.soc).ramioDataOut =
      if isPort (loadAddress b.soc.core) then
        portWord (loadAddress b.soc.core) e.parts x.soc.ramio
      else b.mem ((loadAddress b.soc.core).toNat / 4) := by
  have haddress : (request x.soc.core).address = loadAddress b.soc.core := by rw [h.request_eq]
  change (Ramio.wires (request x.soc.core) (x.input e).parts x.soc.ramio).dataOut = _
  rw [h.wires_eq, ← haddress]
  split
  · next hport => exact readWires_port_dataOut hport _ _ _
  · next hram =>
      have hport : isPort (request x.soc.core).address = false := Bool.eq_false_iff.mpr hram
      have hanswers : e.answers = true := by
        rwa [loadReady, ← haddress, hport, Bool.false_or] at hdone
      have hasked : x.asked e = { idleWires (request x.soc.core).address with
          cacheEnable := true
          dataOut := loadData (request x.soc.core).readType (request x.soc.core).address
            e.parts.cacheDataOut } := by
        rw [Board.asked, h.wires_eq, ← haddress, readWires_ram hport]
      have hanswered : x.answered e = true := by
        rw [Board.answered, hasked, hanswers]
        rfl
      rw [readWires_ram hport]
      change loadData (request x.soc.core).readType _ (if x.answered e then _ else _) = _
      rw [hanswered, if_pos rfl, hasked, h.mem, h.request_eq]
      have hword (v : Word) : loadData 0b111 (loadAddress b.soc.core) v = v := rfl
      exact (hword _).trans (congrArg b.mem (cacheAddress_div _))

theorem Loads.sideEffect_iff (h : Loads b x) :
    sideEffect (x.input e) x.soc ↔ loadAddress b.soc.core = addressUartIn ∨
      loadAddress b.soc.core = addressSDCardNextByte := by
  have hrequest := h.request_eq
  have haddress : x.soc.core.ramioAddress = loadAddress b.soc.core :=
    congrArg Request.address hrequest
  have hread : x.soc.core.ramioReadType ≠ 0 := by
    rw [show x.soc.core.ramioReadType = 0b111 from congrArg Request.readType hrequest]
    decide
  cases hport : isPort x.soc.core.ramioAddress with
  | false =>
      refine iff_of_false (not_sideEffect hport) ?_
      rintro (h | h)
      · rw [haddress, h] at hport
        exact absurd hport (by decide)
      · rw [haddress, h] at hport
        exact absurd hport (by decide)
  | true =>
      rw [sideEffect_load (congrArg Request.enable hrequest) hread
        (congrArg Request.writeType hrequest) hport, deviceRead, ← haddress]
      exact and_iff_right hread

/-- The load waits until it is ready. -/
theorem Executes.loads_until (h : Executes b) (hopcode : Core.opcode b.soc.core.ir = 0b00000)
    (herror : Core.loadType (Core.funct3 b.soc.core.ir) = none) {n : ℕ}
    (hwait : ∀ v, 0 < v → v ≤ n → loadReady b (env v) = false) : Loads b (b.run p env (n + 1)) := by
  induction n with
  | zero => exact h.loads hopcode herror
  | succ n ih =>
      have hbefore := ih fun v hpos hle ↦ hwait v hpos (Nat.le_succ_of_le hle)
      exact hbefore.wait h (hwait (n + 1) (Nat.succ_pos n) le_rfl)

/-- What decides whether a load of unknown width has an effect. -/
def LoadsNothing (b : Board) (env : ℕ → Surroundings) : Prop :=
  loadAddress b.soc.core ≠ addressUartIn ∧ loadAddress b.soc.core ≠ addressSDCardNextByte ∧
    (Core.rd b.soc.core.ir = 0 ∨
      registers b.soc.core (Core.rd b.soc.core.ir) = loadedWord b env)

theorem exists_loadReady (hfair : ∀ n, ∃ u ≥ n, (env u).answers = true) :
    ∃ n, loadReady b (env (n + 1)) = true ∧
      ∀ v, 0 < v → v ≤ n → loadReady b (env v) = false := by
  have hready : ∃ n, loadReady b (env (n + 1)) = true := by
    obtain ⟨u, hu, hanswers⟩ := hfair 1
    refine ⟨u - 1, ?_⟩
    rw [Nat.sub_add_cancel hu, loadReady, hanswers, Bool.or_true]
  refine ⟨Nat.find hready, Nat.find_spec hready, ?_⟩
  intro v hpos hle
  have hnot := Nat.find_min hready (m := v - 1) (by omega)
  rw [Nat.sub_add_cancel hpos] at hnot
  exact Bool.eq_false_iff.mpr hnot

/-- A port is ready at once, so what it shows is what it shows in the next cycle. -/
theorem Loads.dataOut_eq_loadedWord {n : ℕ} (h : Loads b (b.run p env (n + 1)))
    (hdone : loadReady b (env (n + 1)) = true)
    (hwait : ∀ v, 0 < v → v ≤ n → loadReady b (env v) = false) :
    (coreInput ((b.run p env (n + 1)).input (env (n + 1)))
      (b.run p env (n + 1)).soc).ramioDataOut = loadedWord b env := by
  rw [h.dataOut hdone, loadedWord]
  split
  · next hport =>
      have hzero : n = 0 := by
        by_contra hne
        have hready := hwait 1 Nat.one_pos (Nat.pos_of_ne_zero hne)
        rw [loadReady, hport] at hready
        exact Bool.noConfusion hready
      rw [hzero]
      rfl
  · rfl

/-- A load of unknown width is a NOP exactly if neither reading the address nor
writing the word changes anything. -/
theorem Executes.hasNoEffect_load_iff (h : Executes b)
    (hopcode : Core.opcode b.soc.core.ir = 0b00000)
    (herror : Core.loadType (Core.funct3 b.soc.core.ir) = none)
    (hfair : ∀ n, ∃ u ≥ n, (env u).answers = true) :
    HasNoEffect p b env ↔ LoadsNothing b env := by
  obtain ⟨n, hdone, hwait⟩ := exists_loadReady (b := b) hfair
  have hloads {v : ℕ} (hpos : 0 < v) (hlt : v < n + 2) : Loads b (b.run p env v) := by
    obtain ⟨m, rfl⟩ := Nat.exists_eq_succ_of_ne_zero hpos.ne'
    exact h.loads_until hopcode herror fun w hw hle ↦ hwait w hw (by omega)
  have hlast := hloads (Nat.succ_pos n) (Nat.lt_succ_self (n + 1))
  have hcore : (b.run p env (n + 2)).soc.core =
      goneOn b.soc.core b.soc.core.ramioDataIn (some (loadedWord b env)) := by
    rw [← hlast.dataOut_eq_loadedWord hdone hwait]
    exact hlast.finish h hdone
  have hmem : (b.run p env (n + 2)).mem = b.mem :=
    (mem_step hlast.cacheWriteEnable).trans hlast.mem
  have hfetch : NextFetch p b env (n + 2) := by
    refine ⟨Nat.succ_pos _, ?_, fun v hpos hlt ↦ ?_⟩
    · rw [hcore]
      rfl
    · rw [(hloads hpos hlt).core]
      rintro ⟨⟩
  have hgoesOn := h.goesOn_iff hcore hmem
  constructor
  · rintro ⟨u, hu, hgone, hquiet⟩
    obtain rfl := hu.unique hfetch
    have hnone := mt hlast.sideEffect_iff.mpr (hquiet (n + 1) (Nat.succ_pos n) (Nat.lt_succ_self _))
    exact ⟨fun hin ↦ hnone (.inl hin), fun hbyte ↦ hnone (.inr hbyte), hgoesOn.mp hgone⟩
  · rintro ⟨hin, hbyte, hrd⟩
    refine ⟨n + 2, hfetch, hgoesOn.mpr hrd, fun v hpos hlt heffect ↦ ?_⟩
    rcases (hloads hpos hlt).sideEffect_iff.mp heffect with heq | heq
    · exact hin heq
    · exact hbyte heq

/-- An instruction the core flags as an error is a NOP unless it is a load that
reads a port which reading changes, or another word than its register holds. -/
theorem hasNoEffect_iff (h : Executes b) (herror : Core.erroneous b.soc.core = true)
    (hfair : ∀ n, ∃ u ≥ n, (env u).answers = true) :
    HasNoEffect p b env ↔
      (Core.opcode b.soc.core.ir = 0b00000 → LoadsNothing b env) := by
  rcases Core.erroneous_cases herror with ⟨hopcode, htype⟩ | ⟨hopcode, htype⟩ | ⟨-, hopcode, hnext⟩
  · have hload : Core.opcode b.soc.core.ir ≠ 0b00000 := by
      rw [hopcode]
      decide
    exact iff_of_true (h.hasNoEffect_of_store hopcode htype) fun heq ↦ absurd heq hload
  · rw [h.hasNoEffect_load_iff hopcode htype hfair]
    exact (imp_iff_right hopcode).symm
  · exact iff_of_true (h.hasNoEffect_of_error hnext) fun heq ↦ absurd heq hopcode

end Instructions

/-! ## A load of a double word -/

/-- `ld x1, 0(x0)` in every word of the memory, in the cycle it is executed. -/
def doubleWord (x1 : Word) : Board where
  soc :=
    { core := { Core.powerUp with
        ramioReadType := 0b111
        flashCsN := true
        state := .cpuExecute
        ir := 0x00003083
        data := Function.update (fun _ ↦ 0) 1 x1 }
      ramio := ⟨0b1111, BitVec.allOnes 32, false, BitVec.allOnes 32, true⟩ }
  mem := fun _ ↦ 0x00003083

def prompt : Surroundings := ⟨true, ⟨0, false, false, 0, false, 0, false, false, 0⟩, false⟩

theorem executes_doubleWord (x1 : Word) : Executes (doubleWord x1) := ⟨rfl, rfl, rfl⟩

theorem loadsNothing_doubleWord (x1 : Word) :
    LoadsNothing (doubleWord x1) (fun _ ↦ prompt) ↔ x1 = 0x00003083 := by
  have hzero : Core.rs1 (doubleWord x1).soc.core.ir = 0 := by
    change Core.rs1 0x00003083 = 0
    decide
  have haddress : loadAddress (doubleWord x1).soc.core = 0 := by
    rw [loadAddress, Core.rs1DataOut, Registers.dataOut, if_pos hzero]
    change 0 + Core.iImm12 0x00003083 = 0
    decide
  have hrd : Core.rd (doubleWord x1).soc.core.ir = 1 := by
    change Core.rd 0x00003083 = 1
    decide
  have hword : loadedWord (doubleWord x1) (fun _ ↦ prompt) = 0x00003083 := by
    rw [loadedWord, haddress]
    rfl
  have hregister : registers (doubleWord x1).soc.core 1 = x1 := by
    rfl
  rw [LoadsNothing, haddress, hrd, hword, hregister]
  constructor
  · rintro ⟨-, -, hzero | hvalue⟩
    · exact absurd hzero (by decide)
    · exact hvalue
  · intro hvalue
    exact ⟨by decide, by decide, .inr hvalue⟩

theorem hasNoEffect_iff_doubleWord :
    HasNoEffect pollingParams (doubleWord 0x00003083) (fun _ ↦ prompt) := by
  rw [hasNoEffect_iff (executes_doubleWord 0x00003083) (by decide) fun n ↦ ⟨n, le_rfl, rfl⟩]
  exact fun _ ↦ (loadsNothing_doubleWord _).mpr rfl

theorem not_hasNoEffect :
    ¬ ∀ (p : Core.Params) (b : Board) (env : ℕ → Surroundings), Executes b →
      Core.erroneous b.soc.core = true → (∀ n, ∃ u ≥ n, (env u).answers = true) →
      HasNoEffect p b env := by
  intro hall
  have heffect := hall pollingParams (doubleWord 0) (fun _ ↦ prompt) (executes_doubleWord 0)
    (by decide) fun n ↦ ⟨n, le_rfl, rfl⟩
  rw [(executes_doubleWord 0).hasNoEffect_load_iff (by decide) (by decide)
    fun n ↦ ⟨n, le_rfl, rfl⟩, loadsNothing_doubleWord] at heffect
  exact absurd heffect (by decide)

end TangNano.Soc
