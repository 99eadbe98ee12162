import TangNano.SdCard.Engine

/-!
# `sdcard` with its controller and a card

The buffer behind the ports, `sd_controller` and the card in one clocked
system.  While no sector is transferred it is a buffer with an index and the
sectors of the card.
-/

namespace TangNano.SdSystem

open Serial SpiCard SdCardPort SdEngine

structure System where
  port : SdCardPort.Regs
  engine : Engine

/-- One rising edge of `clk`. -/
def step (p : Params) (T : ℕ → Timing) (i : Input) (x : System) : System where
  port := SdCardPort.step p i x.engine.controller x.port
  engine := SdEngine.step T (controllerInput i x.port false) x.engine

def noCommand : Input := ⟨true, 0, 0, 0⟩

/-- One rising edge of `clk` without a command. -/
def idle (p : Params) (T : ℕ → Timing) : System → System := step p T noCommand

/-- What the system holds: the buffer, the index and the sectors of the card. -/
structure Contents where
  buffer : Sector
  index : BitVec 9
  sectors : Word → Sector

/-- The cycles from one pulse of the slow clock to the next. -/
def period (p : Params) : ℕ := 2 ^ p.clockDivider

/-- No sector is transferred. -/
structure Ready (p : Params) (x : System) (d : Contents) : Prop where
  state : x.port.state = .idle
  rd : x.port.rd = false
  wr : x.port.wr = false
  counter : x.port.counter < period p
  buffer : x.port.buffer = d.buffer
  index : x.port.bufferIndex = d.index
  controller : x.engine.controller.state = .idle
  mode : x.engine.controller.cmdMode = true
  byteAvailable : x.engine.controller.byteAvailable = false
  readyForNextByte : x.engine.controller.readyForNextByte = false
  line : Line x.engine []
  receiver : ∃ f, x.engine.card.receiver = .command 0 f
  sectors : x.engine.card.sectors = d.sectors

/-- A system in which a command may come. -/
def rested : System where
  port := ⟨fun _ ↦ 0, 0, false, false, 0, 0, false, .idle, 0⟩
  engine :=
    ⟨⟨.idle, .idle, false, BitVec.allOnes 56, true, 0xff, 0b001, 0, 0, 0, 0, false, 0, false, false,
      0⟩, ⟨false, true, [], .command 0 0, fun _ i ↦ i.setWidth 8, 0⟩⟩

def restedContents : Contents := ⟨fun _ ↦ 0, 0, fun _ i ↦ i.setWidth 8⟩

theorem rested_ready (p : Params) : Ready p rested restedContents :=
  ⟨rfl, rfl, rfl, Nat.two_pow_pos _, rfl, rfl, rfl, rfl, rfl, rfl,
    ⟨rfl, rfl, rfl, rfl⟩, ⟨0, rfl⟩, rfl⟩

/-- A card that does not let the host wait. -/
def prompt (_ : ℕ) : Timing := ⟨0, 0, 0, 0, 0⟩

/-- A sector is transferred. -/
def Busy (x : System) : Prop := busy x.port = true

/-! ## Events -/

/-- What the controller and the port do. -/
inductive Event
  /-- a command that reads the block at an address -/
  | startRead (address : Word)
  /-- a command that writes the block at an address -/
  | startWrite (address : Word)
  /-- `byte_available` rises -/
  | announce (data : Byte)
  /-- a byte goes to a slot of the buffer -/
  | store (slot : BitVec 9) (data : Byte)
  /-- `ready_for_next_byte` rises -/
  | request
  /-- a byte is taken from a slot of the buffer -/
  | take (slot : BitVec 9)
deriving DecidableEq, Repr

def controllerEvents (i : SdController.Input) (k : SdController.Regs) : List Event :=
  if i.clkPulseSlow then
    match k.state with
    | .readBlock => [.startRead i.address]
    | .readBlockData => [.announce k.recvData]
    | .writeBlockCmd => [.startWrite i.address, .request]
    | .writeBlockData =>
        if k.byteCounter = 0 ∨ k.byteCounter = 2 ∨ k.byteCounter = 1 ∨
          k.byteCounter = SdController.writeDataSize then [] else [.request]
    | _ => []
  else []

def portEvents (k : SdController.Regs) (s : SdCardPort.Regs) : List Event :=
  match s.state with
  | .readSector => if k.byteAvailable then [.store s.bufferIndex k.dout] else []
  | .writeSector =>
      if k.readyForNextByte && s.waitingReadyForNextByte then [.take s.bufferIndex] else []
  | _ => []

def events (x : System) : List Event :=
  controllerEvents (controllerInput noCommand x.port false) x.engine.controller ++
    portEvents x.engine.controller x.port

theorem controllerEvents_between (i : SdController.Input) {k : SdController.Regs}
    (h : Between k.state) : controllerEvents i k = [] := by
  obtain ⟨-, hread, hdata, hwrite, hblock, -⟩ := h
  unfold controllerEvents
  split
  · split
    · next hstate => exact absurd hstate hread
    · next hstate => exact absurd hstate hdata
    · next hstate => exact absurd hstate hwrite
    · next hstate => exact absurd hstate hblock
    · rfl
  · rfl

/-! ## The slow clock -/

/-- The port in some cycle of the slow clock. -/
def phase (n : ℕ) (t : SdCardPort.Regs) : SdCardPort.Regs := { t with counter := n }

/-- What `sd_controller` is given when it steps. -/
def pulsed (t : SdCardPort.Regs) : SdController.Input :=
  controllerInput noCommand (phase 0 t) false

/-- From the cycle after a pulse to the cycle after the next one: the port sees
the controller and the controller steps. -/
def slow (p : Params) (T : ℕ → Timing) (x : System) : System where
  port := fsm p noCommand x.engine.controller x.port
  engine := SdEngine.step T (pulsed x.port) x.engine

/-- The events of the port in the first cycle and of the controller in the last. -/
def slowEvents (x : System) : List Event :=
  controllerEvents (pulsed x.port) x.engine.controller ++ portEvents x.engine.controller x.port

/-- The port has nothing more to do when it has seen the controller once. -/
structure Once (p : Params) (T : ℕ → Timing) (x : System) : Prop where
  settled : Settled x.engine
  again : fsm p noCommand x.engine.controller (fsm p noCommand x.engine.controller x.port) =
    fsm p noCommand x.engine.controller x.port
  silent : portEvents x.engine.controller (fsm p noCommand x.engine.controller x.port) = []
  engine : SdEngine.step T (pulsed (fsm p noCommand x.engine.controller x.port)) x.engine =
    SdEngine.step T (pulsed x.port) x.engine
  separate : controllerEvents (pulsed x.port) x.engine.controller = [] ∨
    portEvents x.engine.controller x.port = []

section Clock

variable {p : Params} {T : ℕ → Timing} {x : System} {t : SdCardPort.Regs} {e : Engine}

theorem logged_one (x : System) :
    Clocked.Logged (idle p T) events Busy x (events x) (idle p T x) := .one x

theorem phase_eq {n : ℕ} (h : t.counter = n) : phase n t = t := by
  subst h
  rfl

theorem Once.of_still {t' : SdCardPort.Regs} (hport : fsm p noCommand e.controller t = t')
    (hstill : fsm p noCommand e.controller t' = t' ∧ portEvents e.controller t' = [])
    (hsettled : Settled e)
    (hengine : SdEngine.step T (pulsed t') e = SdEngine.step T (pulsed t) e)
    (hseparate : controllerEvents (pulsed t) e.controller = [] ∨ portEvents e.controller t = []) :
    Once p T ⟨t, e⟩ := by
  subst hport
  exact ⟨hsettled, hstill.1, hstill.2, hengine, hseparate⟩

theorem period_pos : 0 < period p := Nat.two_pow_pos _

theorem fsm_phase (i : Input) (k : SdController.Regs) (n : ℕ) :
    fsm p i k (phase n t) = phase n (fsm p i k t) := by
  obtain ⟨buffer, bufferIndex, rd, wr, din, address, waiting, state, counter⟩ := t
  cases state with
  | init =>
      simp only [fsm, phase]
      split <;> rfl
  | idle =>
      simp only [fsm, phase, SdCardPort.idle]
      repeat' split
      all_goals rfl
  | preReadSector => rfl
  | readSector =>
      simp only [fsm, phase, readSector]
      cases k.byteAvailable <;> cases SdController.ready k <;> rfl
  | preWriteSector => rfl
  | writeSector =>
      simp only [fsm, phase, writeSector]
      cases k.readyForNextByte <;> cases waiting <;> cases SdController.ready k <;> rfl

theorem fsm_counter (i : Input) (k : SdController.Regs) :
    (fsm p i k t).counter = t.counter := by
  have hphase : fsm p i k t = phase t.counter (fsm p i k t) := fsm_phase i k t.counter
  rw [hphase]
  rfl

theorem fsm_address (k : SdController.Regs) :
    (fsm p noCommand k t).address = t.address := by
  unfold fsm
  split
  · split <;> rfl
  · rfl
  · rfl
  · unfold readSector
    cases k.byteAvailable <;> cases SdController.ready k <;> rfl
  · rfl
  · unfold writeSector
    cases k.readyForNextByte <;> cases t.waitingReadyForNextByte <;>
      cases SdController.ready k <;> rfl

theorem port_step (hcounter : t.counter < period p) {i : Input} (hrst : i.rstN = true)
    (k : SdController.Regs) :
    SdCardPort.step p i k t = phase ((t.counter + 1) % period p) (fsm p i k t) := by
  simp only [SdCardPort.step, hrst, if_true, phase, period] at hcounter ⊢
  by_cases hdivider : p.clockDivider = 0
  · have hzero : t.counter = 0 := by
      rw [hdivider] at hcounter
      omega
    simp [hdivider, hzero]
  · rw [if_pos hdivider]

/-- A cycle in which the controller steps. -/
theorem idle_pulse (t : SdCardPort.Regs) (e : Engine) :
    idle p T ⟨phase 0 t, e⟩ =
      ⟨phase (1 % period p) (fsm p noCommand e.controller t), SdEngine.step T (pulsed t) e⟩ := by
  have hport : SdCardPort.step p noCommand e.controller (phase 0 t) =
      phase (1 % period p) (fsm p noCommand e.controller t) := by
    rw [port_step (t := phase 0 t) period_pos rfl, fsm_phase]
    rfl
  simp only [idle, step, hport]
  rfl

/-- A cycle in which the controller stands still. -/
theorem idle_hold (h : Settled e) (t : SdCardPort.Regs) {n : ℕ} (hn : n < period p)
    (hpos : n ≠ 0) :
    idle p T ⟨phase n t, e⟩ = ⟨phase ((n + 1) % period p) (fsm p noCommand e.controller t), e⟩ := by
  have hport : SdCardPort.step p noCommand e.controller (phase n t) =
      phase ((n + 1) % period p) (fsm p noCommand e.controller t) := by
    rw [port_step (t := phase n t) hn rfl, fsm_phase]
    rfl
  have hengine : SdEngine.step T (controllerInput noCommand (phase n t) false) e = e :=
    h.hold rfl (beq_false_of_ne hpos)
  simp only [idle, step, hport, hengine]

theorem events_hold (t : SdCardPort.Regs) (e : Engine) {n : ℕ} (hpos : n ≠ 0) :
    events ⟨phase n t, e⟩ = portEvents e.controller t := by
  have hnone : controllerEvents (controllerInput noCommand (phase n t) false) e.controller = [] :=
    if_neg (by simpa [controllerInput, clkPulseSlow, phase] using hpos)
  rw [events, hnone]
  rfl

theorem controllerEvents_pulsed {t t' : SdCardPort.Regs} (h : t'.address = t.address)
    (k : SdController.Regs) : controllerEvents (pulsed t') k = controllerEvents (pulsed t) k := by
  simp only [controllerEvents, pulsed, controllerInput, phase, h]
  rfl

/-- Nothing happens until the next pulse. -/
theorem logged_hold (hsettled : Settled e) (hstill : fsm p noCommand e.controller t = t)
    (hsilent : portEvents e.controller t = []) (hbusy : busy t = true) {n : ℕ} (hn : n < period p)
    (hpos : n ≠ 0) :
    Clocked.Logged (idle p T) events Busy ⟨phase n t, e⟩ [] ⟨phase 0 t, e⟩ := by
  have hone (n : ℕ) (hn : n < period p) (hpos : n ≠ 0) :
      Clocked.Logged (idle p T) events Busy ⟨phase n t, e⟩ []
        ⟨phase ((n + 1) % period p) t, e⟩ := by
    have hcycle := logged_one (p := p) (T := T) ⟨phase n t, e⟩
    rwa [idle_hold hsettled t hn hpos, events_hold t e hpos, hstill, hsilent] at hcycle
  obtain ⟨m, hm⟩ := Nat.exists_eq_add_of_lt hn
  induction m generalizing n with
  | zero =>
      have hlast := hone n hn hpos
      rwa [show n + 1 = period p by omega, Nat.mod_self] at hlast
  | succ m ih =>
      have hnext := hone n hn hpos
      rw [Nat.mod_eq_of_lt (by omega)] at hnext
      exact hnext.trans hbusy (ih (n := n + 1) (by omega) (by omega) (by omega))

/-- Without a divider every cycle is a step of the slow clock. -/
theorem logged_undivided (hdivider : p.clockDivider = 0) (hcounter : t.counter = 1 % period p) :
    Clocked.Logged (idle p T) events Busy ⟨t, e⟩ (slowEvents ⟨t, e⟩) (slow p T ⟨t, e⟩) := by
  have hperiod : period p = 1 := by rw [period, hdivider, pow_zero]
  have hphase : phase 0 t = t := phase_eq (by rw [hcounter, hperiod])
  have hone := logged_one (p := p) (T := T) ⟨phase 0 t, e⟩
  have hpulsed : pulsed t = controllerInput noCommand t false := by rw [pulsed, hphase]
  rw [idle_pulse, hperiod, ← fsm_phase, hphase] at hone
  rw [slow, slowEvents]
  dsimp only
  rwa [events, ← hpulsed] at hone

/-- The port moves in the cycle after a pulse and waits for the next one. -/
theorem logged_low (hsettled : Settled e)
    (hagain : fsm p noCommand e.controller (fsm p noCommand e.controller t) =
      fsm p noCommand e.controller t)
    (hsilent : portEvents e.controller (fsm p noCommand e.controller t) = [])
    (hbusy : busy (fsm p noCommand e.controller t) = true) (hperiod : 1 < period p)
    (hphase : phase 1 t = t) :
    Clocked.Logged (idle p T) events Busy ⟨t, e⟩ (portEvents e.controller t)
      ⟨phase 0 (fsm p noCommand e.controller t), e⟩ := by
  have hfirst := logged_one (p := p) (T := T) ⟨phase 1 t, e⟩
  rw [idle_hold hsettled t hperiod one_ne_zero, events_hold t e one_ne_zero, hphase] at hfirst
  by_cases htwo : period p = 2
  · rwa [htwo, Nat.mod_self] at hfirst
  · have hless : 1 + 1 < period p := by omega
    rw [Nat.mod_eq_of_lt hless] at hfirst
    have hhold := logged_hold hsettled hagain hsilent hbusy hless (T := T) (by decide)
    have hboth := hfirst.trans hbusy hhold
    rwa [List.append_nil] at hboth

/-- With a divider the controller steps at the end of a period. -/
theorem logged_divided (hdivider : p.clockDivider ≠ 0) (hcounter : t.counter = 1 % period p)
    (hbusy : busy (fsm p noCommand e.controller t) = true) (h : Once p T ⟨t, e⟩) :
    Clocked.Logged (idle p T) events Busy ⟨t, e⟩ (slowEvents ⟨t, e⟩) (slow p T ⟨t, e⟩) := by
  obtain ⟨hsettled, hagain, hsilent, hengine, hseparate⟩ := h
  have hperiod : 1 < period p := Nat.one_lt_two_pow hdivider
  dsimp only at hsettled hagain hsilent hengine hseparate
  have hphase : phase 1 t = t := phase_eq (hcounter.trans (Nat.mod_eq_of_lt hperiod))
  have hlow := logged_low (T := T) hsettled hagain hsilent hbusy hperiod hphase
  have hlast := logged_one (p := p) (T := T) ⟨phase 0 (fsm p noCommand e.controller t), e⟩
  have hevents : events ⟨phase 0 (fsm p noCommand e.controller t), e⟩ =
      controllerEvents (pulsed t) e.controller := by
    have haddress := controllerEvents_pulsed (fsm_address (p := p) (t := t) e.controller)
      e.controller
    have hnone : portEvents e.controller (phase 0 (fsm p noCommand e.controller t)) = [] := hsilent
    rw [events, hnone, List.append_nil]
    exact haddress
  have hnext : phase (1 % period p) (fsm p noCommand e.controller t) =
      fsm p noCommand e.controller t := by
    rw [Nat.mod_eq_of_lt hperiod, ← fsm_phase, hphase]
  rw [idle_pulse, hagain, hengine, hevents, hnext] at hlast
  have hall := hlow.trans hbusy hlast
  -- the two logs of a period never both speak, so their order does not matter
  have hswap : portEvents e.controller t ++ controllerEvents (pulsed t) e.controller =
      slowEvents ⟨t, e⟩ := by
    rw [slowEvents]
    rcases hseparate with hnone | hnone
    · rw [hnone, List.append_nil, List.nil_append]
    · rw [hnone, List.append_nil, List.nil_append]
  rwa [hswap] at hall

theorem logged_slow (hcounter : x.port.counter = 1 % period p)
    (hbusy : busy (fsm p noCommand x.engine.controller x.port) = true)
    (h : p.clockDivider = 0 ∨ Once p T x) :
    Clocked.Logged (idle p T) events Busy x (slowEvents x) (slow p T x) := by
  by_cases hdivider : p.clockDivider = 0
  · exact logged_undivided hdivider hcounter
  · exact logged_divided hdivider hcounter hbusy (h.resolve_left hdivider)

end Clock

section Steps

variable {p : Params} {T : ℕ → Timing} {x : System} {d : Contents}

/-- The engine runs while the port does not change. -/
theorem via_engine {port port' : SdCardPort.Regs} {e e' : Engine} {asks : Bool}
    (hcounter : port.counter = 1 % period p) (hport : fsm p noCommand e.controller port = port')
    (hengine : SdEngine.step T (pulsed port') e = SdEngine.step T (pulsed port) e)
    (hsettled : Settled e) (hrst : e.controller.state ≠ .rst) (hinit : e.controller.state ≠ .init)
    (hstable : ∀ k : SdController.Regs, k.byteAvailable = false → k.readyForNextByte = asks →
      k.state ≠ .idle → fsm p noCommand k port' = port' ∧ portEvents k port' = [])
    (honce : p.clockDivider = 0 ∨ Once p T ⟨port, e⟩) (hbusy : busy port' = true)
    (h : Clocked.Via (SdEngine.step T (pulsed port')) (Quiet asks) e e') :
    Clocked.Logged (idle p T) events Busy ⟨port, e⟩ (slowEvents ⟨port, e⟩) ⟨port', e'⟩ := by
  have hcounter' : port'.counter = 1 % period p := by
    rw [← hport, fsm_counter, hcounter]
  have hsteps := h.invariant (I := Settled) (hsettled.step rfl rfl hrst hinit) fun z hz hi ↦
    hi.step rfl rfl hz.state.2.2.2.2.2.1 hz.state.2.2.2.2.2.2
  have hvia : Clocked.Via (slow p T)
      (fun x ↦ x.port = port' ∧ fsm p noCommand x.engine.controller port' = port' ∧
        slowEvents x = [] ∧ Once p T x) ⟨port, e⟩ ⟨port', e'⟩ := by
    refine hsteps.lift (fun e : Engine ↦ (⟨port', e⟩ : System)) ?_ ?_
    · rw [slow, hport, ← hengine]
    · rintro z ⟨hquiet, hz⟩
      obtain ⟨hkeep, hnone⟩ :=
        hstable z.controller hquiet.byteAvailable hquiet.readyForNextByte hquiet.state.1
      have hevents : controllerEvents (pulsed port') z.controller = [] :=
        controllerEvents_between _ hquiet.state
      exact ⟨by rw [slow, hkeep], rfl, hkeep, by rw [slowEvents, hevents, hnone]; rfl,
        .of_still hkeep ⟨hkeep, hnone⟩ hz rfl (.inl hevents)⟩
  have hfirst := logged_slow hcounter (by rw [hport]; exact hbusy) honce
  refine hvia.refine hfirst ?_
  rintro ⟨t, z⟩ ⟨ht, hkeep, hnone, hz⟩
  dsimp only at ht
  subst t
  have hnext := logged_slow (x := ⟨port', z⟩) hcounter' (by rw [hkeep]; exact hbusy) (.inr hz)
  rw [hnone] at hnext
  exact ⟨hbusy, hnext⟩

/-- Nothing but the port changes when a command comes. -/
theorem Ready.step_engine (h : Ready p x d) {i : Input} (hrst : i.rstN = true) :
    (step p T i x).engine = x.engine :=
  h.line.step_idle (controllerInput i x.port false) h.controller (congrArg not hrst) h.rd h.wr

theorem Ready.step_port (h : Ready p x d) {i : Input} (hrst : i.rstN = true) :
    (step p T i x).port =
      phase ((x.port.counter + 1) % period p) (SdCardPort.idle p i x.port) := by
  change SdCardPort.step p i x.engine.controller x.port = _
  rw [port_step h.counter hrst, fsm, h.state]

/-- A ready system whose buffer or index changes. -/
theorem Ready.of_port (h : Ready p x d) {y : System} {b : Sector} {i : BitVec 9} {n : ℕ}
    (hport : y.port = { x.port with buffer := b, bufferIndex := i, counter := n % period p })
    (hengine : y.engine = x.engine) : Ready p y { d with buffer := b, index := i } := by
  constructor
  · rw [hport]
    exact h.state
  · rw [hport]
    exact h.rd
  · rw [hport]
    exact h.wr
  · rw [hport]
    exact Nat.mod_lt n period_pos
  · rw [hport]
  · rw [hport]
  · rw [hengine]
    exact h.controller
  · rw [hengine]
    exact h.mode
  · rw [hengine]
    exact h.byteAvailable
  · rw [hengine]
    exact h.readyForNextByte
  · rw [hengine]
    exact h.line
  · rw [hengine]
    exact h.receiver
  · rw [hengine]
    exact h.sectors

/-- Without a command a ready system stays as it is. -/
theorem Ready.idle (h : Ready p x d) : Ready p (SdSystem.idle p T x) d := by
  have hport : (SdSystem.idle p T x).port =
      { x.port with counter := (x.port.counter + 1) % period p } := by
    rw [SdSystem.idle, h.step_port rfl]
    rfl
  have hready := h.of_port (y := SdSystem.idle p T x) (b := x.port.buffer)
    (i := x.port.bufferIndex) hport (h.step_engine rfl)
  rw [h.buffer, h.index] at hready
  exact hready

theorem Ready.iterate (h : Ready p x d) (n : ℕ) : Ready p ((SdSystem.idle p T)^[n] x) d := by
  induction n with
  | zero => exact h
  | succ n ih =>
      rw [Function.iterate_succ_apply']
      exact ih.idle

theorem Ready.not_busy (h : Ready p x d) : busy x.port = false := by
  rw [busy, h.state]
  rfl

def Contents.advance (d : Contents) : Contents := { d with index := d.index + 1 }

/-- A byte is stored at the index, the index advances. -/
def Contents.store (data : Byte) (d : Contents) : Contents :=
  { d with buffer := Function.update d.buffer d.index data, index := d.index + 1 }

theorem Ready.advance (h : Ready p x d) (s : Word) (v : Byte) :
    Ready p (step p T ⟨true, 2, s, v⟩ x) d.advance := by
  have hport : (step p T ⟨true, 2, s, v⟩ x).port =
      { x.port with
        buffer := x.port.buffer
        bufferIndex := x.port.bufferIndex + 1
        counter := (x.port.counter + 1) % period p } := by
    rw [h.step_port rfl]
    rfl
  have hready := h.of_port hport (h.step_engine rfl)
  rw [h.buffer, h.index] at hready
  exact hready

theorem Ready.store (h : Ready p x d) (s : Word) (v : Byte) :
    Ready p (step p T ⟨true, 3, s, v⟩ x) (d.store v) := by
  have hport : (step p T ⟨true, 3, s, v⟩ x).port =
      { x.port with
        buffer := Function.update x.port.buffer x.port.bufferIndex v
        bufferIndex := x.port.bufferIndex + 1
        counter := (x.port.counter + 1) % period p } := by
    rw [h.step_port rfl]
    rfl
  have hready := h.of_port hport (h.step_engine rfl)
  rw [h.buffer, h.index] at hready
  exact hready

/-- The port sees that the controller is ready. -/
theorem logged_ready {t : SdCardPort.Regs} {e : Engine} (hcounter : t.counter < period p)
    (hline : Line e []) (hstate : e.controller.state = .idle) (hrd : t.rd = false)
    (hwr : t.wr = false) (hport : fsm p noCommand e.controller t = { t with state := .idle })
    (hnone : portEvents e.controller t = []) :
    Clocked.Logged (idle p T) events Busy ⟨t, e⟩ []
      ⟨phase ((t.counter + 1) % period p) { t with state := .idle }, e⟩ := by
  have hengine : SdEngine.step T (controllerInput noCommand t false) e = e :=
    hline.step_idle _ hstate rfl hrd hwr
  have hstep : SdCardPort.step p noCommand e.controller t =
      phase ((t.counter + 1) % period p) { t with state := .idle } := by
    rw [port_step hcounter rfl, hport]
  have hnext : idle p T ⟨t, e⟩ =
      ⟨phase ((t.counter + 1) % period p) { t with state := .idle }, e⟩ := by
    rw [idle, step, hengine, hstep]
  have hevents : events ⟨t, e⟩ = [] := by
    rw [events, hnone, controllerEvents, hstate, ite_self]
    rfl
  have hone := logged_one (p := p) (T := T) ⟨t, e⟩
  rwa [hnext, hevents] at hone

end Steps

end TangNano.SdSystem
