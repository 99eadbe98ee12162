import TangNano.SdCard.PowerUp
import TangNano.SdCard.System

/-!
# From power-up to the first sector

After a reset `sd_controller` makes the clock of a card that is not selected,
sends the commands that initialise it and repeats the last two until the card
says that it is ready.  Then the port gives up `init`.
-/

namespace TangNano.SdPowerUp

open Serial SpiCard
open SdController (StateE mosi fsm)
open SdCardPort (Sector)

/-! ## Commands -/

/-- No command is underway. -/
structure Rested (e : Engine) (state : StateE) (stage : Stage) (tries : ℕ)
    (sectors : Word → Sector) : Prop where
  line : SdEngine.Line ⟨e.controller, e.card.card⟩ []
  state : e.controller.state = state
  mode : e.controller.cmdMode = true
  byteAvailable : e.controller.byteAvailable = false
  readyForNextByte : e.controller.readyForNextByte = false
  stage : e.card.stage = stage
  tries : e.card.tries = tries
  receiver : ∃ f, e.card.card.receiver = .command 0 f
  sectors : e.card.card.sectors = sectors

theorem Rested.working {e : Engine} {state : StateE} {stage : Stage} {tries : ℕ}
    {sectors : Word → Sector} (h : Rested e state stage tries sectors) (hstate : state ≠ .idle) :
    Working sectors e := by
  obtain ⟨f, hf⟩ := h.receiver
  exact ⟨by rwa [h.state], ⟨0, f, hf⟩, h.sectors⟩

theorem Rested.hearing {e : Engine} {state : StateE} {stage : Stage} {tries : ℕ}
    {sectors : Word → Sector} (h : Rested e state stage tries sectors) :
    ∃ f, e.card = ⟨stage, tries, hearing (.command 0 f) (showing [] e.card.card)⟩ := by
  obtain ⟨f, hf⟩ := h.receiver
  have hline : e.card.card = showing [] e.card.card := h.line.showing
  refine ⟨f, ?_⟩
  rw [← hline, ← h.stage, ← h.tries, ← hf]
  rfl

/-- A command and the rest of its answer, which begins with a 0. -/
structure Exchange (T : ℕ → Timing) (s : StateE) (v : BitVec 48) (responseType : BitVec 3)
    (returnState : StateE) (stage stage' : Stage) (tries tries' : ℕ) (rest : List Bool) :
    Prop where
  unready : stage ≠ .ready
  command : ∀ i k, k.state = s →
    fsm i k = SdController.command (0xff#8 ++ v) responseType returnState k
  frame : bits (0xff#8 ++ v) = ones 8 ++ bits v
  start : v.getMsbD 0 = false
  last : (0xff#8 ++ v : BitVec 56).getMsbD 55 = true
  answers : ∀ c, execute T v ⟨stage, tries, c⟩ = answer T (false :: rest) stage' tries' c
  length : rest.length = if responseType = 0b111 then 39 else 7

section Commands

variable {T : ℕ → Timing} {i : SdController.Input} {e : Engine} {sectors : Word → Sector}

/-- A step in which the clock of the card stands still. -/
theorem step_still {l : List Bool} (h : SdEngine.Line ⟨e.controller, e.card.card⟩ l)
    (hreset : i.reset = false) (hpulse : i.clkPulseSlow = true) {k : SdController.Regs}
    (hfsm : fsm { i with miso := e.card.card.miso } e.controller = k) (hcs : k.cs = false)
    (hsclk : k.sclkSig = false) : step T i e = ⟨k, e.card⟩ := by
  have hlow : e.card.card.sclk = false := h.cardSclk
  rw [step_eq hreset hpulse, hfsm, hcs, hsclk]
  simp [observe, SpiCard.observe, Fresh.onCard, hlow]

section Exchange

variable {s : StateE} {v : BitVec 48} {responseType : BitVec 3} {returnState : StateE}
  {stage stage' : Stage} {tries tries' : ℕ} {rest : List Bool}

theorem Exchange.cycles (hx : Exchange T s v responseType returnState stage stage'
    tries tries' rest)
    (h : Rested e s stage tries sectors) :
    ∃ c n, SdPowerUp.cycles T (Serial.bits (0xff#8 ++ v)) e.card =
        ⟨stage', tries', showing (ones n ++ false :: rest) c⟩ ∧
      c.receiver = .command 0 0 ∧ c.sclk = false ∧ c.sectors = sectors := by
  obtain ⟨f, hlistens⟩ := h.hearing
  obtain ⟨f', hcycles⟩ := cycles_command (T := T) stage tries e.card.card hx.start f
  rw [hx.answers, ← hx.frame, ← hlistens] at hcycles
  exact ⟨{ e.card.card with receiver := .command 0 0, served := e.card.card.served + 1 },
    (T e.card.card.served).response, hcycles, rfl, h.line.cardSclk, h.sectors⟩

/-- While the command comes the card is given no block. -/
theorem Exchange.listens (hx : Exchange T s v responseType returnState stage stage'
    tries tries' rest)
    (h : Rested e s stage tries sectors) (mosi : Bool) {j : ℕ} (hj : j < 56) :
    Listens sectors (receive T mosi (SdPowerUp.cycles T (firstBits (0xff#8 ++ v) j) e.card)) := by
  obtain ⟨f, hhears⟩ := h.hearing
  have hbits : firstBits (0xff#8 ++ v) j = (ones 8 ++ bits v).take j := by
    rw [← hx.frame, bits, firstBits, firstBits, ← List.map_take, List.take_range,
      Nat.min_eq_left (Nat.le_of_lt hj)]
  obtain ⟨count, f', hpart⟩ :=
    cycles_part (T := T) stage tries e.card.card hx.start f hj
  have hlistens : Listens sectors
      ⟨stage, tries, SpiCard.hearing (.command count f') (showing [] e.card.card)⟩ :=
    ⟨⟨count, f', rfl⟩, h.sectors⟩
  rw [hbits, hhears, hpart]
  exact hlistens.receive hx.unready mosi

/-- A command and its answer. -/
theorem Rested.via_command (h : Rested e s stage tries sectors)
    (hx : Exchange T s v responseType returnState stage stage' tries tries' rest)
    (hreset : i.reset = false) (hpulse : i.clkPulseSlow = true) :
    ∃ e', Clocked.Via (step T i) (Working sectors) e e' ∧
      Rested e' returnState stage' tries' sectors ∧
      e'.controller.recvData = shiftIn (0 : Byte) rest := by
  have hcs : e.controller.cs = false := h.line.cs
  have hsclk : e.controller.sclkSig = false := h.line.sclk
  have hstart : step T i e =
      ⟨SdController.command (0xff#8 ++ v) responseType returnState e.controller, e.card⟩ :=
    step_still h.line hreset hpulse (hx.command _ _ h.state) hcs hsclk
  obtain ⟨c, n, hcycles, hreceiver, hcard, hsectors⟩ := hx.cycles h
  have hlistens (l : List Bool) : Listens sectors ⟨stage', tries', showing l c⟩ :=
    ⟨⟨0, 0, hreceiver⟩, hsectors⟩
  obtain ⟨f, hf⟩ := h.receiver
  have hbegins : Listens sectors e.card := ⟨⟨0, f, hf⟩, h.sectors⟩
  have hsend := via_sendCmd (T := T) (f := e.card)
    (k := SdController.command (0xff#8 ++ v) responseType returnState e.controller)
    ⟨hreset, hpulse, hcs, hsclk, h.line.cardSclk⟩ rfl h.byteAvailable h.mode rfl
    fun j hj ↦ hx.listens h _ hj
  dsimp only [SdController.command] at hstart hsend
  rw [hcycles] at hsend
  have hlast (k : SdController.Regs) (hmode : k.cmdMode = true)
      (hout : k.cmdOut = shiftOnes (0xff#8 ++ v) 55) : mosi k = true := by
    rw [SdEngine.mosi_cmd hmode, hout, getMsbD_shiftOnes _ (by decide)]
    exact hx.last
  have hwait := via_receiveByteWait (T := T) stage' tries' (c := c)
    (k := { e.controller with
      responseType := responseType
      returnState := returnState
      state := .receiveByteWait
      bitCounter := 0
      cmdOut := shiftOnes (0xff#8 ++ v) 55 })
    ⟨hreset, hpulse, hcs, hsclk, hcard⟩ rfl h.byteAvailable (hlast _ h.mode rfl) hreceiver hsectors
    n rest
  have hreceive := via_receiveByte (T := T) stage' tries' (c := c)
    (k := { e.controller with
      responseType := responseType
      returnState := returnState
      state := .receiveByte
      bitCounter := if responseType = 0b111 then 38 else 6
      cmdOut := shiftOnes (0xff#8 ++ v) 55
      recvData := 0 })
    ⟨hreset, hpulse, hcs, hsclk, hcard⟩ rfl h.byteAvailable (hlast _ h.mode rfl) hreceiver hsectors
    (m := if responseType = 0b111 then 38 else 6) (by dsimp only; split <;> rfl) rest
  have hcount : (if responseType = 0b111 then 38 else 6) + 1 = rest.length := by
    rw [hx.length]
    split <;> rfl
  have hall : nextBits rest rest.length = rest := by
    have hnext := nextBits_append rest []
    rwa [List.append_nil] at hnext
  rw [hcount, hall, List.drop_length] at hreceive
  have hbits := (hsend.trans
      ⟨show StateE.receiveByteWait ≠ .idle by decide, hlistens _⟩ hwait).trans
    ⟨show StateE.receiveByte ≠ .idle by decide, hlistens _⟩ hreceive
  refine ⟨_, .step (by rw [hstart]; exact ⟨show StateE.sendCmd ≠ .idle by decide, hbegins⟩)
    (by rw [hstart]; exact hbits), ?_, rfl⟩
  exact ⟨⟨hcs, hsclk, hcard, rfl⟩, rfl, h.mode, h.byteAvailable, h.readyForNextByte, rfl, rfl,
    ⟨0, hreceiver⟩, hsectors⟩

end Exchange

/-! ## The commands that initialise a card -/

section Exchanges

variable {tries : ℕ}

theorem exchange_cmd0 {clocks : ℕ} (hclocks : 74 ≤ clocks) :
    Exchange T .cmd0 goIdleState 0b001 .cmd8 (.power clocks) (.idle false false) tries tries
      (zeros 6 ++ [true]) where
  unready := nofun
  command i k h := by
    simp only [fsm, h]
    rfl
  frame := by decide
  start := by decide
  last := by decide
  answers c := by
    simp only [execute, hclocks, true_and, if_true]
    rfl
  length := rfl

theorem exchange_cmd8 :
    Exchange T .cmd8 sendIfCond 0b111 .cmd55 (.idle false false) (.idle true false) tries tries
      (zeros 6 ++ [true] ++ bits (0x000001aa : Word)) where
  unready := nofun
  command i k h := by
    simp only [fsm, h]
    rfl
  frame := by decide
  start := by decide
  last := by decide
  answers c := by
    simp only [execute, if_true]
    rfl
  length := by decide

theorem exchange_cmd55 (app : Bool) :
    Exchange T .cmd55 0x770000000001 0b001 .cmd41 (.idle true app) (.idle true true) tries tries
      (zeros 6 ++ [true]) where
  unready := nofun
  command i k h := by
    simp only [fsm, h]
    rfl
  frame := by decide
  start := by decide
  last := by decide
  answers c := by
    simp only [execute]
    rw [if_neg (by decide), if_pos (by decide)]
    rfl
  length := rfl

/-- The card is not ready. -/
theorem exchange_cmd41 :
    Exchange T .cmd41 0x694000000001 0b001 .pollCmd (.idle true true) (.idle true false)
      (tries + 1) tries (zeros 6 ++ [true]) where
  unready := nofun
  command i k h := by
    simp only [fsm, h]
    rfl
  frame := by decide
  start := by decide
  last := by decide
  answers c := by
    simp only [execute]
    rw [if_neg (by decide), if_neg (by decide), if_pos (by decide), if_neg (by simp)]
    rfl
  length := rfl

theorem exchange_cmd41_ready :
    Exchange T .cmd41 0x694000000001 0b001 .pollCmd (.idle true true) .ready 0 0 (zeros 7) where
  unready := nofun
  command i k h := by
    simp only [fsm, h]
    rfl
  frame := by decide
  start := by decide
  last := by decide
  answers c := by
    simp only [execute]
    rw [if_neg (by decide), if_neg (by decide), if_pos (by decide), if_pos (by decide)]
    rfl
  length := rfl

end Exchanges

/-- The answer to the last command decides what follows. -/
theorem Rested.poll {stage : Stage} {tries : ℕ} (h : Rested e .pollCmd stage tries sectors)
    (hreset : i.reset = false) (hpulse : i.clkPulseSlow = true) :
    Rested (step T i e) (if e.controller.recvData.getLsbD 0 = false then .idle else .cmd55) stage
      tries sectors := by
  have hstep : step T i e = ⟨{ e.controller with
      state := if e.controller.recvData.getLsbD 0 = false then .idle else .cmd55 }, e.card⟩ := by
    refine step_still h.line hreset hpulse ?_ h.line.cs h.line.sclk
    simp only [fsm, h.state, SdController.pollCmd]
    split <;> rfl
  rw [hstep]
  exact ⟨⟨h.line.cs, h.line.sclk, h.line.cardSclk, h.line.showing⟩, rfl, h.mode, h.byteAvailable,
    h.readyForNextByte, h.stage, h.tries, h.receiver, h.sectors⟩

/-- The last two commands are repeated until the card is ready. -/
theorem Rested.via_ready {app : Bool} {tries : ℕ}
    (h : Rested e .cmd55 (.idle true app) tries sectors) (hreset : i.reset = false)
    (hpulse : i.clkPulseSlow = true) :
    ∃ e', Clocked.Via (step T i) (Working sectors) e e' ∧ Rested e' .idle .ready 0 sectors := by
  induction tries generalizing e app with
  | zero =>
      obtain ⟨e₁, hvia₁, h₁, -⟩ := h.via_command (T := T) (exchange_cmd55 app) hreset hpulse
      obtain ⟨e₂, hvia₂, h₂, hdata⟩ := h₁.via_command (T := T) exchange_cmd41_ready hreset hpulse
      have hpoll := h₂.poll (T := T) hreset hpulse
      rw [hdata, if_pos (by decide)] at hpoll
      refine ⟨_, ?_, hpoll⟩
      refine (hvia₁.trans ?_ hvia₂).trans ?_ (.one e₂)
      · exact h₁.working (by decide)
      · exact h₂.working (by decide)
  | succ tries ih =>
      obtain ⟨e₁, hvia₁, h₁, -⟩ := h.via_command (T := T) (exchange_cmd55 app) hreset hpulse
      obtain ⟨e₂, hvia₂, h₂, hdata⟩ := h₁.via_command (T := T) exchange_cmd41 hreset hpulse
      have hpoll := h₂.poll (T := T) hreset hpulse
      rw [hdata, if_neg (by decide)] at hpoll
      obtain ⟨e₃, hvia₃, h₃⟩ := ih hpoll
      refine ⟨e₃, ?_, h₃⟩
      refine ((hvia₁.trans ?_ hvia₂).trans ?_ (.one e₂)).trans ?_ hvia₃
      · exact h₁.working (by decide)
      · exact h₂.working (by decide)
      · exact hpoll.working (by decide)

/-- From the first command to a card that is ready. -/
theorem Rested.via_initialised {clocks tries : ℕ}
    (h : Rested e .cmd0 (.power clocks) tries sectors) (hclocks : 74 ≤ clocks)
    (hreset : i.reset = false) (hpulse : i.clkPulseSlow = true) :
    ∃ e', Clocked.Via (step T i) (Working sectors) e e' ∧ Rested e' .idle .ready 0 sectors := by
  obtain ⟨e₁, hvia₁, h₁, -⟩ := h.via_command (T := T) (exchange_cmd0 hclocks) hreset hpulse
  obtain ⟨e₂, hvia₂, h₂, -⟩ := h₁.via_command (T := T) exchange_cmd8 hreset hpulse
  obtain ⟨e₃, hvia₃, h₃⟩ := h₂.via_ready (T := T) hreset hpulse
  refine ⟨e₃, (hvia₁.trans ?_ hvia₂).trans ?_ hvia₃, h₃⟩
  · exact h₁.working (by decide)
  · exact h₂.working (by decide)

end Commands

/-! ## Before the first command -/

/-- The card is not selected and gets ones. -/
structure Deselected (e : Engine) (state : StateE) (clocks tries : ℕ) (sectors : Word → Sector) :
    Prop where
  cs : e.controller.cs = true
  state : e.controller.state = state
  mode : e.controller.cmdMode = true
  cmdOut : e.controller.cmdOut = BitVec.allOnes 56
  stage : e.card.stage = .power clocks
  tries : e.card.tries = tries
  sclk : e.card.card.sclk = e.controller.sclkSig
  miso : e.card.card.miso = true
  out : e.card.card.out = []
  receiver : e.card.card.receiver = .command 0 0
  sectors : e.card.card.sectors = sectors

section Deselected

variable {T : ℕ → Timing} {i : SdController.Input} {e : Engine} {sectors : Word → Sector}
  {clocks tries : ℕ}

theorem Deselected.working {state : StateE} (h : Deselected e state clocks tries sectors)
    (hstate : state ≠ .idle) : Working sectors e :=
  ⟨by rwa [h.state], ⟨0, 0, h.receiver⟩, h.sectors⟩

/-- A card that is not selected counts the edges of its clock. -/
theorem deselected_step {k : SdController.Regs} (state : StateE) (clocks' : ℕ)
    (hk : SdController.step { i with miso := e.card.card.miso } e.controller = k)
    (hcs : k.cs = true) (hstate : k.state = state) (hmode : k.cmdMode = true)
    (hout : k.cmdOut = BitVec.allOnes 56) (hstage : e.card.stage = .power clocks)
    (hclocks : (if k.sclkSig && !e.card.card.sclk then clocks + 1 else clocks) = clocks')
    (htries : e.card.tries = tries) (hsectors : e.card.card.sectors = sectors) :
    (step T i e).controller = k ∧ Deselected (step T i e) state clocks' tries sectors := by
  have hmosi : mosi k = true := by
    rw [SdEngine.mosi_cmd hmode, hout]
    decide
  have hstep : step T i e = ⟨k, observe T true k.sclkSig true e.card⟩ := by
    rw [step, hk, hcs, hmosi]
  rw [hstep]
  refine ⟨rfl, hcs, hstate, hmode, hout, ?_, htries, rfl, rfl, rfl, rfl, hsectors⟩
  simp only [observe, if_true, hstage, Stage.count, Bool.and_true, hclocks]

/-- As long as `reset` is high. -/
theorem deselected_reset (hreset : i.reset = true) (hstage : e.card.stage = .power clocks)
    (htries : e.card.tries = tries) (hsectors : e.card.card.sectors = sectors) :
    ∃ clocks', Deselected (step T i e) .rst clocks' tries sectors := by
  have hk : SdController.step { i with miso := e.card.card.miso } e.controller =
      SdController.reset { i with miso := e.card.card.miso } e.controller := by
    simp [SdController.step, hreset]
  obtain ⟨-, h⟩ := deselected_step (T := T) .rst _ hk rfl rfl rfl rfl hstage rfl htries hsectors
  exact ⟨_, h⟩

theorem controller_step (hreset : i.reset = false) (hpulse : i.clkPulseSlow = true) :
    SdController.step { i with miso := e.card.card.miso } e.controller =
      fsm { i with miso := e.card.card.miso } e.controller := by
  simp [SdController.step, hreset, hpulse]

/-- The time before the clock of the card runs. -/
theorem Deselected.via_rst (h : Deselected e .rst clocks tries sectors) (hreset : i.reset = false)
    (hpulse : i.clkPulseSlow = true) :
    ∃ e' clocks', Clocked.Via (step T i) (Working sectors) e e' ∧
      Deselected e' .init clocks' tries sectors ∧ e'.controller.sclkSig = false ∧
      e'.controller.bitCounter = 160 ∧ e'.controller.byteAvailable = false ∧
      e'.controller.readyForNextByte = false := by
  generalize hcounter : e.controller.bootCounter.toNat = m
  induction m generalizing e clocks with
  | zero =>
      have hzero : e.controller.bootCounter = 0 := BitVec.eq_of_toNat_eq hcounter
      have hk := controller_step (e := e) hreset hpulse
      simp only [fsm, h.state, SdController.rst, if_pos hzero] at hk
      obtain ⟨hcontroller, hnext⟩ :=
        deselected_step (T := T) .init _ hk rfl rfl rfl rfl h.stage rfl h.tries h.sectors
      refine ⟨_, _, .one e, hnext, ?_⟩
      rw [hcontroller]
      exact ⟨rfl, rfl, rfl, rfl⟩
  | succ m ih =>
      have hne : e.controller.bootCounter ≠ 0 := by
        intro hzero
        rw [hzero] at hcounter
        exact absurd hcounter (Nat.succ_ne_zero m).symm
      have hk := controller_step (e := e) hreset hpulse
      simp only [fsm, h.state, SdController.rst, if_neg hne] at hk
      obtain ⟨hcontroller, hnext⟩ :=
        deselected_step (T := T) .rst _ hk h.cs rfl h.mode h.cmdOut h.stage rfl h.tries h.sectors
      have hcount : (step T i e).controller.bootCounter.toNat = m := by
        rw [hcontroller]
        dsimp only
        bv_omega
      obtain ⟨e', clocks', hvia, hrest⟩ := ih hnext hcount
      exact ⟨e', clocks', .step (hnext.working (by decide)) hvia, hrest⟩

/-- What the controller has set up when the clock begins to run. -/
structure Clocks (e : Engine) (cycles : ℕ) : Prop where
  sclk : e.controller.sclkSig = false
  counter : e.controller.bitCounter.toNat = 2 * cycles
  byteAvailable : e.controller.byteAvailable = false
  readyForNextByte : e.controller.readyForNextByte = false

/-- One cycle of the clock. -/
theorem Deselected.via_clock (h : Deselected e .init clocks tries sectors) {m : ℕ}
    (hclocks : Clocks e (m + 1)) (hreset : i.reset = false) (hpulse : i.clkPulseSlow = true) :
    ∃ e', Clocked.Via (step T i) (Working sectors) e e' ∧
      Deselected e' .init (clocks + 1) tries sectors ∧ Clocks e' m := by
  have hne := SdEngine.bitCounter_ne_zero hclocks.counter
  have hk := controller_step (e := e) hreset hpulse
  simp only [fsm, h.state, SdController.init, if_neg hne, SdController.toggle] at hk
  obtain ⟨hcontroller, hrise⟩ :=
    deselected_step (T := T) .init (clocks + 1) hk h.cs rfl h.mode h.cmdOut h.stage (by
      rw [h.sclk, hclocks.sclk]
      rfl) h.tries h.sectors
  have hcounter : (step T i e).controller.bitCounter.toNat = 2 * m + 1 := by
    have hbefore := hclocks.counter
    rw [hcontroller]
    dsimp only
    bv_omega
  have hsclk : (step T i e).controller.sclkSig = true := by
    rw [hcontroller]
    exact congrArg not hclocks.sclk
  have hne' := SdEngine.bitCounter_ne_zero hcounter
  have hk' := controller_step (e := step T i e) hreset hpulse
  simp only [fsm, hrise.state, SdController.init, if_neg hne', SdController.toggle] at hk'
  obtain ⟨hcontroller', hfall⟩ :=
    deselected_step (T := T) .init (clocks + 1) hk' hrise.cs rfl hrise.mode hrise.cmdOut hrise.stage
      (by
        rw [hsclk]
        rfl) hrise.tries hrise.sectors
  refine ⟨_, .step (hrise.working (by decide)) (.one _), hfall, ?_, ?_, ?_, ?_⟩
  · rw [hcontroller']
    exact congrArg not hsclk
  · rw [hcontroller']
    dsimp only
    bv_omega
  · rw [hcontroller', hcontroller]
    exact hclocks.byteAvailable
  · rw [hcontroller', hcontroller]
    exact hclocks.readyForNextByte

/-- The clock runs and then the card is selected. -/
theorem Deselected.via_init {m : ℕ} (h : Deselected e .init clocks tries sectors)
    (hclocks : Clocks e m) (hreset : i.reset = false) (hpulse : i.clkPulseSlow = true) :
    ∃ e', Clocked.Via (step T i) (Working sectors) e e' ∧
      Rested e' .cmd0 (.power (clocks + m)) tries sectors := by
  induction m generalizing e clocks with
  | zero =>
      have hzero : e.controller.bitCounter = 0 := BitVec.eq_of_toNat_eq hclocks.counter
      have hk := controller_step (e := e) hreset hpulse
      simp only [fsm, h.state, SdController.init, if_pos hzero] at hk
      have hlow : e.card.card.sclk = false := h.sclk.trans hclocks.sclk
      have hstep : step T i e =
          ⟨{ e.controller with cs := false, state := .cmd0 }, e.card⟩ := by
        rw [step, hk]
        simp [observe, SpiCard.observe, Fresh.onCard, hlow, hclocks.sclk]
      have hshowing : e.card.card = showing [] e.card.card := by
        rw [showing, List.headD_nil, List.tail_nil, ← h.out, ← h.miso]
      refine ⟨_, .one e, ?_⟩
      rw [hstep]
      exact ⟨⟨rfl, hclocks.sclk, hlow, hshowing⟩, rfl, h.mode, hclocks.byteAvailable,
        hclocks.readyForNextByte, h.stage, h.tries, ⟨0, h.receiver⟩, h.sectors⟩
  | succ m ih =>
      obtain ⟨e₁, hvia₁, h₁, hclocks₁⟩ := h.via_clock (T := T) hclocks hreset hpulse
      obtain ⟨e₂, hvia₂, h₂⟩ := ih h₁ hclocks₁
      refine ⟨e₂, hvia₁.trans (h₁.working (by decide)) hvia₂, ?_⟩
      rwa [Nat.add_assoc, Nat.add_comm 1 m] at h₂

/-- From the release of the reset to a card that is ready. -/
theorem Deselected.via_initialised (h : Deselected e .rst clocks tries sectors)
    (hreset : i.reset = false) (hpulse : i.clkPulseSlow = true) :
    ∃ e', Clocked.Via (step T i) (Working sectors) e e' ∧ Rested e' .idle .ready 0 sectors := by
  obtain ⟨e₁, clocks', hvia₁, h₁, hsclk, hcounter, havailable, hnext⟩ :=
    h.via_rst (T := T) hreset hpulse
  obtain ⟨e₂, hvia₂, h₂⟩ := h₁.via_init (T := T) (m := 80)
    ⟨hsclk, by rw [hcounter]; rfl, havailable, hnext⟩ hreset hpulse
  obtain ⟨e₃, hvia₃, h₃⟩ := h₂.via_initialised (T := T) (by omega) hreset hpulse
  exact ⟨e₃, (hvia₁.trans (h₁.working (by decide)) hvia₂).trans (h₂.working (by decide)) hvia₃, h₃⟩

end Deselected

/-! ## The port -/

/-- `sdcard` with its controller and this card. -/
structure System where
  port : SdCardPort.Regs
  engine : Engine

/-- One rising edge of `clk`. -/
def System.step (p : SdCardPort.Params) (T : ℕ → Timing) (i : SdCardPort.Input) (x : System) :
    System where
  port := SdCardPort.step p i x.engine.controller x.port
  engine := SdPowerUp.step T (SdCardPort.controllerInput i x.port false) x.engine

/-- The system with a card that is ready. -/
def System.initialised (x : System) : SdSystem.System :=
  ⟨x.port, x.engine.controller, x.engine.card.card⟩

/-- The states after a reset. -/
def System.run (p : SdCardPort.Params) (T : ℕ → Timing) (i : SdCardPort.Input) (x : System)
    (input : ℕ → SdCardPort.Input) (n : ℕ) : System :=
  Clocked.state (System.step p T) (System.step p T i x) input n

section System

variable {p : SdCardPort.Params} {T : ℕ → Timing} {i : SdCardPort.Input} {e e' : Engine}
  {t : SdCardPort.Regs} {input : ℕ → SdCardPort.Input} {sectors : Word → Sector}

theorem System.step_initialised {x : System} (h : x.engine.card.stage = .ready) :
    (x.step p T i).initialised = SdSystem.step p T i x.initialised ∧
      (x.step p T i).engine.card.stage = .ready := by
  have hobserve (cs sclk mosi : Bool) := observe_ready (T := T) h cs sclk mosi
  refine ⟨?_, ?_⟩
  · simp only [System.initialised, System.step, SdPowerUp.step, hobserve]
    rfl
  · simp only [System.step, SdPowerUp.step, hobserve]
    exact h

/-- The card has seen its wires. -/
def Settled (T : ℕ → Timing) (e : Engine) : Prop :=
  observe T e.controller.cs e.controller.sclkSig (mosi e.controller) e.card = e.card

theorem settled_step (i : SdController.Input) (e : Engine) : Settled T (step T i e) :=
  observe_observe _ _ _

theorem Settled.hold {i : SdController.Input} (h : Settled T e) (hreset : i.reset = false)
    (hpulse : i.clkPulseSlow = false) : step T i e = e := by
  have hkeep : SdController.step { i with miso := e.card.card.miso } e.controller =
      e.controller := by
    simp [SdController.step, hreset, hpulse]
  rw [step, hkeep]
  exact congrArg (Engine.mk e.controller) h

/-- The port waits for the controller. -/
theorem fsm_init (ht : t.state = .init) (he : Working sectors e) :
    SdCardPort.fsm p i e.controller t = t := by
  have hready : SdController.ready e.controller = false := beq_false_of_ne he.state
  simp only [SdCardPort.fsm, ht, hready]
  rfl

open SdSystem (phase period pulsed)

/-- The controller steps at a pulse and nothing else happens. -/
theorem step_working (hi : i.rstN = true) (ht : t.state = .init) (he : Working sectors e)
    (hsettled : Settled T e) {n : ℕ} (hn : n < period p) :
    System.step p T i ⟨phase n t, e⟩ =
      ⟨phase ((n + 1) % period p) t, if n = 0 then step T (pulsed t) e else e⟩ := by
  have hport : SdCardPort.step p i e.controller (phase n t) = phase ((n + 1) % period p) t := by
    rw [SdSystem.port_step (t := phase n t) hn hi, SdSystem.fsm_phase, fsm_init ht he]
    rfl
  rw [System.step, hport]
  congr 1
  split
  · next hzero =>
      subst hzero
      have hinput : SdCardPort.controllerInput i (phase 0 t) false = pulsed t := by
        simp only [pulsed, SdCardPort.controllerInput, hi]
        rfl
      rw [hinput]
  · next hpos => exact hsettled.hold (congrArg not hi) (beq_false_of_ne hpos)

/-- From one pulse to the next. -/
theorem state_period (hinput : ∀ n, (input n).rstN = true) (ht : t.state = .init)
    (he : Working sectors e) (hsettled : Settled T e)
    (hnext : Working sectors (step T (pulsed t) e)) {k : ℕ} (hk : k < period p) :
    Clocked.state (System.step p T) ⟨phase 0 t, e⟩ input (k + 1) =
      ⟨phase ((k + 1) % period p) t, step T (pulsed t) e⟩ := by
  induction k with
  | zero =>
      rw [Clocked.state_succ, Clocked.state_zero,
        step_working (hinput 0) ht he hsettled SdSystem.period_pos, if_pos rfl]
  | succ k ih =>
      rw [Clocked.state_succ, ih (by omega), Nat.mod_eq_of_lt hk,
        step_working (hinput _) ht hnext (settled_step _ e) hk, if_neg (Nat.succ_ne_zero k)]

/-- As long as the controller works the port waits and the card keeps its sectors. -/
theorem state_via (input : ℕ → SdCardPort.Input) (hinput : ∀ n, (input n).rstN = true)
    (ht : t.state = .init) (he : Working sectors e) (hend : e'.card.card.sectors = sectors)
    (hsettled : Settled T e) (h : Clocked.Via (step T (pulsed t)) (Working sectors) e e') :
    ∃ n m, m < period p ∧
      Clocked.state (System.step p T) ⟨phase 0 t, e⟩ input n = ⟨phase m t, e'⟩ ∧
      ∀ k ≤ n, (Clocked.state (System.step p T) ⟨phase 0 t, e⟩ input k).port.state = .init ∧
        (Clocked.state (System.step p T) ⟨phase 0 t, e⟩ input k).engine.card.card.sectors =
          sectors := by
  induction h generalizing input with
  | one e =>
      have hlast : Clocked.state (System.step p T) ⟨phase 0 t, e⟩ input 1 =
          ⟨phase (1 % period p) t, step T (pulsed t) e⟩ := by
        rw [Clocked.state_succ, Clocked.state_zero,
          step_working (hinput 0) ht he hsettled SdSystem.period_pos, if_pos rfl]
      refine ⟨1, 1 % period p, Nat.mod_lt _ SdSystem.period_pos, hlast, fun k hk ↦ ?_⟩
      rcases Nat.le_one_iff_eq_zero_or_eq_one.mp hk with rfl | rfl
      · exact ⟨ht, he.listens.sectors⟩
      · rw [hlast]
        exact ⟨ht, hend⟩
  | @step e e' hguard _ ih =>
      have hperiod (k : ℕ) (hk : k < period p) := state_period hinput ht he hsettled hguard hk
      obtain ⟨r, hr⟩ := Nat.exists_eq_succ_of_ne_zero (SdSystem.period_pos (p := p)).ne'
      have hturn : Clocked.state (System.step p T) ⟨phase 0 t, e⟩ input (period p) =
          ⟨phase 0 t, step T (pulsed t) e⟩ := by
        have hlast := hperiod r (by omega)
        rwa [← Nat.succ_eq_add_one, ← hr, Nat.mod_self] at hlast
      obtain ⟨n, m, hm, hstate, hinit⟩ :=
        ih (fun k ↦ input (period p + k)) (fun k ↦ hinput _) hguard hend (settled_step _ e)
      refine ⟨period p + n, m, hm, ?_, fun k hk ↦ ?_⟩
      · rw [Clocked.state_add, hturn]
        exact hstate
      · rcases Nat.lt_or_ge k (period p) with hless | hge
        · cases k with
          | zero => exact ⟨ht, he.listens.sectors⟩
          | succ k =>
              rw [hperiod k (by omega)]
              exact ⟨ht, hguard.listens.sectors⟩
        · obtain ⟨d, rfl⟩ := Nat.exists_eq_add_of_le hge
          rw [Clocked.state_add, hturn]
          exact hinit d (by omega)

theorem Rested.ready_step (h : Rested e .idle .ready 0 sectors)
    (hi : i.rstN = true) (ht : t.state = .init) (hrd : t.rd = false) (hwr : t.wr = false)
    {m : ℕ} (hm : m < period p) :
    SdSystem.Ready p (System.step p T i ⟨phase m t, e⟩).initialised
        ⟨t.buffer, t.bufferIndex, sectors⟩ ∧
      (System.step p T i ⟨phase m t, e⟩).engine.card.stage = .ready := by
  have hready : SdController.ready e.controller = true := by
    rw [SdController.ready, h.state]
    rfl
  have hport : SdCardPort.step p i e.controller (phase m t) =
      phase ((m + 1) % period p) { t with state := .idle } := by
    rw [SdSystem.port_step (t := phase m t) hm hi, SdSystem.fsm_phase]
    simp only [SdCardPort.fsm, ht, hready, if_true]
    rfl
  obtain ⟨hinitialised, hstage⟩ := System.step_initialised (p := p) (T := T) (i := i)
    (x := ⟨phase m t, e⟩) h.stage
  have hengine : SdEngine.step T (SdCardPort.controllerInput i (phase m t) false)
      ⟨e.controller, e.card.card⟩ = ⟨e.controller, e.card.card⟩ :=
    h.line.step_idle _ h.state (congrArg not hi) hrd hwr
  rw [hinitialised]
  refine ⟨?_, hstage⟩
  simp only [SdSystem.step, System.initialised, hport, hengine]
  exact ⟨rfl, hrd, hwr, Nat.mod_lt _ SdSystem.period_pos, rfl, rfl, h.state, h.mode,
    h.byteAvailable, h.readyForNextByte, h.line, h.receiver, h.sectors⟩

/-- The port is busy, and the card keeps its sectors, until the card is initialised. -/
theorem exists_ready {x : System} {clocks : ℕ} (hpower : x.engine.card.stage = .power clocks)
    (hi : i.rstN = false) (input : ℕ → SdCardPort.Input) (hinput : ∀ n, (input n).rstN = true) :
    ∃ n, (∀ k < n, SdCardPort.busy (System.run p T i x input k).port = true ∧
        (System.run p T i x input k).engine.card.card.sectors = x.engine.card.card.sectors) ∧
      (System.run p T i x input n).engine.card.stage = .ready ∧
      SdSystem.Ready p (System.run p T i x input n).initialised
        ⟨x.port.buffer, 0, x.engine.card.card.sectors⟩ := by
  obtain ⟨t, hport, ht, hrd, hwr, hbuffer, hindex⟩ :
      ∃ t, SdCardPort.step p i x.engine.controller x.port = phase 0 t ∧ t.state = .init ∧
        t.rd = false ∧ t.wr = false ∧ t.buffer = x.port.buffer ∧ t.bufferIndex = 0 := by
    refine ⟨SdCardPort.step p i x.engine.controller x.port, ?_⟩
    simp only [SdCardPort.step, hi]
    exact ⟨rfl, rfl, rfl, rfl, rfl, rfl⟩
  have hreset : (SdCardPort.controllerInput i x.port false).reset = true := congrArg not hi
  obtain ⟨clocks', hdeselected⟩ := deselected_reset (T := T) (e := x.engine) hreset hpower rfl rfl
  obtain ⟨e', hvia, hrested⟩ := hdeselected.via_initialised (T := T) (i := pulsed t) rfl rfl
  obtain ⟨n, m, hm, hstate, hinit⟩ := state_via (p := p) input hinput ht
    (hdeselected.working (by decide)) hrested.sectors (settled_step _ x.engine) hvia
  have hrun (k : ℕ) : System.run p T i x input k = Clocked.state (System.step p T)
      ⟨phase 0 t, step T (SdCardPort.controllerInput i x.port false) x.engine⟩ input k := by
    rw [System.run, System.step, hport]
  have hnext : System.run p T i x input (n + 1) = System.step p T (input n) ⟨phase m t, e'⟩ := by
    rw [hrun, Clocked.state_succ, hstate]
  obtain ⟨hready, hstage⟩ := hrested.ready_step (T := T) (hinput n) ht hrd hwr hm
  rw [hbuffer, hindex] at hready
  refine ⟨n + 1, fun k hk ↦ ?_, ?_, ?_⟩
  · obtain ⟨hstate, hsectors⟩ := hinit k (Nat.le_of_lt_succ hk)
    rw [SdCardPort.busy, hrun, hstate]
    exact ⟨rfl, hsectors⟩
  · rw [hnext]
    exact hstage
  · rw [hnext]
    exact hready

/-- After a reset `sdcard` is busy, whatever is asked of it, until it has
initialised the card, however long the card takes.  Then it is ready, with the
index of the buffer at 0 and the sectors of the card, and goes on with a card
that needs no initialisation. -/
theorem initialises {x : System} {clocks : ℕ} (hpower : x.engine.card.stage = .power clocks)
    (hi : i.rstN = false) (input : ℕ → SdCardPort.Input) (hinput : ∀ n, (input n).rstN = true) :
    ∃ n y, (∀ k < n, SdCardPort.busy (System.run p T i x input k).port = true) ∧
      SdSystem.Ready p y ⟨x.port.buffer, 0, x.engine.card.card.sectors⟩ ∧
      ∀ m, (System.run p T i x input (n + m)).initialised =
        Clocked.state (SdSystem.step p T) y (fun k ↦ input (n + k)) m := by
  obtain ⟨n, hbusy, hstage, hready⟩ := exists_ready (p := p) (T := T) hpower hi input hinput
  refine ⟨n, _, fun k hk ↦ (hbusy k hk).1, hready, fun m ↦ ?_⟩
  have hboth : (System.run p T i x input (n + m)).engine.card.stage = .ready ∧
      (System.run p T i x input (n + m)).initialised = Clocked.state (SdSystem.step p T)
        (System.run p T i x input n).initialised (fun k ↦ input (n + k)) m := by
    induction m with
    | zero => exact ⟨hstage, rfl⟩
    | succ m ih =>
        obtain ⟨hinitialised, hkeep⟩ :=
          System.step_initialised (p := p) (T := T) (i := input (n + m)) ih.1
        refine ⟨hkeep, ?_⟩
        rw [Clocked.state_succ, ← ih.2]
        exact hinitialised
  exact hboth.2

end System

/-- A card that has seen nothing yet and is not ready when it is first asked. -/
def unpowered : System :=
  ⟨SdSystem.rested.port, SdSystem.rested.engine.controller,
    ⟨.power 0, 1, SdSystem.rested.engine.card⟩⟩

theorem initialises_unpowered :
    ∃ n y, (∀ k < n, SdCardPort.busy (System.run ⟨2, 0⟩ SdSystem.prompt ⟨false, 0, 0, 0⟩ unpowered
        (fun _ ↦ SdSystem.noCommand) k).port = true) ∧
      SdSystem.Ready ⟨2, 0⟩ y SdSystem.restedContents := by
  obtain ⟨n, y, hbusy, hready, -⟩ := initialises (p := ⟨2, 0⟩) (T := SdSystem.prompt)
    (x := unpowered) rfl (i := ⟨false, 0, 0, 0⟩) rfl (fun _ ↦ SdSystem.noCommand) fun _ ↦ rfl
  exact ⟨n, y, hbusy, hready⟩

end TangNano.SdPowerUp
