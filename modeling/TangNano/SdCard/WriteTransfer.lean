import TangNano.SdCard.ReadTransfer

/-!
# Writing a sector

From the command at the port to the end of the time in which the card is busy.
The controller asks for a byte before it has sent the one it has, so one byte
more is taken from the buffer than is written to the card.
-/

namespace TangNano.SdSystem

open Serial SpiCard SdCardPort SdEngine
open SdController (mosi)

/-- The block has gone to the card up to byte `j`. -/
structure BlockSent (e : Engine) (sectors : Word → Sector) (s : Word) (j : ℕ) (bytes : ℕ → Byte) :
    Prop where
  line : Line e []
  state : e.controller.state = .writeBlockData
  counter : e.controller.byteCounter.toNat = 514 - j
  mode : e.controller.cmdMode = false
  byteAvailable : e.controller.byteAvailable = false
  readyForNextByte : e.controller.readyForNextByte = false
  responseType : e.controller.responseType = 0b001
  receiver : ∃ shift, e.card.receiver = .block s (8 * j) shift bytes
  sectors : e.card.sectors = sectors

/-- The controller with a byte to send. -/
def sending (v : Byte) (asks : Bool) (k : SdController.Regs) : SdController.Regs :=
  { k with
    dataSig := v
    bitCounter := 7
    state := .writeBlockByte
    byteCounter := k.byteCounter - 1
    readyForNextByte := asks }

/-- The controller after the byte has been sent. -/
def sentByte (v : Byte) (k : SdController.Regs) : SdController.Regs :=
  { k with
    sclkSig := false
    byteAvailable := false
    dataSig := shiftOnes v 7
    bitCounter := 0
    state := .writeBlockData
    byteCounter := k.byteCounter - 1
    readyForNextByte := false }

section Bytes

variable {T : ℕ → Timing} {i : SdController.Input} {e : Engine} {sectors : Word → Sector}
  {s : Word} {j : ℕ} {bytes : ℕ → Byte}

theorem BlockSent.take (h : BlockSent e sectors s j bytes) (hj : j < 512) (hreset : i.reset = false)
    (hpulse : i.clkPulseSlow = true) :
    SdEngine.step T i e = ⟨sending i.din true e.controller, e.card⟩ := by
  have hcounter := h.counter
  have hzero : e.controller.byteCounter ≠ 0 := by bv_omega
  have hcrc : ¬ (e.controller.byteCounter = 2 ∨ e.controller.byteCounter = 1) := by bv_omega
  have htoken : e.controller.byteCounter ≠ SdController.writeDataSize := by
    unfold SdController.writeDataSize
    bv_omega
  refine h.line.step hreset hpulse ?_ h.line.cs h.line.sclk
  simp only [SdController.fsm, h.state, SdController.writeBlockData, if_neg hzero, if_neg hcrc,
    if_neg htoken]
  rfl

theorem BlockSent.takeCrc (h : BlockSent e sectors s j bytes) (hj : j = 512 ∨ j = 513)
    (hreset : i.reset = false) (hpulse : i.clkPulseSlow = true) :
    SdEngine.step T i e = ⟨sending 0xff false e.controller, e.card⟩ := by
  have hcounter := h.counter
  have hzero : e.controller.byteCounter ≠ 0 := by bv_omega
  have hcrc : e.controller.byteCounter = 2 ∨ e.controller.byteCounter = 1 := by bv_omega
  refine h.line.step hreset hpulse ?_ h.line.cs h.line.sclk
  simp only [SdController.fsm, h.state, SdController.writeBlockData, if_neg hzero, if_pos hcrc]
  rw [sending, ← h.readyForNextByte]

theorem via_sending (k : SdController.Regs) (c : Card) (hcs : k.cs = false)
    (hsclk : k.sclkSig = false) (hcard : c.sclk = false) (hbyte : k.byteAvailable = false)
    (hmode : k.cmdMode = false) (v : Byte) (asks : Bool) (hreset : i.reset = false)
    (hpulse : i.clkPulseSlow = true) :
    Clocked.Via (SdEngine.step T i) (Quiet asks) ⟨sending v asks k, c⟩
      ⟨sentByte v k, cycles T (bits v) c⟩ :=
  via_writeBlockByte (T := T) (k := sending v asks k) (c := c)
    ⟨hreset, hpulse, hcs, hsclk, hcard⟩ rfl hbyte hmode (m := 7) (by decide) rfl

theorem BlockSent.via (h : BlockSent e sectors s j bytes) (hj : j < 513) (v : Byte) (asks : Bool)
    (hreset : i.reset = false) (hpulse : i.clkPulseSlow = true) :
    ∃ e', Clocked.Via (SdEngine.step T i) (Quiet asks) ⟨sending v asks e.controller, e.card⟩ e' ∧
      BlockSent e' sectors s (j + 1) (Function.update bytes j v) := by
  obtain ⟨shift, hreceiver⟩ := h.receiver
  have hcard : e.card = hearing (.block s (8 * j) shift bytes) (showing [] e.card) := by
    rw [← h.line.showing, hearing, ← hreceiver]
  have hvia := via_sending (T := T) (i := i) e.controller e.card h.line.cs h.line.sclk
    h.line.cardSclk h.byteAvailable h.mode v asks hreset hpulse
  have hcycles := cycles_block (T := T) (c := e.card) s hj v shift bytes
  rw [← hcard] at hcycles
  rw [hcycles] at hvia
  have hcounter := h.counter
  refine ⟨_, hvia, ⟨h.line.cs, rfl, h.line.cardSclk, rfl⟩, rfl, ?_, h.mode, rfl, rfl,
    h.responseType, ⟨v, rfl⟩, h.sectors⟩
  change (e.controller.byteCounter - 1).toNat = 514 - (j + 1)
  bv_omega

/-- A block is answered and stored. -/
theorem blockAnswer_eq (t : Timing) :
    ∃ n rest m, blockAnswer t = ones n ++ false :: rest ∧ rest.drop 7 = zeros m := by
  have hdrop (n : ℕ) : (zeros t.busy).drop n = zeros (t.busy - n) := List.drop_replicate
  have hbits : ∀ u : BitVec 3, bits u = [u.getMsbD 0, u.getMsbD 1, u.getMsbD 2] := by
    intro u
    rfl
  have hcode : bits (0b00101 : BitVec 5) = [false, false, true, false, true] := by decide
  rw [blockAnswer, hcode, hbits]
  cases h₀ : t.undefinedBits.getMsbD 0 with
  | false => exact ⟨0, _, t.busy, rfl, rfl⟩
  | true =>
      cases h₁ : t.undefinedBits.getMsbD 1 with
      | false => exact ⟨1, _, t.busy - 1, rfl, hdrop 1⟩
      | true =>
          cases h₂ : t.undefinedBits.getMsbD 2 with
          | false => exact ⟨2, _, t.busy - 2, rfl, hdrop 2⟩
          | true => exact ⟨3, _, t.busy - 3, rfl, hdrop 3⟩

/-- The controller is idle and the card holds these sectors. -/
structure Stored (e : Engine) (sectors : Word → Sector) : Prop where
  line : Line e []
  state : e.controller.state = .idle
  mode : e.controller.cmdMode = true
  byteAvailable : e.controller.byteAvailable = false
  readyForNextByte : e.controller.readyForNextByte = false
  receiver : ∃ f, e.card.receiver = .command 0 f
  sectors : e.card.sectors = sectors

/-- The controller waits for the answer to a block. -/
def answered (k : SdController.Regs) : SdController.Regs :=
  { sentByte 0xff k with state := .receiveByteWait, returnState := .writeBlockWait }

/-- The answer comes and the card is busy for a while. -/
theorem via_answer (k : SdController.Regs) (c : Card) (hcs : k.cs = false) (hcard : c.sclk = false)
    (hmode : k.cmdMode = false) (htype : k.responseType = 0b001)
    (hreceiver : ∃ f, c.receiver = .command 0 f) (t : Timing) (hreset : i.reset = false)
    (hpulse : i.clkPulseSlow = true) :
    ∃ e', Clocked.Via (SdEngine.step T i) (Quiet false) ⟨answered k, showing (blockAnswer t) c⟩ e' ∧
      Stored e' c.sectors := by
  obtain ⟨n, rest, m, hanswer, hdrop⟩ := blockAnswer_eq t
  have hwaits : Waits c.receiver := .inl hreceiver
  have hmosi : mosi (answered k) = true := by
    rw [mosi_data (k := answered k) hmode]
    exact getMsbD_shiftOnes (0xff : Byte) (show 7 < 8 by decide)
  have hwait := via_receiveByteWait (T := T) (i := i) (k := answered k) (c := c)
    ⟨hreset, hpulse, hcs, rfl, hcard⟩ rfl rfl hmosi hwaits htype n rest
  have hreceive := via_receiveByte (T := T) (i := i) (k := { answered k with
      recvData := 0
      bitCounter := 6
      state := .receiveByte }) (c := c)
    ⟨hreset, hpulse, hcs, rfl, hcard⟩ rfl hmosi hwaits (m := 6) rfl rest
  have hbusy := via_writeBlockWait (T := T) (i := i) (k := { answered k with
      recvData := shiftIn 0 (nextBits rest 7)
      bitCounter := 0
      state := .writeBlockWait }) (c := c)
    ⟨hreset, hpulse, hcs, rfl, hcard⟩ rfl rfl hmosi hwaits m
  rw [hdrop] at hreceive
  have hall := (hwait.trans ⟨rfl, rfl, show Between .receiveByte by decide⟩ hreceive).trans
    ⟨rfl, rfl, show Between .writeBlockWait by decide⟩ hbusy
  rw [← hanswer] at hall
  exact ⟨_, hall, ⟨hcs, rfl, hcard, rfl⟩, rfl, rfl, rfl, rfl, hreceiver, rfl⟩

/-- The last byte of the CRC goes to the card, which stores the block. -/
theorem BlockSent.viaLast (h : BlockSent e sectors s 513 bytes) (hreset : i.reset = false)
    (hpulse : i.clkPulseSlow = true) :
    ∃ c : Card, c.sclk = false ∧ (∃ f, c.receiver = .command 0 f) ∧
      (c.sectors = Function.update sectors s fun i ↦ Function.update bytes 513 0xff i.toNat) ∧
      ∃ t, Clocked.Via (SdEngine.step T i) (Quiet false) ⟨sending 0xff false e.controller, e.card⟩
        ⟨sentByte 0xff e.controller, showing (blockAnswer t) c⟩ := by
  obtain ⟨shift, hreceiver⟩ := h.receiver
  have hcard : e.card = hearing (.block s (8 * 513) shift bytes) (showing [] e.card) := by
    rw [← h.line.showing, hearing, ← hreceiver]
  have hvia := via_sending (T := T) (i := i) e.controller e.card h.line.cs h.line.sclk
    h.line.cardSclk h.byteAvailable h.mode 0xff false hreset hpulse
  have hcycles := cycles_block_last (T := T) (c := e.card) s 0xff shift bytes
  rw [← hcard] at hcycles
  rw [hcycles] at hvia
  refine ⟨hearing (.command 0 0) { e.card with
    sectors := Function.update e.card.sectors s fun i ↦ Function.update bytes 513 0xff i.toNat
    served := e.card.served + 1 }, h.line.cardSclk, ⟨0, rfl⟩, ?_, T e.card.served, hvia⟩
  rw [← h.sectors]
  rfl

/-- Nothing is left to send. -/
theorem BlockSent.finish (h : BlockSent e sectors s 513 bytes) (c : Card) (hcard : c.sclk = false)
    (l : List Bool) (hreset : i.reset = false) (hpulse : i.clkPulseSlow = true) :
    SdEngine.step T i ⟨sentByte 0xff e.controller, showing l c⟩ =
      ⟨answered e.controller, showing l c⟩ := by
  have hline : Line ⟨sentByte 0xff e.controller, showing l c⟩ l := ⟨h.line.cs, rfl, hcard, rfl⟩
  have hzero : (sentByte 0xff e.controller).byteCounter = 0 := by
    have hcounter := h.counter
    change e.controller.byteCounter - 1 = 0
    bv_omega
  refine hline.step hreset hpulse ?_ h.line.cs rfl
  have hstate : (sentByte 0xff e.controller).state = .writeBlockData := rfl
  simp only [SdController.fsm, hstate, SdController.writeBlockData, if_pos hzero]
  rfl

end Bytes

/-! ## The buffer -/

/-- The sector is written from the index on. -/
def Contents.write (s : Word) (d : Contents) : Contents :=
  { d with
    sectors := Function.update d.sectors s fun i ↦ d.buffer (d.index + i)
    index := d.index + 1 }

/-- Of the bytes from the index on `n` have been taken. -/
structure Giving (p : Params) (t : SdCardPort.Regs) (d : Contents) (n : ℕ) (waiting : Bool) :
    Prop where
  state : t.state = .writeSector
  rd : t.rd = false
  wr : t.wr = false
  counter : t.counter = 1 % period p
  buffer : t.buffer = d.buffer
  index : t.bufferIndex = d.index + BitVec.ofNat 9 n
  waiting : t.waitingReadyForNextByte = waiting
  din : ∀ m, n = m + 1 → t.din = d.buffer (d.index + BitVec.ofNat 9 m)

/-- The port after a byte has been taken. -/
def given (t : SdCardPort.Regs) : SdCardPort.Regs :=
  { t with
    din := t.buffer t.bufferIndex
    bufferIndex := t.bufferIndex + 1
    waitingReadyForNextByte := false }

/-- The port when it may be asked for a byte. -/
def awaiting (t : SdCardPort.Regs) : SdCardPort.Regs := { t with waitingReadyForNextByte := true }

section Port

variable {p : Params} {T : ℕ → Timing} {d : Contents} {t : SdCardPort.Regs} {n : ℕ}
  {waiting : Bool} {e e' : Engine}

theorem Giving.given (h : Giving p t d n true) : Giving p (SdSystem.given t) d (n + 1) false where
  state := h.state
  rd := h.rd
  wr := h.wr
  counter := h.counter
  buffer := h.buffer
  index := by
    rw [SdSystem.given, h.index, BitVec.ofNat_add]
    bv_omega
  waiting := rfl
  din := by
    intro m hm
    obtain rfl : n = m := Nat.succ_inj.mp hm
    rw [SdSystem.given, h.buffer, h.index]

theorem Giving.awaiting (h : Giving p t d n waiting) : Giving p (SdSystem.awaiting t) d n true :=
  ⟨h.state, h.rd, h.wr, h.counter, h.buffer, h.index, rfl, h.din⟩

theorem Giving.counter_lt (h : Giving p t d n waiting) : t.counter < period p := by
  rw [h.counter]
  exact Nat.mod_lt 1 period_pos

theorem Giving.busy (h : Giving p t d n waiting) : SdCardPort.busy t = true := by
  rw [SdCardPort.busy, h.state]
  rfl

theorem Giving.step (h : Giving p t d n waiting) {k : SdController.Regs}
    (hstate : k.state ≠ .idle) :
    fsm p noCommand k t =
      if k.readyForNextByte then if waiting then SdSystem.given t else t
      else SdSystem.awaiting t := by
  have hready : SdController.ready k = false := by
    rw [SdController.ready, beq_eq_false_iff_ne]
    exact hstate
  rw [fsm, h.state]
  simp only [writeSector, hready, Bool.false_eq_true, if_false, h.waiting]
  obtain ⟨buffer, bufferIndex, rd, wr, din, address, waiting', state, counter⟩ := t
  obtain rfl : waiting' = waiting := h.waiting
  cases k.readyForNextByte <;> cases waiting' <;> rfl

theorem Giving.portEvents_none (h : Giving p t d n waiting) {k : SdController.Regs}
    (hasks : k.readyForNextByte = false ∨ waiting = false) : portEvents k t = [] := by
  rw [portEvents, h.state]
  dsimp only
  rcases hasks with hasks | hasks
  · rw [hasks]
    rfl
  · rw [h.waiting, hasks, Bool.and_false]
    rfl

/-- The port waits for the controller to change. -/
theorem Giving.still (h : Giving p t d n waiting) {k : SdController.Regs} (hstate : k.state ≠ .idle)
    (hasks : k.readyForNextByte = !waiting) :
    fsm p noCommand k t = t ∧ portEvents k t = [] := by
  cases waiting with
  | true =>
      refine ⟨?_, h.portEvents_none (.inl hasks)⟩
      rw [h.step hstate, hasks]
      obtain ⟨buffer, bufferIndex, rd, wr, din, address, waiting', state, counter⟩ := t
      obtain rfl : waiting' = true := h.waiting
      rfl
  | false =>
      refine ⟨?_, h.portEvents_none (.inr rfl)⟩
      rw [h.step hstate, hasks]
      rfl

/-- The controller goes on while the port waits. -/
theorem Giving.via (h : Giving p t d n waiting) (hasks : e.controller.readyForNextByte = !waiting)
    (hbetween : Between e.controller.state) (hsettled : Settled e)
    (hvia : Clocked.Via (SdEngine.step T (pulsed t)) (Quiet !waiting) e e') :
    Clocked.Logged (SdSystem.idle p T) events Busy ⟨t, e⟩ [] ⟨t, e'⟩ := by
  have hstill := h.still hbetween.1 hasks
  have hevents : slowEvents ⟨t, e⟩ = [] := by
    rw [slowEvents, controllerEvents_between _ hbetween, hstill.2]
    rfl
  have hlogged := via_engine (p := p) h.counter hstill.1 rfl hsettled hbetween.2.2.2.2.2.1
    hbetween.2.2.2.2.2.2 (fun k _ hk hstate ↦ h.still hstate hk)
    (.inr (.of_still hstill.1 hstill hsettled rfl (.inr hstill.2))) h.busy hvia
  rwa [hevents] at hlogged

/-- The controller asks, and a byte is taken while it goes on. -/
theorem Giving.viaTake (h : Giving p t d n true) (hasks : e.controller.readyForNextByte = true)
    (hclocking : Clocking e.controller.state) (hsettled : Settled e)
    (hvia : Clocked.Via (SdEngine.step T (pulsed (SdSystem.given t))) (Quiet true) e e') :
    Clocked.Logged (SdSystem.idle p T) events Busy ⟨t, e⟩ [.take (d.index + BitVec.ofNat 9 n)]
      ⟨SdSystem.given t, e'⟩ := by
  have hgiven := h.given
  have hbetween := hclocking.between
  have hport : fsm p noCommand e.controller t = SdSystem.given t := by
    rw [h.step hbetween.1, hasks]
    rfl
  have hengine : SdEngine.step T (pulsed (SdSystem.given t)) e = SdEngine.step T (pulsed t) e :=
    step_clocking hclocking rfl rfl rfl rfl
  have hnone := controllerEvents_between (pulsed t) hbetween
  have hevents : slowEvents ⟨t, e⟩ = [.take (d.index + BitVec.ofNat 9 n)] := by
    rw [slowEvents, hnone, portEvents, h.state, hasks, h.waiting, h.index]
    rfl
  have hlogged := via_engine (p := p) h.counter hport hengine hsettled hbetween.2.2.2.2.2.1
    hbetween.2.2.2.2.2.2 (fun k _ hk hstate ↦ hgiven.still hstate hk)
    (.inr (.of_still hport (hgiven.still hbetween.1 hasks) hsettled hengine (.inl hnone)))
    hgiven.busy hvia
  rwa [hevents] at hlogged

theorem Giving.tick (h : Giving p t d n waiting) (hasks : e.controller.readyForNextByte = false)
    (hstate : e.controller.state ≠ .idle) (hsettled : Settled e)
    (hengine : SdEngine.step T (pulsed t) e = e') :
    Clocked.Logged (SdSystem.idle p T) events Busy ⟨t, e⟩
      (controllerEvents (pulsed t) e.controller) ⟨SdSystem.awaiting t, e'⟩ := by
  have hport : fsm p noCommand e.controller t = SdSystem.awaiting t := by
    rw [h.step hstate, hasks]
    rfl
  have hnone := h.portEvents_none (.inl hasks)
  have hone := logged_slow (T := T) (x := ⟨t, e⟩) h.counter (by rw [hport]; exact h.awaiting.busy)
    (.inr (.of_still hport (h.awaiting.still hstate hasks) hsettled rfl (.inr hnone)))
  rwa [slow, slowEvents, hport, hengine, hnone, List.append_nil] at hone

/-- A step of a controller that still asks. -/
theorem Giving.tick_given (h : Giving p t d n false) (hasks : e.controller.readyForNextByte = true)
    (hstate : e.controller.state ≠ .idle) (hsettled : Settled e)
    (hengine : SdEngine.step T (pulsed t) e = e') :
    Clocked.Logged (SdSystem.idle p T) events Busy ⟨t, e⟩
      (controllerEvents (pulsed t) e.controller) ⟨t, e'⟩ := by
  have hstill := h.still hstate hasks
  have hone := logged_slow (T := T) (x := ⟨t, e⟩) h.counter (by rw [hstill.1]; exact h.busy)
    (.inr (.of_still hstill.1 hstill hsettled rfl (.inr hstill.2)))
  rwa [slow, slowEvents, hstill.1, hengine, hstill.2, List.append_nil] at hone

end Port

/-! ## The transfer -/

/-- The bytes of the block that have been sent are those from the index on. -/
def Filled (d : Contents) (j : ℕ) (bytes : ℕ → Byte) : Prop :=
  ∀ m < j, m < 512 → bytes m = d.buffer (d.index + BitVec.ofNat 9 m)

theorem Filled.next {d : Contents} {j : ℕ} {bytes : ℕ → Byte} (h : Filled d j bytes) {v : Byte}
    (hv : j < 512 → v = d.buffer (d.index + BitVec.ofNat 9 j)) :
    Filled d (j + 1) (Function.update bytes j v) := by
  intro m hm hlt
  rcases Nat.lt_succ_iff_lt_or_eq.mp hm with hless | rfl
  · rw [Function.update_of_ne hless.ne, h m hless hlt]
  · rw [Function.update_self, hv hlt]

/-- A byte is requested and taken. -/
def requestLog (d : Contents) (n : ℕ) : List Event :=
  [.request, .take (d.index + BitVec.ofNat 9 n)]

/-- The events of a write: a byte is taken for each request. -/
def writeLog (d : Contents) (s : Word) (n : ℕ) : List Event :=
  .startWrite s :: (List.range n).flatMap (requestLog d)

theorem writeLog_succ (d : Contents) (s : Word) (n : ℕ) :
    writeLog d s (n + 1) = writeLog d s n ++ requestLog d n := by
  rw [writeLog, List.range_succ, List.flatMap_append, List.flatMap_singleton]
  rfl

section Transfer

variable {p : Params} {T : ℕ → Timing} {x : System} {d : Contents} {s : Word} {j : ℕ}
  {bytes : ℕ → Byte} {waiting : Bool}

theorem BlockSent.request {i : SdController.Input} {e : Engine} {sectors : Word → Sector}
    (h : BlockSent e sectors s j bytes) (hpulse : i.clkPulseSlow = true) :
    controllerEvents i e.controller = if j < 512 then [.request] else [] := by
  have hcounter := h.counter
  rw [controllerEvents, if_pos hpulse, h.state]
  dsimp only
  by_cases hj : j < 512
  · have hnot : ¬ (e.controller.byteCounter = 0 ∨ e.controller.byteCounter = 2 ∨
        e.controller.byteCounter = 1 ∨ e.controller.byteCounter = SdController.writeDataSize) := by
      unfold SdController.writeDataSize
      bv_omega
    rw [if_neg hnot, if_pos hj]
  · have hdone : e.controller.byteCounter = 0 ∨ e.controller.byteCounter = 2 ∨
        e.controller.byteCounter = 1 ∨ e.controller.byteCounter = SdController.writeDataSize := by
      bv_omega
    rw [if_pos hdone, if_neg hj]

theorem BlockSent.busyState {e : Engine} {sectors : Word → Sector}
    (h : BlockSent e sectors s j bytes) : e.controller.state ≠ .idle := by
  rw [h.state]
  decide

/-- A byte of data goes to the card and the next one is taken. -/
theorem write_next (hj : j < 512) (hgiving : Giving p x.port d (j + 1) waiting)
    (hsent : BlockSent x.engine d.sectors s j bytes) (hfilled : Filled d j bytes) :
    ∃ y bytes', Clocked.Logged (SdSystem.idle p T) events Busy x (requestLog d (j + 1)) y ∧
      Giving p y.port d (j + 1 + 1) false ∧ BlockSent y.engine d.sectors s (j + 1) bytes' ∧
      Filled d (j + 1) bytes' := by
  have hawaiting := hgiving.awaiting
  have hone := hgiving.tick hsent.readyForNextByte hsent.busyState hsent.line.settled
    (hsent.take (T := T) (i := pulsed x.port) hj rfl rfl)
  rw [hsent.request rfl, if_pos hj] at hone
  obtain ⟨e', hvia, hnext⟩ := hsent.via (T := T) (i := pulsed (given (awaiting x.port))) (by omega)
    (pulsed x.port).din true rfl rfl
  have htake := hawaiting.viaTake (e := ⟨sending (pulsed x.port).din true x.engine.controller,
    x.engine.card⟩) rfl (.inr (.inr (.inr (.inr (.inl rfl))))) hsent.line.settled hvia
  refine ⟨_, _, hone.trans hawaiting.busy htake, hawaiting.given, hnext, hfilled.next ?_⟩
  exact fun _ ↦ hgiving.din j rfl

/-- A byte of the CRC is on its way. -/
theorem write_crc (hj : j = 512 ∨ j = 513) (hgiving : Giving p x.port d 513 waiting)
    (hsent : BlockSent x.engine d.sectors s j bytes) {e' : Engine}
    (hvia : Clocked.Via (SdEngine.step T (pulsed (awaiting x.port))) (Quiet false)
      ⟨sending 0xff false x.engine.controller, x.engine.card⟩ e') :
    Clocked.Logged (SdSystem.idle p T) events Busy x [] ⟨awaiting x.port, e'⟩ := by
  have hawaiting := hgiving.awaiting
  have hone := hgiving.tick hsent.readyForNextByte hsent.busyState hsent.line.settled
    (hsent.takeCrc (T := T) (i := pulsed x.port) hj rfl rfl)
  rw [hsent.request rfl, if_neg (by omega)] at hone
  have hrest := hawaiting.via (e := ⟨sending 0xff false x.engine.controller, x.engine.card⟩) rfl
    (show Between .writeBlockByte by decide) hsent.line.settled hvia
  exact hone.trans hawaiting.busy hrest

/-- The block is stored when the card answers. -/
theorem update_filled (hfilled : Filled d 513 bytes) (v : Byte) :
    Function.update d.sectors s (fun i ↦ Function.update bytes 513 v i.toNat) =
      (d.write s).sectors := by
  congr 1
  funext i
  have hlt := i.isLt
  rw [Function.update_of_ne (by omega), hfilled _ (by omega) hlt, BitVec.ofNat_toNat,
    BitVec.setWidth_eq]

/-- The port sees that the controller is ready. -/
theorem Giving.last {t : SdCardPort.Regs} {n : ℕ} {e : Engine} {sectors : Word → Sector}
    (h : Giving p t d n true) (hstored : Stored e sectors) :
    Clocked.Logged (SdSystem.idle p T) events Busy ⟨t, e⟩ []
      ⟨phase ((t.counter + 1) % period p) { t with state := .idle }, e⟩ := by
  have hready : SdController.ready e.controller = true := by
    rw [SdController.ready, hstored.state]
    rfl
  have hport : fsm p noCommand e.controller t = { t with state := .idle } := by
    rw [fsm, h.state]
    simp [writeSector, hready, hstored.readyForNextByte, h.waiting]
  exact logged_ready h.counter_lt hstored.line hstored.state h.rd h.wr hport
    (h.portEvents_none (.inl hstored.readyForNextByte))

/-- Nothing is left to send and the controller waits for the answer. -/
theorem write_finish (hgiving : Giving p x.port d 513 waiting)
    (hsent : BlockSent x.engine d.sectors s 513 bytes) {c : Card} (hsclk : c.sclk = false)
    (l : List Bool) :
    Clocked.Logged (SdSystem.idle p T) events Busy
      ⟨x.port, sentByte 0xff x.engine.controller, showing l c⟩ []
      ⟨awaiting x.port, answered x.engine.controller, showing l c⟩ := by
  have hstate : (sentByte 0xff x.engine.controller).state = .writeBlockData := rfl
  have hone := hgiving.tick (e := ⟨sentByte 0xff x.engine.controller, showing l c⟩) rfl
    (by rw [hstate]; decide) ⟨hsent.line.cs, hsclk⟩
    (hsent.finish (T := T) (i := pulsed x.port) c hsclk l rfl rfl)
  have hnone : controllerEvents (pulsed x.port) (sentByte 0xff x.engine.controller) = [] := by
    have hzero : (sentByte 0xff x.engine.controller).byteCounter = 0 := by
      have hcounter := hsent.counter
      change x.engine.controller.byteCounter - 1 = 0
      bv_omega
    have hpulse : (pulsed x.port).clkPulseSlow = true := rfl
    rw [controllerEvents, if_pos hpulse, hstate]
    exact if_pos (.inl hzero)
  rwa [hnone] at hone

theorem write_last (hgiving : Giving p x.port d 513 true)
    (hsent : BlockSent x.engine d.sectors s 513 bytes) (hfilled : Filled d 513 bytes) :
    ∃ y, Clocked.Logged (SdSystem.idle p T) events Busy x [] y ∧ Ready p y (d.write s) := by
  have hawaiting := hgiving.awaiting
  obtain ⟨c, hsclk, hreceiver, hsectors, t, hvia⟩ := hsent.viaLast (T := T)
    (i := pulsed (awaiting x.port)) rfl rfl
  have hcrc := write_crc (.inr rfl) hgiving hsent hvia
  have hfinish := write_finish (T := T) (x := ⟨awaiting x.port, x.engine⟩) hawaiting hsent hsclk
    (blockAnswer t)
  obtain ⟨e', hanswer, hstored⟩ := via_answer (T := T) (i := pulsed (awaiting x.port))
    x.engine.controller c hsent.line.cs hsclk hsent.mode hsent.responseType hreceiver t rfl rfl
  have hwait := hawaiting.via (e := ⟨answered x.engine.controller, showing (blockAnswer t) c⟩) rfl
    (show Between .receiveByteWait by decide) ⟨hsent.line.cs, hsclk⟩ hanswer
  have hrun := ((hcrc.trans hawaiting.busy hfinish).trans hawaiting.busy hwait).trans hawaiting.busy
    (hawaiting.last hstored)
  refine ⟨_, hrun, ⟨rfl, hawaiting.rd, hawaiting.wr, Nat.mod_lt _ period_pos, hawaiting.buffer, ?_,
    hstored.state, hstored.mode, hstored.byteAvailable, hstored.readyForNextByte, hstored.line,
    hstored.receiver, ?_⟩⟩
  · refine hawaiting.index.trans ?_
    change d.index + BitVec.ofNat 9 513 = d.index + 1
    rfl
  · rw [hstored.sectors, hsectors, update_filled hfilled]

/-! ## The command -/

/-- The port in the cycle after the command. -/
def offering (s : Word) (t : SdCardPort.Regs) : SdCardPort.Regs :=
  { t with wr := true, waitingReadyForNextByte := true, address := s, state := .preWriteSector }

/-- The port when it may be asked for the first byte. -/
def giving (s : Word) (t : SdCardPort.Regs) : SdCardPort.Regs :=
  { t with wr := false, waitingReadyForNextByte := true, address := s, state := .writeSector }

/-- The controller with the command that writes. -/
def writeCommanded (s : Word) (k : SdController.Regs) : SdController.Regs :=
  { SdController.command (0xff#8 ++ frame 0x58 s) 0b001 .writeBlockInit (into .writeBlockCmd k) with
    readyForNextByte := true }

/-- What a command that writes leads to. -/
theorem Ready.step_write (h : Ready p x d) {sector : Word} (hs : sectorAddress p sector = s)
    (v : Byte) :
    step p T ⟨true, 4, sector, v⟩ x =
      ⟨phase ((x.port.counter + 1) % period p) (offering s x.port), x.engine⟩ := by
  have hport : (step p T ⟨true, 4, sector, v⟩ x).port =
      phase ((x.port.counter + 1) % period p) (offering s x.port) := by
    rw [h.step_port rfl, ← hs]
    rfl
  have hengine : (step p T ⟨true, 4, sector, v⟩ x).engine = x.engine := h.step_engine rfl
  rw [← hport, ← hengine]

theorem giving_giving (h : Ready p x d) :
    Giving p (phase (1 % period p) (giving s x.port)) d 0 true :=
  ⟨rfl, h.rd, rfl, rfl, h.buffer, h.index.trans (by simp), rfl,
    fun m hm ↦ absurd hm (Nat.succ_ne_zero m).symm⟩

/-- The controller sees `wr`. -/
theorem write_offering (h : Ready p x d) :
    Clocked.Logged (SdSystem.idle p T) events Busy ⟨phase 0 (offering s x.port), x.engine⟩ []
      ⟨phase (1 % period p) (giving s x.port), into .writeBlockCmd x.engine.controller,
        x.engine.card⟩ := by
  have hengine : SdEngine.step T (pulsed (offering s x.port)) x.engine =
      ⟨into .writeBlockCmd x.engine.controller, x.engine.card⟩ := by
    refine h.line.step rfl rfl ?_ h.line.cs h.line.sclk
    have hrd : (pulsed (offering s x.port)).rd = false := h.rd
    simp only [SdController.fsm, h.controller, SdController.idle, hrd]
    rfl
  have hnone : events ⟨phase 0 (offering s x.port), x.engine⟩ = [] := by
    rw [events, controllerEvents, h.controller, ite_self]
    rfl
  have hone := logged_one (p := p) (T := T)
    ⟨phase 0 (offering s x.port), x.engine⟩
  rw [idle_pulse, hengine, hnone] at hone
  exact hone

/-- The controller puts the command together and asks for the first byte. -/
theorem write_giving (h : Ready p x d) :
    Clocked.Logged (SdSystem.idle p T) events Busy
      ⟨phase (1 % period p) (giving s x.port), into .writeBlockCmd x.engine.controller,
        x.engine.card⟩
      [.startWrite s, .request]
      ⟨phase (1 % period p) (giving s x.port), writeCommanded s x.engine.controller,
        x.engine.card⟩ := by
  have hline : Line ⟨into .writeBlockCmd x.engine.controller, x.engine.card⟩ [] :=
    ⟨h.line.cs, h.line.sclk, h.line.cardSclk, h.line.showing⟩
  have hengine : SdEngine.step T (pulsed (phase (1 % period p) (giving s x.port)))
      ⟨into .writeBlockCmd x.engine.controller, x.engine.card⟩ =
      ⟨writeCommanded s x.engine.controller, x.engine.card⟩ := by
    refine hline.step rfl rfl ?_ h.line.cs h.line.sclk
    rw [writeCommanded, ← cmdOut_eq 0x58 s 0xff58#16 rfl]
    rfl
  exact (giving_giving h).tick (e := ⟨into .writeBlockCmd x.engine.controller, x.engine.card⟩)
    h.readyForNextByte (by rintro ⟨⟩) hline.settled hengine

/-- The command has been answered and the first byte is with the port. -/
structure BlockAwaited (e : Engine) (sectors : Word → Sector) (s : Word) : Prop where
  line : Line e []
  state : e.controller.state = .writeBlockInit
  readyForNextByte : e.controller.readyForNextByte = true
  byteAvailable : e.controller.byteAvailable = false
  responseType : e.controller.responseType = 0b001
  receiver : e.card.receiver = .token s
  sectors : e.card.sectors = sectors

/-- The first byte is taken while the command is sent. -/
theorem write_command (h : Ready p x d) :
    ∃ e', Clocked.Logged (SdSystem.idle p T) events Busy
        ⟨phase (1 % period p) (giving s x.port), writeCommanded s x.engine.controller,
          x.engine.card⟩
        [.take (d.index + BitVec.ofNat 9 0)]
        ⟨given (phase (1 % period p) (giving s x.port)), e'⟩ ∧
      BlockAwaited e' d.sectors s := by
  have hgiving : Giving p (phase (1 % period p) (giving s x.port)) d 0 true := giving_giving h
  obtain ⟨f, hreceiver⟩ := h.receiver
  have hcommanded : Commanded ⟨writeCommanded s x.engine.controller, x.engine.card⟩ 0x58 s
      .writeBlockInit :=
    ⟨⟨h.line.cs, h.line.sclk, h.line.cardSclk, h.line.showing⟩, rfl, rfl, rfl, rfl, rfl, h.mode,
      h.byteAvailable, h.receiver⟩
  have hcard : x.engine.card = hearing (.command 0 f) (showing [] x.engine.card) := by
    rw [← h.line.showing, hearing, ← hreceiver]
  have hcycles := cycles_write (T := T) (c := x.engine.card) s f
  rw [← hcard, writeAnswer, ← List.append_nil (ones _ ++ _)] at hcycles
  have hvia := hcommanded.via (T := T)
    (i := pulsed (given (phase (1 % period p) (giving s x.port)))) rfl rfl
    (c := hearing (.token s) x.engine.card) hcycles h.line.cardSclk (.inr ⟨s, rfl⟩)
  have htake := hgiving.viaTake
    (e := ⟨writeCommanded s x.engine.controller, x.engine.card⟩) rfl (.inl rfl)
    hcommanded.line.settled hvia
  exact ⟨_, htake, ⟨⟨h.line.cs, rfl, h.line.cardSclk, rfl⟩, rfl, rfl, rfl, rfl, rfl, h.sectors⟩⟩

/-- The controller before the token of the block. -/
def blockOpened (k : SdController.Regs) : SdController.Regs :=
  { k with
    cmdMode := false
    byteCounter := SdController.writeDataSize
    state := .writeBlockData
    readyForNextByte := false }

/-- The controller is ready for the token. -/
theorem write_init (hgiving : Giving p x.port d 1 false)
    (hawaited : BlockAwaited x.engine d.sectors s) :
    Clocked.Logged (SdSystem.idle p T) events Busy x []
      ⟨x.port, blockOpened x.engine.controller, x.engine.card⟩ := by
  have hengine : SdEngine.step T (pulsed x.port) x.engine =
      ⟨blockOpened x.engine.controller, x.engine.card⟩ := by
    refine hawaited.line.step rfl rfl ?_ hawaited.line.cs hawaited.line.sclk
    simp only [SdController.fsm, hawaited.state]
    rfl
  have hone := hgiving.tick_given hawaited.readyForNextByte (by rw [hawaited.state]; decide)
    hawaited.line.settled hengine
  rwa [controllerEvents, hawaited.state, ite_self] at hone

theorem write_token (hgiving : Giving p x.port d 1 waiting)
    (hawaited : BlockAwaited x.engine d.sectors s) :
    ∃ y, Clocked.Logged (SdSystem.idle p T) events Busy
        ⟨x.port, blockOpened x.engine.controller, x.engine.card⟩ [] y ∧
      Giving p y.port d 1 true ∧ BlockSent y.engine d.sectors s 0 (fun _ ↦ 0) := by
  have hawaiting := hgiving.awaiting
  have hline : Line ⟨blockOpened x.engine.controller, x.engine.card⟩ [] :=
    ⟨hawaited.line.cs, hawaited.line.sclk, hawaited.line.cardSclk, hawaited.line.showing⟩
  have hengine : SdEngine.step T (pulsed x.port)
      ⟨blockOpened x.engine.controller, x.engine.card⟩ =
      ⟨sending 0xfe false (blockOpened x.engine.controller), x.engine.card⟩ := by
    refine hline.step rfl rfl ?_ hline.cs hline.sclk
    rfl
  have hone := hgiving.tick (e := ⟨blockOpened x.engine.controller, x.engine.card⟩)
    rfl (by rintro ⟨⟩)
    hline.settled hengine
  have hnone : controllerEvents (pulsed x.port) (blockOpened x.engine.controller) = [] := rfl
  rw [hnone] at hone
  have hcard : x.engine.card = hearing (.token s) (showing [] x.engine.card) := by
    rw [← hawaited.line.showing, hearing, ← hawaited.receiver]
  have hcycles := cycles_token (T := T) (c := x.engine.card) s
  rw [← hcard] at hcycles
  have hvia := via_sending (T := T) (i := pulsed (awaiting x.port))
    (blockOpened x.engine.controller) x.engine.card hline.cs hline.sclk hline.cardSclk
    hawaited.byteAvailable rfl 0xfe false rfl rfl
  rw [hcycles] at hvia
  have hsend := hawaiting.via
    (e := ⟨sending 0xfe false (blockOpened x.engine.controller), x.engine.card⟩) rfl
    (show Between .writeBlockByte by decide) hline.settled hvia
  have hcounter : (SdController.writeDataSize - 1).toNat = 514 := by decide
  exact ⟨_, hone.trans hawaiting.busy hsend, hawaiting,
    ⟨⟨hline.cs, rfl, hline.cardSclk, rfl⟩, rfl, hcounter, rfl, rfl, rfl, hawaited.responseType,
      ⟨0, rfl⟩, hawaited.sectors⟩⟩

theorem write_first (h : Ready p x d) (hphase : (x.port.counter + 1) % period p = 0)
    (sector : Word) (hs : sectorAddress p sector = s) (v : Byte) :
    Busy (step p T ⟨true, 4, sector, v⟩ x) ∧
      ∃ y, Clocked.Logged (SdSystem.idle p T) events Busy (step p T ⟨true, 4, sector, v⟩ x)
          (writeLog d s 1) y ∧
        Giving p y.port d 1 true ∧ BlockSent y.engine d.sectors s 0 (fun _ ↦ 0) := by
  have hgiving : Giving p (phase (1 % period p) (giving s x.port)) d 0 true := giving_giving h
  obtain ⟨e', hcommand, hawaited⟩ := write_command (T := T) (s := s) h
  have hinit := write_init (T := T) (x := ⟨given (phase (1 % period p) (giving s x.port)), e'⟩)
    hgiving.given hawaited
  obtain ⟨y, htoken, hawaiting, hsent⟩ := write_token (T := T)
    (x := ⟨given (phase (1 % period p) (giving s x.port)), e'⟩) hgiving.given hawaited
  have hrun := (((write_offering (T := T) (s := s) h).trans hgiving.busy
    (write_giving h)).trans hgiving.busy hcommand).trans hgiving.given.busy
      (hinit.trans hgiving.given.busy htoken)
  rw [h.step_write hs, hphase]
  exact ⟨rfl, y, hrun, hawaiting, hsent⟩

/-- A sector is written if the controller sees the command: the system is busy
until the bytes from the index on are on the card. -/
theorem Ready.write (h : Ready p x d) (hphase : (x.port.counter + 1) % period p = 0)
    (sector : Word) (hs : sectorAddress p sector = s) (v : Byte) :
    Busy (step p T ⟨true, 4, sector, v⟩ x) ∧
      ∃ y, Clocked.Logged (SdSystem.idle p T) events Busy (step p T ⟨true, 4, sector, v⟩ x)
          (writeLog d s 513) y ∧
        Ready p y (d.write s) := by
  obtain ⟨hbusy, y₀, hfirst, hgiving₀, hsent₀⟩ := write_first (T := T) h hphase sector hs v
  have hbytes (j : ℕ) (hj : j ≤ 512) :
      ∃ y waiting bytes, Clocked.Logged (SdSystem.idle p T) events Busy
          (step p T ⟨true, 4, sector, v⟩ x) (writeLog d s (j + 1)) y ∧
        Giving p y.port d (j + 1) waiting ∧ BlockSent y.engine d.sectors s j bytes ∧
        Filled d j bytes := by
    induction j with
    | zero => exact ⟨y₀, true, _, hfirst, hgiving₀, hsent₀,
        fun m hm ↦ absurd hm (Nat.not_lt_zero m)⟩
    | succ j ih =>
        obtain ⟨y, waiting, bytes, hrun, hgiving, hsent, hfilled⟩ := ih (by omega)
        obtain ⟨z, bytes', hnext, hgiving', hsent', hfilled'⟩ := write_next (T := T) (by omega)
          hgiving hsent hfilled
        rw [writeLog_succ]
        exact ⟨z, false, bytes', hrun.trans hgiving.busy hnext, hgiving', hsent', hfilled'⟩
  obtain ⟨y, waiting, bytes, hrun, hgiving, hsent, hfilled⟩ := hbytes 512 le_rfl
  obtain ⟨e', hvia, hsent'⟩ := hsent.via (T := T) (i := pulsed (awaiting y.port)) (by decide) 0xff
    false rfl rfl
  have hcrc := write_crc (.inl rfl) hgiving hsent hvia
  obtain ⟨w, hlast, hready⟩ := write_last (T := T) (x := ⟨awaiting y.port, e'⟩) hgiving.awaiting
    hsent' (hfilled.next fun h ↦ absurd h (Nat.lt_irrefl 512))
  have hall := hrun.trans hgiving.busy (hcrc.trans hgiving.awaiting.busy hlast)
  rw [List.append_nil, List.append_nil] at hall
  exact ⟨hbusy, w, hall, hready⟩

end Transfer

end TangNano.SdSystem
