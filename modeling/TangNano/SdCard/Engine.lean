import TangNano.Library.Clocked
import TangNano.SdCard.Card

/-!
# The controller with a card

In the states that make the clock of the card every two cycles exchange one
bit.  From these cycles follow the commands, answers and bytes that go over the
wires, each from one state of the controller to the next.
-/

namespace TangNano.SdEngine

open Serial SpiCard
open SdController (StateE mosi fsm toggle)

structure Engine where
  controller : SdController.Regs
  card : Card

/-- One rising edge of `clk`, after which the card sees its wires. -/
def step (T : ℕ → Timing) (i : SdController.Input) (e : Engine) : Engine :=
  let controller := SdController.step { i with miso := e.card.miso } e.controller
  { controller := controller
    card := observe T controller.cs controller.sclkSig (mosi controller) e.card }

/-- A state in which a transfer goes on and neither a command nor a byte of data
is dealt with. -/
def Between (s : StateE) : Prop :=
  s ≠ .idle ∧ s ≠ .readBlock ∧ s ≠ .readBlockData ∧ s ≠ .writeBlockCmd ∧ s ≠ .writeBlockData ∧
    s ≠ .rst ∧ s ≠ .init

instance (s : StateE) : Decidable (Between s) := inferInstanceAs (Decidable (_ ∧ _))

/-- The controller neither hands out a byte nor is it ready and it asks, or does
not ask, for a byte. -/
structure Quiet (asks : Bool) (e : Engine) : Prop where
  byteAvailable : e.controller.byteAvailable = false
  readyForNextByte : e.controller.readyForNextByte = asks
  state : Between e.controller.state

/-- The states that make the clock of the card. -/
def Clocking (s : StateE) : Prop :=
  s = .sendCmd ∨ s = .receiveByteWait ∨ s = .receiveByte ∨ s = .readBlockWait ∨
    s = .writeBlockByte ∨ s = .writeBlockWait

theorem Clocking.between {s : StateE} (h : Clocking s) : Between s := by
  rcases h with rfl | rfl | rfl | rfl | rfl | rfl <;> decide

/-- The controller after the clock of the card has risen. -/
def risen (k : SdController.Regs) : SdController.Regs :=
  { k with sclkSig := true, byteAvailable := false }

/-- The controller runs at full speed, the card is selected and its clock is low. -/
structure Selected (i : SdController.Input) (k : SdController.Regs) (c : Card) : Prop where
  reset : i.reset = false
  pulse : i.clkPulseSlow = true
  cs : k.cs = false
  sclk : k.sclkSig = false
  card : c.sclk = false

section Cycles

variable {T : ℕ → Timing} {i : SdController.Input} {k : SdController.Regs} {c : Card}

theorem fsm_rise (h : Clocking k.state) (hsclk : k.sclkSig = false)
    (hquiet : k.state = .receiveByte ∨ k.byteAvailable = false) :
    fsm i k = risen k := by
  obtain ⟨state, returnState, sclkSig, cmdOut, cmdMode, dataSig, responseType, byteCounter,
    bitCounter, bootCounter, resetCounter, cs, dout, byteAvailable, readyForNextByte,
    recvData⟩ := k
  obtain rfl : sclkSig = false := hsclk
  rcases hquiet with hquiet | hquiet
  · obtain rfl : state = .receiveByte := hquiet
    rfl
  · obtain rfl : byteAvailable = false := hquiet
    rcases h with h | h | h | h | h | h <;>
      · obtain rfl : state = _ := h
        rfl

theorem fsm_fall (h : Clocking k.state) (hsclk : k.sclkSig = true) :
    (fsm i k).sclkSig = false ∧ (fsm i k).cs = k.cs := by
  rcases h with h | h | h | h | h | h
  · simp only [fsm, h, SdController.sendCmd, hsclk, if_true]
    split <;> simp [toggle, hsclk]
  · simp only [fsm, h, SdController.receiveByteWait, hsclk]
    split <;> simp [toggle, hsclk]
  · simp only [fsm, h, SdController.receiveByte, hsclk, if_true]
    split <;> simp [toggle, hsclk]
  · simp only [fsm, h, SdController.readBlockWait, hsclk]
    split <;> simp [toggle, hsclk]
  · simp only [fsm, h, SdController.writeBlockByte, hsclk, if_true]
    split <;> simp [toggle, hsclk]
  · simp only [fsm, h, SdController.writeBlockWait, hsclk]
    split <;> simp [toggle, hsclk]

/-- These states look at nothing but the line from the card. -/
theorem fsm_clocking {i' : SdController.Input} (h : Clocking k.state) (hmiso : i.miso = i'.miso) :
    fsm i k = fsm i' k := by
  rcases h with h | h | h | h | h | h
  · simp only [fsm, h]
  · simp only [fsm, h, SdController.receiveByteWait, hmiso]
  · simp only [fsm, h, SdController.receiveByte, hmiso]
  · simp only [fsm, h, SdController.readBlockWait, hmiso]
  · simp only [fsm, h]
  · simp only [fsm, h, SdController.writeBlockWait, hmiso]

theorem step_eq (hreset : i.reset = false) (hpulse : i.clkPulseSlow = true) (e : Engine) :
    step T i e =
      { controller := fsm { i with miso := e.card.miso } e.controller
        card := observe T (fsm { i with miso := e.card.miso } e.controller).cs
          (fsm { i with miso := e.card.miso } e.controller).sclkSig
          (mosi (fsm { i with miso := e.card.miso } e.controller)) e.card } := by
  simp [step, SdController.step, hreset, hpulse]

theorem step_clocking {e : Engine} (h : Clocking e.controller.state) {i i' : SdController.Input}
    (hreset : i.reset = false) (hpulse : i.clkPulseSlow = true) (hreset' : i'.reset = false)
    (hpulse' : i'.clkPulseSlow = true) : step T i e = step T i' e := by
  have hfsm : fsm { i with miso := e.card.miso } e.controller =
      fsm { i' with miso := e.card.miso } e.controller := fsm_clocking h rfl
  rw [step_eq hreset hpulse, step_eq hreset' hpulse', hfsm]

/-- The card is selected and has seen its clock. -/
def Settled (e : Engine) : Prop :=
  e.controller.cs = false ∧ e.card.sclk = e.controller.sclkSig

/-- Between two pulses nothing changes. -/
theorem Settled.hold {e : Engine} (h : Settled e) (hreset : i.reset = false)
    (hpulse : i.clkPulseSlow = false) : step T i e = e := by
  obtain ⟨hcs, hsclk⟩ := h
  have hkeep : SdController.step { i with miso := e.card.miso } e.controller = e.controller := by
    simp [SdController.step, hreset, hpulse]
  have hobserve : observe T e.controller.cs e.controller.sclkSig (mosi e.controller) e.card =
      e.card := by
    rw [observe, hcs, ← hsclk]
    cases e.card.sclk <;> rfl
  simp only [step, hkeep, hobserve]

/-- Only at the start the card is deselected. -/
theorem fsm_cs (hrst : k.state ≠ .rst) (hinit : k.state ≠ .init) : (fsm i k).cs = k.cs := by
  unfold fsm
  split
  · exact absurd ‹_› hrst
  · exact absurd ‹_› hinit
  · rfl
  · rfl
  · rfl
  · rfl
  · unfold SdController.pollCmd
    split <;> rfl
  · unfold SdController.idle
    split
    · rfl
    · split <;> rfl
  · rfl
  · unfold SdController.readBlockWait
    split <;> rfl
  · unfold SdController.readBlockData
    split <;> rfl
  · rfl
  · unfold SdController.sendCmd
    split
    · split <;> rfl
    · rfl
  · unfold SdController.receiveByteWait
    split <;> rfl
  · unfold SdController.receiveByte
    split
    · split <;> rfl
    · rfl
  · rfl
  · rfl
  · unfold SdController.writeBlockData
    split
    · rfl
    · split
      · rfl
      · split <;> rfl
  · unfold SdController.writeBlockByte
    split
    · split <;> rfl
    · rfl
  · unfold SdController.writeBlockWait
    split <;> rfl

theorem Settled.step {e : Engine} (h : Settled e) (hreset : i.reset = false)
    (hpulse : i.clkPulseSlow = true) (hrst : e.controller.state ≠ .rst)
    (hinit : e.controller.state ≠ .init) : Settled (step T i e) := by
  have hcs : (fsm { i with miso := e.card.miso } e.controller).cs = false :=
    (fsm_cs hrst hinit).trans h.1
  rw [step_eq hreset hpulse]
  exact ⟨hcs, observe_sclk⟩

/-- One bit each way. -/
theorem via_cycle (h : Selected i k c) (hclocking : Clocking k.state)
    (hquiet : k.state = .receiveByte ∨ k.byteAvailable = false) :
    Clocked.Via (step T i) (Quiet k.readyForNextByte) ⟨k, c⟩
      ⟨fsm { i with miso := c.miso } (risen k), cycle T (mosi k) c⟩ := by
  have hrise : step T i ⟨k, c⟩ = ⟨risen k, raised (receive T (mosi k) c)⟩ := by
    rw [step_eq h.reset h.pulse, fsm_rise hclocking h.sclk hquiet, ← observe_rise (mosi k) h.card]
    simp only [risen, h.cs]
    rfl
  have hmiso : (raised (receive T (mosi k) c)).miso = c.miso := (receive_wires (mosi k)).2
  obtain ⟨hlow, hselected⟩ := fsm_fall (i := { i with miso := c.miso }) (k := risen k) hclocking rfl
  have hcs : (risen k).cs = false := h.cs
  have hfall : step T i ⟨risen k, raised (receive T (mosi k) c)⟩ =
      ⟨fsm { i with miso := c.miso } (risen k), cycle T (mosi k) c⟩ := by
    rw [step_eq h.reset h.pulse]
    dsimp only
    rw [hmiso, hlow, hselected, hcs, observe_fall (mosi k) _ h.card]
  rw [← hfall, ← hrise]
  refine .step ?_ (.one _)
  rw [hrise]
  exact ⟨rfl, rfl, hclocking.between⟩

theorem bitCounter_ne_zero {m : ℕ} (h : k.bitCounter.toNat = m + 1) : k.bitCounter ≠ 0 := by
  intro hzero
  rw [hzero] at h
  exact absurd h (Nat.succ_ne_zero m).symm

theorem mosi_cmd (h : k.cmdMode = true) : mosi k = k.cmdOut.getMsbD 0 := by
  rw [mosi, h]
  rfl

theorem mosi_data (h : k.cmdMode = false) : mosi k = k.dataSig.getMsbD 0 := by
  rw [mosi, h]
  rfl

/-! ## Bits to the card -/

theorem via_sendCmd (h : Selected i k c) (hstate : k.state = .sendCmd)
    (hquiet : k.byteAvailable = false) (hmode : k.cmdMode = true) {m : ℕ} (hm : m < 56)
    (hcounter : k.bitCounter.toNat = m) :
    Clocked.Via (step T i) (Quiet k.readyForNextByte) ⟨k, c⟩
      ⟨{ k with
          sclkSig := false
          byteAvailable := false
          state := .receiveByteWait
          bitCounter := 0
          cmdOut := shiftOnes k.cmdOut m },
        cycles T (firstBits k.cmdOut (m + 1)) c⟩ := by
  induction m generalizing k c with
  | zero =>
      have hzero : k.bitCounter = 0 := BitVec.eq_of_toNat_eq hcounter
      have hnext : fsm { i with miso := c.miso } (risen k) =
          { k with
            sclkSig := false
            byteAvailable := false
            state := .receiveByteWait
            bitCounter := 0 } := by
        simp only [fsm, risen, hstate, SdController.sendCmd, hzero, if_true, toggle]
        rfl
      have hcycle := via_cycle (T := T) h (.inl hstate) (.inr hquiet)
      rw [hnext, mosi_cmd hmode] at hcycle
      exact hcycle
  | succ m ih =>
      have hne := bitCounter_ne_zero hcounter
      have hnext : fsm { i with miso := c.miso } (risen k) =
          { k with
            sclkSig := false
            byteAvailable := false
            bitCounter := k.bitCounter - 1
            cmdOut := k.cmdOut.shiftConcat true } := by
        simp only [fsm, risen, hstate, SdController.sendCmd, if_neg hne, if_true, toggle]
        rw [append_ofBool]
        rfl
      have hcycle := via_cycle (T := T) h (.inl hstate) (.inr hquiet)
      rw [hnext, mosi_cmd hmode] at hcycle
      rw [firstBits_succ k.cmdOut hm true, cycles_cons]
      have hclocking : Clocking k.state := .inl hstate
      refine hcycle.trans ⟨rfl, rfl, hclocking.between⟩ ?_
      exact ih (k := { k with
            sclkSig := false
            byteAvailable := false
            bitCounter := k.bitCounter - 1
            cmdOut := k.cmdOut.shiftConcat true })
          ⟨h.reset, h.pulse, h.cs, rfl, (cycle_sclk _).trans h.card⟩ hstate rfl hmode (by omega)
          (by bv_omega)

theorem via_writeBlockByte (h : Selected i k c) (hstate : k.state = .writeBlockByte)
    (hquiet : k.byteAvailable = false) (hmode : k.cmdMode = false) {m : ℕ} (hm : m < 8)
    (hcounter : k.bitCounter.toNat = m) :
    Clocked.Via (step T i) (Quiet k.readyForNextByte) ⟨k, c⟩
      ⟨{ k with
          sclkSig := false
          byteAvailable := false
          state := .writeBlockData
          readyForNextByte := false
          bitCounter := 0
          dataSig := shiftOnes k.dataSig m },
        cycles T (firstBits k.dataSig (m + 1)) c⟩ := by
  have hclocking : Clocking k.state := .inr (.inr (.inr (.inr (.inl hstate))))
  induction m generalizing k c with
  | zero =>
      have hzero : k.bitCounter = 0 := BitVec.eq_of_toNat_eq hcounter
      have hnext : fsm { i with miso := c.miso } (risen k) =
          { k with
            sclkSig := false
            byteAvailable := false
            state := .writeBlockData
            readyForNextByte := false
            bitCounter := 0 } := by
        simp only [fsm, risen, hstate, SdController.writeBlockByte, hzero, if_true, toggle]
        rfl
      have hcycle := via_cycle (T := T) h hclocking (.inr hquiet)
      rw [hnext, mosi_data hmode] at hcycle
      exact hcycle
  | succ m ih =>
      have hne := bitCounter_ne_zero hcounter
      have hnext : fsm { i with miso := c.miso } (risen k) =
          { k with
            sclkSig := false
            byteAvailable := false
            bitCounter := k.bitCounter - 1
            dataSig := k.dataSig.shiftConcat true } := by
        simp only [fsm, risen, hstate, SdController.writeBlockByte, if_neg hne, if_true, toggle]
        rw [append_ofBool]
        rfl
      have hcycle := via_cycle (T := T) h hclocking (.inr hquiet)
      rw [hnext, mosi_data hmode] at hcycle
      rw [firstBits_succ k.dataSig hm true, cycles_cons]
      refine hcycle.trans ⟨rfl, rfl, hclocking.between⟩ ?_
      exact ih (k := { k with
            sclkSig := false
            byteAvailable := false
            bitCounter := k.bitCounter - 1
            dataSig := k.dataSig.shiftConcat true })
          ⟨h.reset, h.pulse, h.cs, rfl, (cycle_sclk _).trans h.card⟩ hstate rfl hmode (by omega)
          (by bv_omega) hclocking

/-! ## Bits from the card -/

theorem lowered (hsclk : k.sclkSig = false) (hquiet : k.byteAvailable = false) :
    { k with sclkSig := false, byteAvailable := false } = k := by
  obtain ⟨state, returnState, sclkSig⟩ := k
  obtain rfl : sclkSig = false := hsclk
  simp only [SdController.Regs.mk.injEq, true_and, and_true]
  exact hquiet.symm

/-- A state that waits for a level of the line leaves when the level comes. -/
theorem via_poll (level : Bool) (h : Selected i k c) (hclocking : Clocking k.state)
    (hquiet : k.byteAvailable = false) (hmosi : mosi k = true) (hwaits : Waits c.receiver)
    {k' : SdController.Regs}
    (hwait : ∀ i : SdController.Input, i.miso = !level → fsm i (risen k) = k)
    (hdone : ∀ i : SdController.Input, i.miso = level → fsm i (risen k) = k') (n : ℕ)
    {l : List Bool} (hlevel : l.headD true = level) :
    Clocked.Via (step T i) (Quiet k.readyForNextByte)
      ⟨k, showing (List.replicate n (!level) ++ l) c⟩ ⟨k', showing l.tail c⟩ := by
  have hshowing (l : List Bool) : Selected i k (showing l c) :=
    ⟨h.reset, h.pulse, h.cs, h.sclk, h.card⟩
  induction n with
  | zero =>
      have hcycle := via_cycle (T := T) (hshowing l) hclocking (.inr hquiet)
      rw [hmosi, cycle_true hwaits, hdone _ hlevel] at hcycle
      exact hcycle
  | succ n ih =>
      have hcycle := via_cycle (T := T) (hshowing (List.replicate (n + 1) (!level) ++ l))
        hclocking (.inr hquiet)
      rw [hmosi, cycle_true hwaits, hwait _ rfl] at hcycle
      exact hcycle.trans ⟨hquiet, rfl, hclocking.between⟩ ih

/-- The first 0 of a response. -/
theorem via_receiveByteWait (h : Selected i k c) (hstate : k.state = .receiveByteWait)
    (hquiet : k.byteAvailable = false) (hmosi : mosi k = true) (hwaits : Waits c.receiver)
    (htype : k.responseType = 0b001) (n : ℕ) (rest : List Bool) :
    Clocked.Via (step T i) (Quiet k.readyForNextByte)
      ⟨k, showing (ones n ++ false :: rest) c⟩
      ⟨{ k with
          sclkSig := false
          byteAvailable := false
          recvData := 0
          bitCounter := 6
          state := .receiveByte },
        showing rest c⟩ := by
  refine via_poll (l := false :: rest) false h (.inr (.inl hstate)) hquiet hmosi hwaits
    ?_ ?_ n rfl
  · intro j hj
    simp only [fsm, risen, hstate, SdController.receiveByteWait, hj, toggle]
    rw [← hstate]
    exact lowered h.sclk hquiet
  · intro j hj
    simp only [fsm, risen, hstate, SdController.receiveByteWait, hj, toggle, htype]
    rfl

/-- The token before a block. -/
theorem via_readBlockWait (h : Selected i k c) (hstate : k.state = .readBlockWait)
    (hquiet : k.byteAvailable = false) (hmosi : mosi k = true) (hwaits : Waits c.receiver) (n : ℕ)
    (rest : List Bool) :
    Clocked.Via (step T i) (Quiet k.readyForNextByte)
      ⟨k, showing (ones n ++ false :: rest) c⟩
      ⟨{ k with
          sclkSig := false
          byteAvailable := false
          byteCounter := 511
          bitCounter := 7
          returnState := .readBlockData
          state := .receiveByte },
        showing rest c⟩ := by
  refine via_poll (l := false :: rest) false h (.inr (.inr (.inr (.inl hstate)))) hquiet hmosi
    hwaits ?_ ?_ n rfl
  · intro j hj
    simp only [fsm, risen, hstate, SdController.readBlockWait, hj, toggle]
    rw [← hstate]
    exact lowered h.sclk hquiet
  · intro j hj
    simp only [fsm, risen, hstate, SdController.readBlockWait, hj, toggle]
    rfl

/-- The end of the time in which the card is busy. -/
theorem via_writeBlockWait (h : Selected i k c) (hstate : k.state = .writeBlockWait)
    (hquiet : k.byteAvailable = false) (hmosi : mosi k = true) (hwaits : Waits c.receiver) (n : ℕ) :
    Clocked.Via (step T i) (Quiet k.readyForNextByte) ⟨k, showing (zeros n) c⟩
      ⟨{ k with
          sclkSig := false
          byteAvailable := false
          cmdMode := true
          state := .idle },
        showing [] c⟩ := by
  have hzeros : zeros n = List.replicate n (!true) ++ [] := by simp [zeros]
  rw [hzeros]
  refine via_poll (l := []) true h (.inr (.inr (.inr (.inr (.inr hstate))))) hquiet hmosi
    hwaits ?_ ?_ n rfl
  · intro j hj
    simp only [fsm, risen, hstate, SdController.writeBlockWait, hj, toggle]
    rw [← hstate]
    exact lowered h.sclk hquiet
  · intro j hj
    simp only [fsm, risen, hstate, SdController.writeBlockWait, hj, toggle]
    rfl

theorem via_receiveByte (h : Selected i k c) (hstate : k.state = .receiveByte)
    (hmosi : mosi k = true) (hwaits : Waits c.receiver) {m : ℕ} (hcounter : k.bitCounter.toNat = m)
    (l : List Bool) :
    Clocked.Via (step T i) (Quiet k.readyForNextByte) ⟨k, showing l c⟩
      ⟨{ k with
          sclkSig := false
          byteAvailable := false
          state := k.returnState
          bitCounter := 0
          recvData := shiftIn k.recvData (nextBits l (m + 1)) },
        showing (l.drop (m + 1)) c⟩ := by
  have hclocking : Clocking k.state := .inr (.inr (.inl hstate))
  induction m generalizing k l with
  | zero =>
      have hzero : k.bitCounter = 0 := BitVec.eq_of_toNat_eq hcounter
      have hnext : fsm { i with miso := (showing l c).miso } (risen k) =
          { k with
            sclkSig := false
            byteAvailable := false
            state := k.returnState
            bitCounter := 0
            recvData := k.recvData.shiftConcat (l.headD true) } := by
        simp only [fsm, risen, hstate, SdController.receiveByte, hzero, if_true, toggle]
        rw [append_ofBool]
        rfl
      have hcycle := via_cycle (T := T) (c := showing l c)
        ⟨h.reset, h.pulse, h.cs, h.sclk, h.card⟩ hclocking (.inl hstate)
      rw [hmosi, cycle_true hwaits, hnext] at hcycle
      rw [Nat.zero_add, List.drop_one]
      exact hcycle
  | succ m ih =>
      have hne := bitCounter_ne_zero hcounter
      have hnext : fsm { i with miso := (showing l c).miso } (risen k) =
          { k with
            sclkSig := false
            byteAvailable := false
            bitCounter := k.bitCounter - 1
            recvData := k.recvData.shiftConcat (l.headD true) } := by
        simp only [fsm, risen, hstate, SdController.receiveByte, if_neg hne, if_true, toggle]
        rw [append_ofBool]
        rfl
      have hcycle := via_cycle (T := T) (c := showing l c)
        ⟨h.reset, h.pulse, h.cs, h.sclk, h.card⟩ hclocking (.inl hstate)
      rw [hmosi, cycle_true hwaits, hnext] at hcycle
      have hdrop : l.drop (m + 1 + 1) = l.tail.drop (m + 1) := by
        rw [← List.drop_one, List.drop_drop, Nat.add_comm]
      rw [hdrop]
      refine hcycle.trans ⟨rfl, rfl, hclocking.between⟩ ?_
      exact ih (k := { k with
            sclkSig := false
            byteAvailable := false
            bitCounter := k.bitCounter - 1
            recvData := k.recvData.shiftConcat (l.headD true) })
          ⟨h.reset, h.pulse, h.cs, rfl, h.card⟩ hstate hmosi (by bv_omega) l.tail hclocking

end Cycles

/-! ## Commands -/

/-- The line from the card: nothing is on its way but these bits. -/
structure Line (e : Engine) (l : List Bool) : Prop where
  cs : e.controller.cs = false
  sclk : e.controller.sclkSig = false
  cardSclk : e.card.sclk = false
  showing : e.card = showing l e.card

theorem Line.settled {e : Engine} {l : List Bool} (h : Line e l) : Settled e :=
  ⟨h.cs, h.cardSclk.trans h.sclk.symm⟩

/-- A cycle in which the clock of the card stands still. -/
theorem Line.step {T : ℕ → Timing} {i : SdController.Input} {e : Engine} {l : List Bool}
    (h : Line e l) (hreset : i.reset = false) (hpulse : i.clkPulseSlow = true)
    {k : SdController.Regs} (hfsm : fsm { i with miso := e.card.miso } e.controller = k)
    (hcs : k.cs = false) (hsclk : k.sclkSig = false) : step T i e = ⟨k, e.card⟩ := by
  rw [step_eq hreset hpulse, hfsm, hcs, hsclk]
  simp [observe, h.cardSclk]

/-- Without a command nothing happens. -/
theorem Line.step_idle {T : ℕ → Timing} {e : Engine} {l : List Bool} (h : Line e l)
    (i : SdController.Input) (hstate : e.controller.state = .idle) (hreset : i.reset = false)
    (hrd : i.rd = false) (hwr : i.wr = false) : SdEngine.step T i e = e := by
  cases hpulse : i.clkPulseSlow with
  | false => exact h.settled.hold hreset hpulse
  | true =>
      have hfsm : fsm { i with miso := e.card.miso } e.controller = e.controller := by
        simp [fsm, hstate, SdController.idle, hrd, hwr]
      exact h.step hreset hpulse hfsm h.cs h.sclk

/-- A command has been put together. -/
structure Commanded (e : Engine) (code : Byte) (s : Word) (returnState : SdController.StateE) :
    Prop where
  line : Line e []
  state : e.controller.state = .sendCmd
  cmdOut : e.controller.cmdOut = 0xff#8 ++ frame code s
  bitCounter : e.controller.bitCounter = 55
  responseType : e.controller.responseType = 0b001
  returnState : e.controller.returnState = returnState
  mode : e.controller.cmdMode = true
  byteAvailable : e.controller.byteAvailable = false
  receiver : ∃ f, e.card.receiver = .command 0 f

theorem cmdOut_eq (code : Byte) (s : Word) (high : BitVec 16) (hhigh : high = 0xff#8 ++ code) :
    high ++ s ++ 0xff#8 = (0xff#8 ++ frame code s : BitVec 56) := by
  subst hhigh
  apply BitVec.eq_of_getLsbD_eq
  intro i hi
  simp only [frame, BitVec.getLsbD_append]
  by_cases hcrc : i < 8
  · rw [if_pos hcrc, if_pos (show i < 48 by omega), if_pos hcrc]
  · by_cases hargument : i - 8 < 32
    · rw [if_neg hcrc, if_pos hargument, if_pos (show i < 48 by omega), if_neg hcrc,
        if_pos hargument]
    · rw [if_neg hcrc, if_neg hargument]
      by_cases hcode : i < 48
      · rw [if_pos hcode, if_pos (show i - 8 - 32 < 8 by omega), if_neg hcrc, if_neg hargument]
      · rw [if_neg hcode, if_neg (show ¬ i - 8 - 32 < 8 by omega)]
        congr 1

section Start

variable {T : ℕ → Timing} {i : SdController.Input} {e : Engine} {s : Word}

/-- The last bit of a command is a one and stays on the wire. -/
theorem Commanded.last {code : Byte} {returnState : SdController.StateE}
    (h : Commanded e code s returnState) : (shiftOnes e.controller.cmdOut 55).getMsbD 0 = true := by
  rw [getMsbD_shiftOnes _ (by decide), h.cmdOut, BitVec.getMsbD_append, if_pos (by decide), frame,
    BitVec.getMsbD_append, if_pos (by decide)]
  rfl

/-- A command is sent and the first byte of the answer received. -/
theorem Commanded.via {code : Byte} {returnState : SdController.StateE}
    (h : Commanded e code s returnState) (hreset : i.reset = false) (hpulse : i.clkPulseSlow = true)
    {c : Card} {n : ℕ} {rest : List Bool}
    (hcycles : cycles T (bits (0xff#8 ++ frame code s)) e.card =
      showing (ones n ++ bits (0 : Byte) ++ rest) c)
    (hcard : c.sclk = false) (hwaits : Waits c.receiver) :
    Clocked.Via (step T i) (Quiet e.controller.readyForNextByte) e
      ⟨{ e.controller with
          sclkSig := false
          byteAvailable := false
          cmdOut := shiftOnes e.controller.cmdOut 55
          state := returnState
          bitCounter := 0
          recvData := 0 },
        showing rest c⟩ := by
  have hlast : mosi { e.controller with
      sclkSig := false
      byteAvailable := false
      state := .receiveByteWait
      bitCounter := 0
      cmdOut := shiftOnes e.controller.cmdOut 55 } = true := by
    rw [mosi, h.mode]
    exact h.last
  have hsend := via_sendCmd (T := T) (m := 55)
    ⟨hreset, hpulse, h.line.cs, h.line.sclk, h.line.cardSclk⟩ h.state h.byteAvailable h.mode
    (by decide) (by rw [h.bitCounter]; rfl)
  have hbits : firstBits e.controller.cmdOut 56 = bits (0xff#8 ++ frame code s) := by
    rw [h.cmdOut]
    rfl
  have hzero : bits (0 : Byte) = false :: zeros 7 := by decide
  rw [hbits, hcycles, hzero, List.append_assoc, List.cons_append] at hsend
  have hwait := via_receiveByteWait (T := T) (k := { e.controller with
      sclkSig := false
      byteAvailable := false
      state := .receiveByteWait
      bitCounter := 0
      cmdOut := shiftOnes e.controller.cmdOut 55 })
    ⟨hreset, hpulse, h.line.cs, rfl, hcard⟩ rfl rfl hlast hwaits h.responseType n (zeros 7 ++ rest)
  have hreceive := via_receiveByte (T := T) (k := { e.controller with
      sclkSig := false
      byteAvailable := false
      cmdOut := shiftOnes e.controller.cmdOut 55
      recvData := 0
      bitCounter := 6
      state := .receiveByte })
    ⟨hreset, hpulse, h.line.cs, rfl, hcard⟩ rfl hlast hwaits (m := 6) rfl (zeros 7 ++ rest)
  have hnext : nextBits (zeros 7 ++ rest) 7 = zeros 7 := nextBits_append (zeros 7) rest
  have hdata : shiftIn (0 : Byte) (zeros 7) = 0 := by decide
  have hrest : (zeros 7 ++ rest).drop 7 = rest := rfl
  rw [hnext, hdata, hrest] at hreceive
  have hresult := (hsend.trans ⟨rfl, rfl, show Between .receiveByteWait by decide⟩ hwait).trans
    ⟨rfl, rfl, show Between .receiveByte by decide⟩ hreceive
  rw [← h.returnState]
  exact hresult

end Start

end TangNano.SdEngine
