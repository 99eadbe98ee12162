import TangNano.SdCard.Engine

/-!
# A card that has just been switched on

It counts the cycles of its clock until it is selected, goes to SPI mode with
command 0 and says that it is ready some time after it has been asked with
commands 8, 55 and 41.  Then it is a card as in `SpiCard`.
-/

namespace TangNano.SdPowerUp

open Serial SpiCard
open SdController (StateE mosi fsm toggle)
open SdEngine (Clocking Selected risen)
open SdCardPort (Sector)

inductive Stage
  /-- cycles of the clock before it is selected -/
  | power (clocks : ℕ)
  /-- in SPI mode; whether command 8 and whether command 55 has come -/
  | idle (checked app : Bool)
  | ready
deriving DecidableEq, Repr

structure Fresh where
  stage : Stage
  /-- how often it still says that it is not ready -/
  tries : ℕ
  card : Card

def Fresh.onCard (g : Card → Card) (f : Fresh) : Fresh := { f with card := g f.card }

/-- Command 0 with its CRC. -/
def goIdleState : BitVec 48 := 0x400000000095

/-- Command 8 with its CRC, a voltage and a pattern that comes back. -/
def sendIfCond : BitVec 48 := 0x48000001aa87

section Model

variable (T : ℕ → Timing)

/-- A command is complete and these bits are its answer. -/
def answer (l : List Bool) (stage : Stage) (tries : ℕ) (c : Card) : Fresh :=
  ⟨stage, tries,
    { c with
      out := c.out ++ (ones (T c.served).response ++ l)
      receiver := .command 0 0
      served := c.served + 1 }⟩

/-- A command is complete. -/
def execute (frame : BitVec 48) (f : Fresh) : Fresh :=
  match f.stage with
  | .power clocks =>
      if 74 ≤ clocks ∧ frame = goIdleState then
        answer T (bits (0x01 : Byte)) (.idle false false) f.tries f.card
      else f.onCard (hearing (.command 0 0))
  | .idle checked app =>
      if frame = sendIfCond then
        answer T (bits (0x01 : Byte) ++ bits (0x000001aa : Word)) (.idle true false) f.tries f.card
      else if frame.extractLsb' 40 8 = 0x77 then
        answer T (bits (0x01 : Byte)) (.idle checked true) f.tries f.card
      else if frame.extractLsb' 40 8 = 0x69 ∧ app = true then
        -- a card of high capacity is not ready for a host that does not know such cards
        if checked = true ∧ frame.getLsbD 38 = true ∧ f.tries = 0 then
          answer T (bits (0x00 : Byte)) .ready 0 f.card
        else answer T (bits (0x01 : Byte)) (.idle checked false) (f.tries - 1) f.card
      else answer T (bits (0x05 : Byte)) (.idle checked false) f.tries f.card
  | .ready => f.onCard (SpiCard.execute T frame)

def receive (mosi : Bool) (f : Fresh) : Fresh :=
  match f.card.receiver with
  | .command count frame =>
      if count = 47 then execute T (frame.shiftConcat mosi) f
      else f.onCard (SpiCard.receive T mosi)
  | _ => f.onCard (SpiCard.receive T mosi)

def Stage.count (rises : Bool) : Stage → Stage
  | .power clocks => .power (if rises then clocks + 1 else clocks)
  | s => s

/-- The card sees its wires. -/
def observe (cs sclk mosi : Bool) (f : Fresh) : Fresh :=
  if cs then
    { f with
      stage := f.stage.count (sclk && !f.card.sclk && mosi)
      card := SpiCard.observe T cs sclk mosi f.card }
  else if sclk = true ∧ f.card.sclk = false then (receive T mosi f).onCard raised
  else f.onCard (SpiCard.observe T cs sclk mosi)

/-- A full cycle of the clock. -/
def cycle (mosi : Bool) (f : Fresh) : Fresh := (receive T mosi f).onCard shiftOut

def cycles (l : List Bool) (f : Fresh) : Fresh := l.foldl (fun f b ↦ cycle T b f) f

end Model

/-- The controller with this card. -/
structure Engine where
  controller : SdController.Regs
  card : Fresh

/-- One rising edge of `clk`, after which the card sees its wires. -/
def step (T : ℕ → Timing) (i : SdController.Input) (e : Engine) : Engine :=
  let controller := SdController.step { i with miso := e.card.card.miso } e.controller
  { controller := controller
    card := observe T controller.cs controller.sclkSig (mosi controller) e.card }

section Card

variable {T : ℕ → Timing} {f : Fresh}

theorem execute_wires (frame : BitVec 48) :
    (execute T frame f).card.sclk = f.card.sclk ∧ (execute T frame f).card.miso = f.card.miso := by
  unfold execute
  split
  · split <;> exact ⟨rfl, rfl⟩
  · split_ifs <;> exact ⟨rfl, rfl⟩
  · unfold SpiCard.execute
    dsimp only
    split_ifs <;> exact ⟨rfl, rfl⟩

theorem receive_wires (mosi : Bool) :
    (receive T mosi f).card.sclk = f.card.sclk ∧ (receive T mosi f).card.miso = f.card.miso := by
  unfold receive
  split
  · split
    · exact execute_wires _
    · exact SpiCard.receive_wires mosi
  · exact SpiCard.receive_wires mosi

/-- Before the end of a command the card only listens. -/
theorem receive_of_lt {count : ℕ} {frame : BitVec 48} (h : f.card.receiver = .command count frame)
    (hcount : count < 47) (mosi : Bool) :
    receive T mosi f = f.onCard (SpiCard.receive T mosi) := by
  simp only [receive, h, if_neg hcount.ne]

/-- A card that is ready. -/
theorem receive_ready (h : f.stage = .ready) (mosi : Bool) :
    receive T mosi f = f.onCard (SpiCard.receive T mosi) := by
  unfold receive
  split
  · next count frame hreceiver =>
      split
      · next hcount =>
          have hne : ¬ (count = 0 ∧ mosi = true) := fun hzero ↦ by omega
          simp only [execute, h, Fresh.onCard, SpiCard.receive, hreceiver, if_neg hne,
            if_pos hcount]
      · rfl
  · rfl

theorem observe_ready (h : f.stage = .ready) (cs sclk mosi : Bool) :
    observe T cs sclk mosi f = f.onCard (SpiCard.observe T cs sclk mosi) := by
  cases cs with
  | true => simp only [observe, if_true, h, Stage.count, Fresh.onCard]
  | false =>
      by_cases hrise : sclk = true ∧ f.card.sclk = false
      · obtain ⟨rfl, hsclk⟩ := hrise
        simp only [observe, Bool.false_eq_true, if_false, hsclk, and_self, if_true, receive_ready h,
          Fresh.onCard, SpiCard.observe_rise mosi hsclk]
      · simp only [observe, Bool.false_eq_true, if_false, if_neg hrise]

theorem observe_sclk {cs sclk mosi : Bool} : (observe T cs sclk mosi f).card.sclk = sclk := by
  unfold observe
  split
  · exact SpiCard.observe_sclk
  · split
    · next hrise => exact hrise.1.symm
    · exact SpiCard.observe_sclk

/-- Wires that do not change say nothing new. -/
theorem observe_observe (cs sclk mosi : Bool) :
    observe T cs sclk mosi (observe T cs sclk mosi f) = observe T cs sclk mosi f := by
  have hsclk : (observe T cs sclk mosi f).card.sclk = sclk := observe_sclk
  cases cs with
  | true =>
      have hcount : (sclk && !(observe T true sclk mosi f).card.sclk && mosi) = false := by
        rw [hsclk, Bool.and_not_self, Bool.false_and]
      have hstage (s : Stage) : s.count false = s := by cases s <;> rfl
      conv_lhs => rw [observe, if_pos rfl, hcount, hstage]
      rfl
  | false =>
      generalize observe T false sclk mosi f = g at hsclk
      subst hsclk
      have hcard : SpiCard.observe T false g.card.sclk mosi g.card = g.card := by
        cases hlevel : g.card.sclk <;> simp [SpiCard.observe, hlevel]
      have hrise : ¬ (g.card.sclk = true ∧ g.card.sclk = false) := fun h ↦
        absurd (h.1.symm.trans h.2) (by decide)
      rw [observe, if_neg Bool.false_ne_true, if_neg hrise, Fresh.onCard, hcard]

/-! ## Bits of a command -/

@[simp] theorem cycles_nil : cycles T [] f = f := rfl

@[simp] theorem cycles_cons (b : Bool) (l : List Bool) :
    cycles T (b :: l) f = cycles T l (cycle T b f) := rfl

theorem cycles_append (l l' : List Bool) :
    cycles T (l ++ l') f = cycles T l' (cycles T l f) := List.foldl_append

variable {stage : Stage} {tries : ℕ} {c : Card}

theorem cycle_of_lt {count : ℕ} {frame : BitVec 48} (h : c.receiver = .command count frame)
    (hcount : count < 47) (mosi : Bool) :
    cycle T mosi ⟨stage, tries, c⟩ = ⟨stage, tries, SpiCard.cycle T mosi c⟩ := by
  simp only [cycle, receive_of_lt (f := ⟨stage, tries, c⟩) h hcount]
  rfl

/-- While the host sends ones the answer comes out. -/
theorem cycle_true {frame : BitVec 48} (h : c.receiver = .command 0 frame) (l : List Bool) :
    cycle T true ⟨stage, tries, showing l c⟩ = ⟨stage, tries, showing l.tail c⟩ := by
  rw [cycle_of_lt (c := showing l c) h (by decide), SpiCard.cycle_true (.inl ⟨frame, h⟩)]

theorem cycles_ones {frame : BitVec 48} (h : c.receiver = .command 0 frame) (n : ℕ) :
    cycles T (ones n) ⟨stage, tries, showing [] c⟩ = ⟨stage, tries, showing [] c⟩ := by
  induction n with
  | zero => rfl
  | succ n ih =>
      rw [ones, List.replicate_succ, cycles_cons, cycle_true h]
      exact ih

theorem cycles_listens {bit : ℕ → Bool} (hstart : bit 0 = false) (frame : BitVec 48) {n : ℕ}
    (hn : n < 48) :
    cycles T ((List.range n).map bit) ⟨stage, tries, hearing (.command 0 frame) (showing [] c)⟩ =
      ⟨stage, tries, SpiCard.cycles T ((List.range n).map bit)
        (hearing (.command 0 frame) (showing [] c))⟩ := by
  induction n with
  | zero => rfl
  | succ n ih =>
      rw [List.range_succ, List.map_append, cycles_append, ih (by omega), SpiCard.cycles_append,
        SpiCard.cycles_frame hstart frame (by omega)]
      exact cycle_of_lt rfl (by omega) (bit n)

/-- A card that is listening has got some of eight ones and a command. -/
theorem cycles_part (stage : Stage) (tries : ℕ) (c : Card) {v : BitVec 48}
    (hstart : v.getMsbD 0 = false) (frame : BitVec 48) {j : ℕ} (hj : j < 56) :
    ∃ count frame', cycles T ((ones 8 ++ bits v).take j)
        ⟨stage, tries, hearing (.command 0 frame) (showing [] c)⟩ =
      ⟨stage, tries, hearing (.command count frame') (showing [] c)⟩ := by
  have hones (n : ℕ) : cycles T (ones n) ⟨stage, tries, hearing (.command 0 frame) (showing [] c)⟩ =
      ⟨stage, tries, hearing (.command 0 frame) (showing [] c)⟩ :=
    cycles_ones (c := hearing (.command 0 frame) c) rfl n
  rcases Nat.le_total j 8 with hle | hge
  · have htake : (ones 8 ++ bits v).take j = ones j := by
      rw [List.take_append_of_le_length (by simpa [ones] using hle), ones, List.take_replicate,
        Nat.min_eq_left hle]
      rfl
    exact ⟨0, frame, by rw [htake, hones]⟩
  · obtain ⟨n, rfl⟩ := Nat.exists_eq_add_of_le hge
    have htake : (ones 8 ++ bits v).take (8 + n) =
        ones 8 ++ (List.range n).map v.getMsbD := by
      rw [List.take_append, ones, List.length_replicate, List.take_replicate,
        Nat.add_sub_cancel_left, bits, firstBits, ← List.map_take, List.take_range,
        Nat.min_eq_right hge, Nat.min_eq_left (by omega)]
    rw [htake, cycles_append, hones, cycles_listens hstart frame (by omega),
      SpiCard.cycles_frame hstart frame (by omega)]
    exact ⟨n, _, rfl⟩

/-- A card that is listening gets eight ones and a command. -/
theorem cycles_command (stage : Stage) (tries : ℕ) (c : Card) {v : BitVec 48}
    (hstart : v.getMsbD 0 = false) (frame : BitVec 48) :
    ∃ frame', cycles T (ones 8 ++ bits v)
        ⟨stage, tries, hearing (.command 0 frame) (showing [] c)⟩ =
      (execute T v ⟨stage, tries, hearing (.command 47 frame') (showing [] c)⟩).onCard
        shiftOut := by
  refine ⟨shiftIn frame ((List.range 47).map v.getMsbD), ?_⟩
  have hlast : (shiftIn frame ((List.range 47).map v.getMsbD)).shiftConcat (v.getMsbD 47) = v := by
    have hwhole := shiftIn_bits frame v
    rw [bits, firstBits, List.range_succ, List.map_append] at hwhole
    simpa [shiftIn] using hwhole
  have hones : cycles T (ones 8) ⟨stage, tries, hearing (.command 0 frame) (showing [] c)⟩ =
      ⟨stage, tries, hearing (.command 0 frame) (showing [] c)⟩ :=
    cycles_ones (c := hearing (.command 0 frame) c) rfl 8
  rw [cycles_append, hones, bits, firstBits, List.range_succ, List.map_append, cycles_append,
    cycles_listens hstart frame (by decide), SpiCard.cycles_frame hstart frame (by decide)]
  simp only [List.map_cons, List.map_nil, cycles_cons, cycles_nil, cycle, receive, hearing,
    if_true, hlast]

end Card

/-! ## Cycles of the clock -/

/-- A card with these sectors is given no block. -/
structure Listens (sectors : Word → Sector) (f : Fresh) : Prop where
  receiver : ∃ count frame, f.card.receiver = .command count frame
  sectors : f.card.sectors = sectors

/-- The controller is not ready and the card keeps its sectors. -/
structure Working (sectors : Word → Sector) (e : Engine) : Prop where
  state : e.controller.state ≠ .idle
  listens : Listens sectors e.card

section Cycles

variable {T : ℕ → Timing} {i : SdController.Input} {k : SdController.Regs} {f : Fresh}
  {sectors : Word → Sector}

/-- Only a card that is ready is given a block. -/
theorem Listens.receive (h : Listens sectors f) (hstage : f.stage ≠ .ready) (mosi : Bool) :
    Listens sectors (receive T mosi f) := by
  obtain ⟨count, frame, hreceiver⟩ := h.receiver
  simp only [SdPowerUp.receive, hreceiver]
  split
  · unfold execute
    split
    · split
      · exact ⟨⟨0, 0, rfl⟩, h.sectors⟩
      · exact ⟨⟨0, 0, rfl⟩, h.sectors⟩
    · split_ifs <;> exact ⟨⟨0, 0, rfl⟩, h.sectors⟩
    · next hready => exact absurd hready hstage
  · next hcount =>
      simp only [Fresh.onCard, SpiCard.receive, hreceiver, if_neg hcount]
      split
      · exact ⟨⟨count, frame, hreceiver⟩, h.sectors⟩
      · exact ⟨⟨_, _, rfl⟩, h.sectors⟩

/-- Ones begin no command. -/
theorem Listens.receive_true {frame : BitVec 48} (h : Listens sectors f)
    (hreceiver : f.card.receiver = .command 0 frame) :
    Listens sectors (SdPowerUp.receive T true f) := by
  rw [receive_of_lt hreceiver (by decide), Fresh.onCard,
    SpiCard.receive_true (.inl ⟨frame, hreceiver⟩)]
  exact h

theorem step_eq (hreset : i.reset = false) (hpulse : i.clkPulseSlow = true) (e : Engine) :
    step T i e =
      { controller := fsm { i with miso := e.card.card.miso } e.controller
        card := observe T (fsm { i with miso := e.card.card.miso } e.controller).cs
          (fsm { i with miso := e.card.card.miso } e.controller).sclkSig
          (mosi (fsm { i with miso := e.card.card.miso } e.controller)) e.card } := by
  simp [step, SdController.step, hreset, hpulse]

/-- One bit each way. -/
theorem via_cycle (h : Selected i k f.card) (hclocking : Clocking k.state)
    (hquiet : k.byteAvailable = false) (hlistens : Listens sectors (receive T (mosi k) f)) :
    Clocked.Via (step T i) (Working sectors) ⟨k, f⟩
      ⟨fsm { i with miso := f.card.miso } (risen k), cycle T (mosi k) f⟩ := by
  have hrise : step T i ⟨k, f⟩ = ⟨risen k, (receive T (mosi k) f).onCard raised⟩ := by
    rw [step_eq h.reset h.pulse, SdEngine.fsm_rise hclocking h.sclk (.inr hquiet)]
    simp only [risen, h.cs]
    simp only [observe, Bool.false_eq_true, if_false, h.card, and_self, if_true]
    rfl
  obtain ⟨hsclk, hmiso⟩ := receive_wires (T := T) (f := f) (mosi k)
  obtain ⟨hlow, hselected⟩ :=
    SdEngine.fsm_fall (i := { i with miso := f.card.miso }) (k := risen k) hclocking rfl
  have hcs : (risen k).cs = false := h.cs
  have hmiso' : ((receive T (mosi k) f).onCard raised).card.miso = f.card.miso := hmiso
  have hfall : step T i ⟨risen k, (receive T (mosi k) f).onCard raised⟩ =
      ⟨fsm { i with miso := f.card.miso } (risen k), cycle T (mosi k) f⟩ := by
    rw [step_eq h.reset h.pulse]
    dsimp only
    rw [hmiso', hlow, hselected, hcs, cycle]
    generalize receive T (mosi k) f = g at hsclk
    obtain ⟨stage, tries, sclk, miso, out, receiver, sectors, served⟩ := g
    obtain rfl : sclk = false := hsclk.trans h.card
    rfl
  rw [← hfall, ← hrise]
  refine .step ?_ (.one _)
  rw [hrise]
  exact ⟨hclocking.between.1, hlistens.receiver, hlistens.sectors⟩

theorem cycle_sclk (mosi : Bool) : (cycle T mosi f).card.sclk = f.card.sclk :=
  (receive_wires mosi).1

theorem cycles_sclk (l : List Bool) : (cycles T l f).card.sclk = f.card.sclk := by
  induction l generalizing f with
  | nil => rfl
  | cons b l ih => rw [cycles_cons, ih, cycle_sclk]

section Controller

variable (hsclk : k.sclkSig = false) (hquiet : k.byteAvailable = false)
include hsclk hquiet

theorem fsm_sendCmd (hstate : k.state = .sendCmd) (hcounter : k.bitCounter ≠ 0) :
    fsm i (risen k) =
      { k with bitCounter := k.bitCounter - 1, cmdOut := k.cmdOut.shiftConcat true } := by
  simp only [fsm, risen, hstate, SdController.sendCmd, if_true, if_neg hcounter, toggle,
    append_ofBool]
  rw [← hstate]
  exact congrArg (fun k' : SdController.Regs ↦
    { k' with bitCounter := k.bitCounter - 1, cmdOut := k.cmdOut.shiftConcat true })
    (SdEngine.lowered hsclk hquiet)

theorem fsm_sendCmd_last (hstate : k.state = .sendCmd) (hcounter : k.bitCounter = 0) :
    fsm i (risen k) = { k with state := .receiveByteWait } := by
  simp only [fsm, risen, hstate, SdController.sendCmd, if_true, if_pos hcounter, toggle]
  exact congrArg (fun k' : SdController.Regs ↦ { k' with state := .receiveByteWait })
    (SdEngine.lowered hsclk hquiet)

theorem fsm_receiveByteWait (hstate : k.state = .receiveByteWait) (hmiso : i.miso = true) :
    fsm i (risen k) = k := by
  simp only [fsm, risen, hstate, SdController.receiveByteWait, hmiso, toggle]
  rw [← hstate]
  exact SdEngine.lowered hsclk hquiet

theorem fsm_receiveByteWait_last (hstate : k.state = .receiveByteWait) (hmiso : i.miso = false) :
    fsm i (risen k) =
      { k with
        recvData := 0
        bitCounter := if k.responseType = 0b111 then 38 else 6
        state := .receiveByte } := by
  simp only [fsm, risen, hstate, SdController.receiveByteWait, hmiso, toggle]
  exact congrArg (fun k' : SdController.Regs ↦
    { k' with
      recvData := 0
      bitCounter := if k.responseType = 0b111 then 38 else 6
      state := .receiveByte })
    (SdEngine.lowered hsclk hquiet)

theorem fsm_receiveByte (hstate : k.state = .receiveByte) (hcounter : k.bitCounter ≠ 0) :
    fsm i (risen k) =
      { k with bitCounter := k.bitCounter - 1, recvData := k.recvData.shiftConcat i.miso } := by
  simp only [fsm, risen, hstate, SdController.receiveByte, if_true, if_neg hcounter, toggle,
    append_ofBool]
  rw [← hstate]
  exact congrArg (fun k' : SdController.Regs ↦
    { k' with bitCounter := k.bitCounter - 1, recvData := k.recvData.shiftConcat i.miso })
    (SdEngine.lowered hsclk hquiet)

theorem fsm_receiveByte_last (hstate : k.state = .receiveByte) (hcounter : k.bitCounter = 0) :
    fsm i (risen k) =
      { k with state := k.returnState, recvData := k.recvData.shiftConcat i.miso } := by
  simp only [fsm, risen, hstate, SdController.receiveByte, if_true, if_pos hcounter, toggle,
    append_ofBool]
  exact congrArg (fun k' : SdController.Regs ↦
    { k' with state := k.returnState, recvData := k.recvData.shiftConcat i.miso })
    (SdEngine.lowered hsclk hquiet)

end Controller

/-- A command is sent. -/
theorem via_sendCmd (h : Selected i k f.card) (hstate : k.state = .sendCmd)
    (hquiet : k.byteAvailable = false) (hmode : k.cmdMode = true) (hcounter : k.bitCounter = 55)
    (hlistens : ∀ j < 56, Listens sectors
      (receive T (k.cmdOut.getMsbD j) (cycles T (firstBits k.cmdOut j) f))) :
    Clocked.Via (step T i) (Working sectors) ⟨k, f⟩
      ⟨{ k with state := .receiveByteWait, bitCounter := 0, cmdOut := shiftOnes k.cmdOut 55 },
        cycles T (bits k.cmdOut) f⟩ := by
  -- after `j` bits
  let during (j : ℕ) : Engine :=
    ⟨{ k with bitCounter := BitVec.ofNat 10 (55 - j), cmdOut := shiftOnes k.cmdOut j },
      cycles T (firstBits k.cmdOut j) f⟩
  have hbits (j : ℕ) :
      firstBits k.cmdOut (j + 1) = firstBits k.cmdOut j ++ [k.cmdOut.getMsbD j] := by
    rw [firstBits, List.range_succ, List.map_append]
    rfl
  have hcycle (j : ℕ) (hj : j < 56) : Clocked.Via (step T i) (Working sectors) (during j)
      ⟨fsm { i with miso := (during j).card.card.miso } (risen (during j).controller),
        cycles T (firstBits k.cmdOut (j + 1)) f⟩ := by
    have hselected : Selected i (during j).controller (during j).card.card :=
      ⟨h.reset, h.pulse, h.cs, h.sclk, (cycles_sclk _).trans h.card⟩
    have hmosi : mosi (during j).controller = k.cmdOut.getMsbD j :=
      (SdEngine.mosi_cmd (k := (during j).controller) hmode).trans (getMsbD_shiftOnes k.cmdOut hj)
    have hreceived : Listens sectors
        (receive T (mosi (during j).controller) (during j).card) := by
      rw [hmosi]
      exact hlistens j hj
    have hvia := via_cycle hselected (.inl hstate) hquiet hreceived
    rw [hmosi] at hvia
    rw [hbits, cycles_append]
    exact hvia
  have hworking (j : ℕ) (hj : j < 56) : Working sectors (during (j + 1)) := by
    refine ⟨by rw [hstate]; decide, ?_⟩
    dsimp only [during]
    rw [hbits, cycles_append]
    exact ⟨(hlistens j hj).receiver, (hlistens j hj).sectors⟩
  have hnext (j : ℕ) (hj : j < 55) :
      Clocked.Via (step T i) (Working sectors) (during j) (during (j + 1)) := by
    have hvia := hcycle j (Nat.lt_succ_of_lt hj)
    have hless : 55 - j = 55 - (j + 1) + 1 := by omega
    have hne : (during j).controller.bitCounter ≠ 0 := by
      intro hzero
      have hnat : (55 - j) % 1024 = 0 := congrArg BitVec.toNat hzero
      omega
    rw [fsm_sendCmd (k := (during j).controller) h.sclk hquiet hstate hne] at hvia
    have hcount : BitVec.ofNat 10 (55 - j) - 1 = BitVec.ofNat 10 (55 - (j + 1)) := by
      rw [hless, BitVec.ofNat_add]
      exact BitVec.add_sub_cancel _ _
    simp only [during, hcount, ← shiftOnes_succ] at hvia
    exact hvia
  have hfirst := Clocked.Via.sequence during (n := 54) (fun j hj ↦ hnext j (by omega))
    fun j hj ↦ hworking j (by omega)
  have hlast := hcycle 55 (by decide)
  rw [fsm_sendCmd_last (k := (during 55).controller) h.sclk hquiet hstate rfl] at hlast
  have hstart : ({ k with bitCounter := BitVec.ofNat 10 55 } : SdController.Regs) = k := by
    rw [show BitVec.ofNat 10 55 = k.bitCounter from hcounter.symm]
  have hzero : during 0 = ⟨k, f⟩ := congrArg (fun k' ↦ (⟨k', f⟩ : Engine)) hstart
  rw [← hzero]
  exact hfirst.trans (hworking 54 (by decide)) hlast

section Answer

variable (stage : Stage) (tries : ℕ) {c : Card} {frame : BitVec 48}

/-- The first 0 of an answer. -/
theorem via_receiveByteWait (h : Selected i k c) (hstate : k.state = .receiveByteWait)
    (hquiet : k.byteAvailable = false) (hmosi : mosi k = true)
    (hreceiver : c.receiver = .command 0 frame) (hsectors : c.sectors = sectors) (n : ℕ)
    (rest : List Bool) :
    Clocked.Via (step T i) (Working sectors)
      ⟨k, ⟨stage, tries, showing (ones n ++ false :: rest) c⟩⟩
      ⟨{ k with
          recvData := 0
          bitCounter := if k.responseType = 0b111 then 38 else 6
          state := .receiveByte },
        ⟨stage, tries, showing rest c⟩⟩ := by
  have hlistens (l : List Bool) : Listens sectors ⟨stage, tries, showing l c⟩ :=
    ⟨⟨0, frame, hreceiver⟩, hsectors⟩
  have hcycle (l : List Bool) :
      Clocked.Via (step T i) (Working sectors) ⟨k, ⟨stage, tries, showing l c⟩⟩
        ⟨fsm { i with miso := l.headD true } (risen k), ⟨stage, tries, showing l.tail c⟩⟩ := by
    have hvia := via_cycle (T := T) (f := ⟨stage, tries, showing l c⟩)
      ⟨h.reset, h.pulse, h.cs, h.sclk, h.card⟩ (.inr (.inl hstate)) hquiet (by
        rw [hmosi]
        exact (hlistens l).receive_true hreceiver)
    rw [hmosi, cycle_true hreceiver] at hvia
    exact hvia
  induction n with
  | zero =>
      have hlast := hcycle (false :: rest)
      rw [fsm_receiveByteWait_last h.sclk hquiet hstate rfl] at hlast
      exact hlast
  | succ n ih =>
      have hfirst := hcycle (ones (n + 1) ++ false :: rest)
      rw [fsm_receiveByteWait h.sclk hquiet hstate rfl] at hfirst
      exact hfirst.trans ⟨by rw [hstate]; decide, hlistens _⟩ ih

/-- The other bits of an answer. -/
theorem via_receiveByte (h : Selected i k c) (hstate : k.state = .receiveByte)
    (hquiet : k.byteAvailable = false) (hmosi : mosi k = true)
    (hreceiver : c.receiver = .command 0 frame) (hsectors : c.sectors = sectors) {m : ℕ}
    (hcounter : k.bitCounter.toNat = m) (l : List Bool) :
    Clocked.Via (step T i) (Working sectors) ⟨k, ⟨stage, tries, showing l c⟩⟩
      ⟨{ k with
          state := k.returnState
          bitCounter := 0
          recvData := shiftIn k.recvData (nextBits l (m + 1)) },
        ⟨stage, tries, showing (l.drop (m + 1)) c⟩⟩ := by
  have hlistens (l : List Bool) : Listens sectors ⟨stage, tries, showing l c⟩ :=
    ⟨⟨0, frame, hreceiver⟩, hsectors⟩
  induction m generalizing k l with
  | zero =>
      have hzero : k.bitCounter = 0 := BitVec.eq_of_toNat_eq hcounter
      have hvia := via_cycle (T := T) (f := ⟨stage, tries, showing l c⟩)
        ⟨h.reset, h.pulse, h.cs, h.sclk, h.card⟩ (.inr (.inr (.inl hstate))) hquiet (by
          rw [hmosi]
          exact (hlistens l).receive_true hreceiver)
      rw [hmosi, cycle_true hreceiver, fsm_receiveByte_last h.sclk hquiet hstate hzero] at hvia
      rw [Nat.zero_add, List.drop_one, ← hzero]
      exact hvia
  | succ m ih =>
      have hne := SdEngine.bitCounter_ne_zero hcounter
      have hvia := via_cycle (T := T) (f := ⟨stage, tries, showing l c⟩)
        ⟨h.reset, h.pulse, h.cs, h.sclk, h.card⟩ (.inr (.inr (.inl hstate))) hquiet (by
          rw [hmosi]
          exact (hlistens l).receive_true hreceiver)
      rw [hmosi, cycle_true hreceiver, fsm_receiveByte h.sclk hquiet hstate hne] at hvia
      have hdrop : l.drop (m + 1 + 1) = l.tail.drop (m + 1) := by
        rw [← List.drop_one, List.drop_drop, Nat.add_comm]
      rw [hdrop]
      refine hvia.trans ⟨by rw [hstate]; decide, hlistens _⟩ ?_
      exact ih (k := { k with
            bitCounter := k.bitCounter - 1
            recvData := k.recvData.shiftConcat (l.headD true) })
          ⟨h.reset, h.pulse, h.cs, h.sclk, h.card⟩ hstate hquiet hmosi (by bv_omega) l.tail

end Answer

end Cycles

end TangNano.SdPowerUp
