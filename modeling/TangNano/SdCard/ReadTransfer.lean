import TangNano.SdCard.System

/-!
# Reading a sector

From the command at the port to the last bit of the CRC: the bytes of the
sector go into the buffer one after the other, from the index on and around.
-/

namespace TangNano.SdSystem

open Serial SpiCard SdCardPort SdEngine
open SdController (mosi)

/-- Nothing but an answer is on its way. -/
structure Listening (e : Engine) (sectors : Word → Sector) (l : List Bool) : Prop
    extends Line e l where
  mode : e.controller.cmdMode = true
  mosi : mosi e.controller = true
  readyForNextByte : e.controller.readyForNextByte = false
  receiver : ∃ f, e.card.receiver = .command 0 f
  sectors : e.card.sectors = sectors

/-- Byte `n` of a sector has been received. -/
structure ByteRead (e : Engine) (sectors : Word → Sector) (s : Word) (n : ℕ) : Prop where
  state : e.controller.state = .readBlockData
  counter : e.controller.byteCounter.toNat = 511 - n
  data : e.controller.recvData = sectors s (BitVec.ofNat 9 n)
  byteAvailable : e.controller.byteAvailable = false
  listening : ∃ crc : BitVec 16,
    Listening e sectors (sectorBits (sectors s) (n + 1) (511 - n) ++ bits crc)

section Bytes

variable {T : ℕ → Timing} {i : SdController.Input} {e : Engine} {sectors : Word → Sector}
  {s : Word}

theorem via_first (h : Commanded e 0x51 s .readBlockWait) (hreset : i.reset = false)
    (hpulse : i.clkPulseSlow = true) (hasks : e.controller.readyForNextByte = false)
    (hsectors : e.card.sectors = sectors) :
    ∃ e', Clocked.Via (SdEngine.step T i) (Quiet false) e e' ∧ ByteRead e' sectors s 0 := by
  obtain ⟨f, hreceiver⟩ := h.receiver
  have hcard : e.card = hearing (.command 0 f) (showing [] e.card) := by
    rw [← h.line.showing, hearing, ← hreceiver]
  have hcycles := cycles_read (T := T) (c := e.card) s f
  rw [← hcard] at hcycles
  have hvia := h.via (T := T) hreset hpulse
    (c := hearing (.command 0 0) { e.card with served := e.card.served + 1 })
    hcycles h.line.cardSclk (.inl ⟨0, rfl⟩)
  rw [ones_token] at hvia
  have hmosi : mosi { e.controller with
      sclkSig := false
      byteAvailable := false
      cmdOut := shiftOnes e.controller.cmdOut 55
      state := .readBlockWait
      bitCounter := 0
      recvData := 0 } = true := by
    rw [SdController.mosi, h.mode]
    exact h.last
  have hbyte : sectorBits (e.card.sectors s) 0 512 =
      bits (e.card.sectors s (BitVec.ofNat 9 0)) ++ sectorBits (e.card.sectors s) 1 511 := rfl
  rw [hbyte, List.append_assoc] at hvia
  have htoken := via_readBlockWait (T := T) (i := i) (k := { e.controller with
      sclkSig := false
      byteAvailable := false
      cmdOut := shiftOnes e.controller.cmdOut 55
      state := .readBlockWait
      bitCounter := 0
      recvData := 0 })
    (c := hearing (.command 0 0) { e.card with served := e.card.served + 1 })
    ⟨hreset, hpulse, h.line.cs, rfl, h.line.cardSclk⟩ rfl rfl hmosi (.inl ⟨0, rfl⟩)
    ((T e.card.served).token + 7)
    (bits (e.card.sectors s (BitVec.ofNat 9 0)) ++ (sectorBits (e.card.sectors s) 1 511 ++
      bits (T e.card.served).crc))
  have hreceive := via_receiveByte (T := T) (i := i) (k := { e.controller with
      sclkSig := false
      byteAvailable := false
      cmdOut := shiftOnes e.controller.cmdOut 55
      byteCounter := 511
      returnState := .readBlockData
      state := .receiveByte
      bitCounter := 7
      recvData := 0 })
    (c := hearing (.command 0 0) { e.card with served := e.card.served + 1 })
    ⟨hreset, hpulse, h.line.cs, rfl, h.line.cardSclk⟩ rfl hmosi (.inl ⟨0, rfl⟩) (m := 7) rfl
    (bits (e.card.sectors s (BitVec.ofNat 9 0)) ++ (sectorBits (e.card.sectors s) 1 511 ++
      bits (T e.card.served).crc))
  obtain ⟨hdata, hrest⟩ := shiftIn_nextBits (0 : Byte) (e.card.sectors s (BitVec.ofNat 9 0))
    (sectorBits (e.card.sectors s) 1 511 ++ bits (T e.card.served).crc)
  rw [hdata, hrest] at hreceive
  have hfirst := (hvia.trans ⟨rfl, rfl, show Between .readBlockWait by decide⟩ htoken).trans
    ⟨rfl, rfl, show Between .receiveByte by decide⟩ hreceive
  rw [← hasks]
  refine ⟨_, hfirst, ?_⟩
  subst hsectors
  exact ⟨rfl, rfl, rfl, rfl, (T e.card.served).crc, ⟨h.line.cs, rfl, h.line.cardSclk, rfl⟩,
    h.mode, hmosi, hasks, ⟨0, rfl⟩, rfl⟩

theorem ByteRead.hand {n : ℕ} (h : ByteRead e sectors s n) (hn : n ≤ 511) (hreset : i.reset = false)
    (hpulse : i.clkPulseSlow = true) :
    SdEngine.step T i e =
      ⟨{ e.controller with
          dout := sectors s (BitVec.ofNat 9 n)
          byteAvailable := true
          bitCounter := 7
          state := .receiveByte
          byteCounter := if n = 511 then e.controller.byteCounter else e.controller.byteCounter - 1
          returnState := if n = 511 then .readBlockCrc else .readBlockData },
        e.card⟩ := by
  obtain ⟨crc, hlistening⟩ := h.listening
  refine hlistening.toLine.step hreset hpulse ?_ hlistening.cs hlistening.sclk
  have hzero : e.controller.byteCounter = 0 ↔ n = 511 := by
    have hcounter := h.counter
    constructor
    · intro hzero
      rw [hzero] at hcounter
      change 0 = 511 - n at hcounter
      omega
    · rintro rfl
      exact BitVec.eq_of_toNat_eq hcounter
  by_cases hlast : n = 511
  · simp only [SdController.fsm, h.state, SdController.readBlockData, if_pos (hzero.mpr hlast),
      h.data, if_pos hlast]
  · simp only [SdController.fsm, h.state, SdController.readBlockData,
      if_neg (hzero.not.mpr hlast), h.data, if_neg hlast]

/-- Eight bits of an answer are received. -/
theorem Listening.receive {k : SdController.Regs} {c : Card} {l : List Bool}
    (h : Listening ⟨k, c⟩ sectors l) (hstate : k.state = .receiveByte) (hbits : k.bitCounter = 7)
    (hreset : i.reset = false) (hpulse : i.clkPulseSlow = true) :
    ∃ e', Clocked.Via (SdEngine.step T i) (Quiet false) ⟨k, c⟩ e' ∧
      Listening e' sectors (l.drop 8) ∧ e'.controller =
        { k with
          sclkSig := false
          byteAvailable := false
          state := k.returnState
          bitCounter := 0
          recvData := shiftIn k.recvData (nextBits l 8) } := by
  obtain ⟨f, hreceiver⟩ := h.receiver
  have hasks : k.readyForNextByte = false := h.readyForNextByte
  have hshowing : showing l c = c := h.showing.symm
  have hreceive := via_receiveByte (T := T) (i := i) (k := k) (c := c)
    ⟨hreset, hpulse, h.cs, h.sclk, h.cardSclk⟩ hstate h.mosi (.inl ⟨f, hreceiver⟩) (m := 7)
    (by rw [hbits]; rfl) l
  have hquiet : Quiet k.readyForNextByte = Quiet false := by rw [hasks]
  rw [hshowing, hquiet] at hreceive
  exact ⟨_, hreceive, ⟨⟨h.cs, rfl, h.cardSclk, rfl⟩, h.mode, h.mosi, hasks, ⟨f, hreceiver⟩,
    h.sectors⟩, rfl⟩

theorem via_next {k : SdController.Regs} {c : Card} {n : ℕ} (hn : n < 511) {crc : BitVec 16}
    (h : Listening ⟨k, c⟩ sectors (sectorBits (sectors s) (n + 1) (511 - n) ++ bits crc))
    (hstate : k.state = .receiveByte) (hbits : k.bitCounter = 7)
    (hreturn : k.returnState = .readBlockData) (hcounter : k.byteCounter.toNat = 511 - (n + 1))
    (hreset : i.reset = false) (hpulse : i.clkPulseSlow = true) :
    ∃ e', Clocked.Via (SdEngine.step T i) (Quiet false) ⟨k, c⟩ e' ∧
      ByteRead e' sectors s (n + 1) := by
  have hsplit : 511 - n = 511 - (n + 1) + 1 := by omega
  have hbyte : sectorBits (sectors s) (n + 1) (511 - n) ++ bits crc =
      bits (sectors s (BitVec.ofNat 9 (n + 1))) ++
        (sectorBits (sectors s) (n + 1 + 1) (511 - (n + 1)) ++ bits crc) := by
    rw [hsplit, sectorBits, List.append_assoc]
  rw [hbyte] at h
  obtain ⟨hdata, hrest⟩ := shiftIn_nextBits k.recvData (sectors s (BitVec.ofNat 9 (n + 1)))
    (sectorBits (sectors s) (n + 1 + 1) (511 - (n + 1)) ++ bits crc)
  obtain ⟨e', hreceive, hlistening, hcontroller⟩ := h.receive (T := T) hstate hbits hreset hpulse
  rw [hdata] at hcontroller
  rw [hrest] at hlistening
  refine ⟨e', hreceive, ?_, ?_, ?_, ?_, crc, hlistening⟩
  · rw [hcontroller]
    exact hreturn
  · rw [hcontroller]
    exact hcounter
  · rw [hcontroller]
  · rw [hcontroller]

theorem via_crc {k : SdController.Regs} {c : Card} {crc : BitVec 16}
    (h : Listening ⟨k, c⟩ sectors (bits crc)) (hstate : k.state = .receiveByte)
    (hbits : k.bitCounter = 7) (hreturn : k.returnState = .readBlockCrc)
    (hreset : i.reset = false) (hpulse : i.clkPulseSlow = true) :
    ∃ e', Clocked.Via (SdEngine.step T i) (Quiet false) ⟨k, c⟩ e' ∧
      Listening e' sectors [] ∧ e'.controller.state = .idle ∧
        e'.controller.byteAvailable = false := by
  obtain ⟨⟨k', c'⟩, hfirst, hlistening, hcontroller⟩ :=
    h.receive (T := T) hstate hbits hreset hpulse
  dsimp only at hcontroller
  have hstate' : k'.state = .readBlockCrc := by
    rw [hcontroller]
    exact hreturn
  have hquiet : k'.byteAvailable = false := by rw [hcontroller]
  -- the state machine sets up the second byte of the CRC
  have hstill := hlistening.toLine.step (T := T) hreset hpulse (k := { k' with
      state := .receiveByte
      returnState := .idle
      bitCounter := 7 }) (by
    simp only [SdController.fsm, hstate', SdController.readBlockCrc]) hlistening.cs hlistening.sclk
  have hone := Clocked.Via.one (f := SdEngine.step T i) (G := Quiet false) ⟨k', c'⟩
  rw [hstill] at hone
  have hagain : Listening ⟨{ k' with
      state := .receiveByte
      returnState := .idle
      bitCounter := 7 }, c'⟩ sectors ((bits crc).drop 8) :=
    ⟨⟨hlistening.cs, hlistening.sclk, hlistening.cardSclk, hlistening.showing⟩, hlistening.mode,
      hlistening.mosi, hlistening.readyForNextByte, hlistening.receiver, hlistening.sectors⟩
  obtain ⟨e', hsecond, hend, hcontroller'⟩ := hagain.receive (T := T) rfl rfl hreset hpulse
  have hnone : ((bits crc).drop 8).drop 8 = [] := by
    rw [List.drop_drop]
    exact List.drop_of_length_le (by rw [length_bits])
  rw [hnone] at hend
  have hbetween : Quiet false ⟨k', c'⟩ :=
    ⟨hquiet, hlistening.readyForNextByte, show Between k'.state by rw [hstate']; decide⟩
  have hboth := (hfirst.trans hbetween hone).trans
    ⟨hquiet, hlistening.readyForNextByte, show Between .receiveByte by decide⟩ hsecond
  refine ⟨e', hboth, hend, ?_, ?_⟩
  · rw [hcontroller']
  · rw [hcontroller']

end Bytes

/-! ## The buffer -/

/-- The buffer after `n` bytes were stored from an index on. -/
def fill (buffer : Sector) (index : BitVec 9) (data : Sector) : ℕ → Sector
  | 0 => buffer
  | n + 1 =>
      Function.update (fill buffer index data n) (index + BitVec.ofNat 9 n)
        (data (BitVec.ofNat 9 n))

theorem fill_apply (buffer : Sector) (index : BitVec 9) (data : Sector) {n : ℕ} (hn : n ≤ 512)
    (j : BitVec 9) : fill buffer index data n j =
      if (j - index).toNat < n then data (j - index) else buffer j := by
  induction n with
  | zero => rfl
  | succ n ih =>
      rw [fill]
      by_cases hj : j = index + BitVec.ofNat 9 n
      · have hoffset : j - index = BitVec.ofNat 9 n := by bv_omega
        rw [hj, Function.update_self, ← hj, hoffset, if_pos (by bv_omega)]
      · rw [Function.update_of_ne hj, ih (by omega)]
        have hne : (j - index).toNat ≠ n := by
          intro heq
          apply hj
          bv_omega
        by_cases hlt : (j - index).toNat < n
        · rw [if_pos hlt, if_pos (by omega)]
        · rw [if_neg hlt, if_neg (by omega)]

/-- 512 bytes go once around. -/
theorem fill_sector (buffer : Sector) (index : BitVec 9) (data : Sector) :
    fill buffer index data 512 = fun j ↦ data (j - index) := by
  funext j
  rw [fill_apply buffer index data le_rfl, if_pos (j - index).isLt]

/-- The sector is in the buffer from the index on. -/
def Contents.read (s : Word) (d : Contents) : Contents :=
  { d with buffer := fun j ↦ d.sectors s (j - d.index) }

/-- The first `n` bytes of the sector are in the buffer. -/
structure Reading (p : Params) (t : SdCardPort.Regs) (d : Contents) (s : Word) (n : ℕ) : Prop where
  state : t.state = .readSector
  rd : t.rd = false
  wr : t.wr = false
  counter : t.counter = 1 % period p
  buffer : t.buffer = fill d.buffer d.index (d.sectors s) n
  index : t.bufferIndex = d.index + BitVec.ofNat 9 n

section Port

variable {p : Params} {T : ℕ → Timing} {d : Contents} {s : Word} {t : SdCardPort.Regs} {n : ℕ}
  {e e' : Engine}

theorem Reading.step (h : Reading p t d s n) (k : SdController.Regs) (hstate : k.state ≠ .idle) :
    fsm p noCommand k t = if k.byteAvailable then SdCardPort.store k.dout t else t := by
  have hready : SdController.ready k = false := by
    rw [SdController.ready, beq_eq_false_iff_ne]
    exact hstate
  rw [fsm, h.state]
  simp only [readSector, hready, Bool.false_eq_true, if_false]

theorem Reading.store (h : Reading p t d s n) :
    Reading p (SdCardPort.store (d.sectors s (BitVec.ofNat 9 n)) t) d s (n + 1) where
  state := h.state
  rd := h.rd
  wr := h.wr
  counter := h.counter
  buffer := by
    rw [SdCardPort.store, h.buffer, h.index]
    rfl
  index := by
    rw [SdCardPort.store, h.index, BitVec.ofNat_add]
    bv_omega

theorem Reading.counter_lt (h : Reading p t d s n) : t.counter < period p := by
  rw [h.counter]
  exact Nat.mod_lt 1 period_pos

theorem Reading.busy (h : Reading p t d s n) : SdCardPort.busy t = true := by
  rw [SdCardPort.busy, h.state]
  rfl

/-- Between two bytes the port does nothing. -/
theorem Reading.still (h : Reading p t d s n) {k : SdController.Regs}
    (hbyte : k.byteAvailable = false) (hstate : k.state ≠ .idle) :
    fsm p noCommand k t = t ∧ portEvents k t = [] := by
  constructor
  · rw [h.step k hstate, hbyte]
    rfl
  · rw [portEvents, h.state, hbyte]
    rfl

theorem Reading.once (h : Reading p t d s n) (hsettled : Settled e)
    (hbyte : e.controller.byteAvailable = false) (hstate : e.controller.state ≠ .idle) :
    Once p T ⟨t, e⟩ := by
  have hstill := h.still hbyte hstate
  exact .of_still hstill.1 hstill hsettled rfl (.inr hstill.2)

/-- The controller after byte `n` has been handed out. -/
def handed (n : ℕ) (data : Byte) (k : SdController.Regs) : SdController.Regs :=
  { k with
    dout := data
    byteAvailable := true
    bitCounter := 7
    state := .receiveByte
    byteCounter := if n = 511 then k.byteCounter else k.byteCounter - 1
    returnState := if n = 511 then .readBlockCrc else .readBlockData }

theorem read_announce (hn : n ≤ 511) (h : Reading p t d s n) (hbyte : ByteRead e d.sectors s n) :
    Clocked.Logged (SdSystem.idle p T) events Busy ⟨t, e⟩
      [.announce (d.sectors s (BitVec.ofNat 9 n))]
      ⟨t, handed n (d.sectors s (BitVec.ofNat 9 n)) e.controller, e.card⟩ := by
  obtain ⟨crc, hlistening⟩ := hbyte.listening
  have hstate : e.controller.state ≠ .idle := by
    rw [hbyte.state]
    decide
  obtain ⟨hkeep, hnone⟩ := h.still hbyte.byteAvailable hstate
  have hengine := hbyte.hand (T := T) (i := pulsed t) hn rfl rfl
  have hslow : slow p T ⟨t, e⟩ =
      ⟨t, handed n (d.sectors s (BitVec.ofNat 9 n)) e.controller, e.card⟩ := by
    rw [slow, hkeep, hengine]
    rfl
  have hevents : slowEvents ⟨t, e⟩ = [.announce (d.sectors s (BitVec.ofNat 9 n))] := by
    rw [slowEvents, hnone, controllerEvents, hbyte.state, hbyte.data]
    rfl
  have hone := logged_slow (x := ⟨t, e⟩) h.counter (by rw [hkeep]; exact h.busy)
    (.inr (h.once (T := T) hlistening.toLine.settled hbyte.byteAvailable hstate))
  rwa [hslow, hevents] at hone

end Port

/-- A byte is announced and stored. -/
def byteLog (d : Contents) (s : Word) (n : ℕ) : List Event :=
  [.announce (d.sectors s (BitVec.ofNat 9 n)),
    .store (d.index + BitVec.ofNat 9 n) (d.sectors s (BitVec.ofNat 9 n))]

section Transfer

variable {p : Params} {T : ℕ → Timing} {x : System} {d : Contents} {s : Word}

/-- The cycle in which a byte is handed out and the one in which it is stored. -/
theorem read_hand (hdivider : p.clockDivider = 0) {n : ℕ} (hn : n ≤ 511)
    (hreading : Reading p x.port d s n) (hbyte : ByteRead x.engine d.sectors s n) {e' : Engine}
    (hvia : Clocked.Via (SdEngine.step T (pulsed x.port)) (Quiet false)
      ⟨handed n (d.sectors s (BitVec.ofNat 9 n)) x.engine.controller, x.engine.card⟩ e') :
    Clocked.Logged (SdSystem.idle p T) events Busy x (byteLog d s n)
      ⟨SdCardPort.store (d.sectors s (BitVec.ofNat 9 n)) x.port, e'⟩ := by
  obtain ⟨crc, hlistening⟩ := hbyte.listening
  have hport := hreading.step (handed n (d.sectors s (BitVec.ofNat 9 n)) x.engine.controller)
    (by rintro ⟨⟩)
  have hevents : slowEvents
      ⟨x.port, handed n (d.sectors s (BitVec.ofNat 9 n)) x.engine.controller, x.engine.card⟩ =
      [.store (d.index + BitVec.ofNat 9 n) (d.sectors s (BitVec.ofNat 9 n))] := by
    rw [slowEvents, controllerEvents_between _ (show Between .receiveByte by decide), portEvents,
      hreading.state, hreading.index]
    rfl
  have hstored := via_engine (p := p)
    (e := ⟨handed n (d.sectors s (BitVec.ofNat 9 n)) x.engine.controller, x.engine.card⟩)
    hreading.counter hport rfl
    ⟨hlistening.cs, hlistening.cardSclk.trans hlistening.sclk.symm⟩ (by rintro ⟨⟩) (by rintro ⟨⟩)
    (fun k hnotyet _ hstate ↦ hreading.store.still hnotyet hstate) (.inl hdivider)
    hreading.store.busy hvia
  rw [hevents] at hstored
  exact (read_announce hn hreading hbyte).trans hreading.busy hstored

theorem ByteRead.listening_handed {e : Engine} {sectors : Word → Sector} {n : ℕ}
    (h : ByteRead e sectors s n) (data : Byte) :
    ∃ crc : BitVec 16, Listening ⟨handed n data e.controller, e.card⟩ sectors
      (sectorBits (sectors s) (n + 1) (511 - n) ++ bits crc) := by
  obtain ⟨crc, h⟩ := h.listening
  exact ⟨crc, ⟨h.cs, h.sclk, h.cardSclk, h.showing⟩, h.mode, h.mosi, h.readyForNextByte, h.receiver,
    h.sectors⟩

theorem read_next (hdivider : p.clockDivider = 0) {n : ℕ} (hn : n < 511)
    (hreading : Reading p x.port d s n) (hbyte : ByteRead x.engine d.sectors s n) :
    ∃ y, Clocked.Logged (SdSystem.idle p T) events Busy x (byteLog d s n) y ∧
      Reading p y.port d s (n + 1) ∧ ByteRead y.engine d.sectors s (n + 1) := by
  have hne : n ≠ 511 := hn.ne
  have hcounter : (x.engine.controller.byteCounter - 1).toNat = 511 - (n + 1) := by
    have hcounter := hbyte.counter
    bv_omega
  obtain ⟨crc, hlistening⟩ := hbyte.listening_handed (d.sectors s (BitVec.ofNat 9 n))
  obtain ⟨e', hvia, hnext⟩ := via_next (T := T) (i := pulsed x.port) hn hlistening rfl rfl
    (if_neg hne) ((congrArg BitVec.toNat (if_neg hne)).trans hcounter) rfl rfl
  exact ⟨_, read_hand hdivider hn.le hreading hbyte hvia, hreading.store, hnext⟩

theorem read_last (hdivider : p.clockDivider = 0) (hreading : Reading p x.port d s 511)
    (hbyte : ByteRead x.engine d.sectors s 511) :
    ∃ y, Clocked.Logged (SdSystem.idle p T) events Busy x (byteLog d s 511) y ∧
      Ready p y (d.read s) := by
  obtain ⟨crc, hlistening⟩ := hbyte.listening_handed (d.sectors s (BitVec.ofNat 9 511))
  obtain ⟨e', hvia, hidle, hstate, hbyte'⟩ := via_crc (T := T) (i := pulsed x.port) hlistening rfl
    rfl rfl rfl rfl
  have hstored := hreading.store
  have hlast := read_hand (p := p) hdivider le_rfl hreading hbyte hvia
  have hready : SdController.ready e'.controller = true := by
    rw [SdController.ready, hstate]
    rfl
  have hport : fsm p noCommand e'.controller
      (SdCardPort.store (d.sectors s (BitVec.ofNat 9 511)) x.port) =
      { SdCardPort.store (d.sectors s (BitVec.ofNat 9 511)) x.port with state := .idle } := by
    rw [fsm, hstored.state]
    simp [readSector, hready, hbyte']
  have hnone : portEvents e'.controller
      (SdCardPort.store (d.sectors s (BitVec.ofNat 9 511)) x.port) = [] := by
    rw [portEvents, hstored.state, hbyte']
    rfl
  have hone := logged_ready (T := T) hstored.counter_lt hidle.toLine hstate hstored.rd
    hstored.wr hport hnone
  have hboth := hlast.trans hstored.busy hone
  rw [List.append_nil] at hboth
  refine ⟨_, hboth, ⟨rfl, hstored.rd, hstored.wr, Nat.mod_lt _ period_pos, ?_, ?_, hstate,
    hidle.mode, hbyte', hidle.readyForNextByte, hidle.toLine, hidle.receiver, hidle.sectors⟩⟩
  · exact hstored.buffer.trans (fill_sector _ _ _)
  · refine hstored.index.trans ?_
    change d.index + BitVec.ofNat 9 512 = d.index
    simp

/-! ## The command -/

/-- The port in the cycle after the command. -/
def asking (s : Word) (t : SdCardPort.Regs) : SdCardPort.Regs :=
  { t with rd := true, address := s, state := .preReadSector }

/-- The port while it takes the bytes of the sector. -/
def taking (s : Word) (t : SdCardPort.Regs) : SdCardPort.Regs :=
  { t with rd := false, address := s, state := .readSector }

/-- The controller in another state. -/
def into (state : SdController.StateE) (k : SdController.Regs) : SdController.Regs :=
  { k with state := state }

/-- The controller with the command that reads. -/
def readCommanded (s : Word) (k : SdController.Regs) : SdController.Regs :=
  SdController.command (0xff#8 ++ frame 0x51 s) 0b001 .readBlockWait (into .readBlock k)

/-- The address of a sector on the card. -/
def sectorAddress (p : Params) (sector : Word) : Word := sector <<< p.sectorToSDCardAddressShiftLeft

/-- What a command that reads leads to. -/
theorem Ready.step_read (h : Ready p x d) {sector : Word} (hs : sectorAddress p sector = s)
    (v : Byte) :
    step p T ⟨true, 1, sector, v⟩ x =
      ⟨phase ((x.port.counter + 1) % period p) (asking s x.port), x.engine⟩ := by
  have hport : (step p T ⟨true, 1, sector, v⟩ x).port =
      phase ((x.port.counter + 1) % period p) (asking s x.port) := by
    rw [h.step_port rfl, ← hs]
    rfl
  have hengine : (step p T ⟨true, 1, sector, v⟩ x).engine = x.engine := h.step_engine rfl
  rw [← hport, ← hengine]

theorem reading_taking (h : Ready p x d) :
    Reading p (phase (1 % period p) (taking s x.port)) d s 0 :=
  ⟨rfl, rfl, h.wr, rfl, h.buffer, h.index.trans (by simp)⟩

/-- The controller sees `rd`. -/
theorem read_asking (h : Ready p x d) :
    Clocked.Logged (SdSystem.idle p T) events Busy ⟨phase 0 (asking s x.port), x.engine⟩ []
      ⟨phase (1 % period p) (taking s x.port), into .readBlock x.engine.controller,
        x.engine.card⟩ := by
  have hengine : SdEngine.step T (pulsed (asking s x.port)) x.engine =
      ⟨into .readBlock x.engine.controller, x.engine.card⟩ := by
    refine h.line.step rfl rfl ?_ h.line.cs h.line.sclk
    simp only [SdController.fsm, h.controller, SdController.idle]
    rfl
  have hnone : events ⟨phase 0 (asking s x.port), x.engine⟩ = [] := by
    rw [events, controllerEvents, h.controller, ite_self]
    rfl
  have hone := logged_one (p := p) (T := T)
    ⟨phase 0 (asking s x.port), x.engine⟩
  rw [idle_pulse, hengine, hnone] at hone
  exact hone

/-- The controller puts the command together. -/
theorem read_taking (h : Ready p x d) :
    Clocked.Logged (SdSystem.idle p T) events Busy
      ⟨phase (1 % period p) (taking s x.port), into .readBlock x.engine.controller, x.engine.card⟩
      [.startRead s]
      ⟨phase (1 % period p) (taking s x.port), readCommanded s x.engine.controller,
        x.engine.card⟩ := by
  have hreading := reading_taking (s := s) h
  have hline : Line ⟨into .readBlock x.engine.controller, x.engine.card⟩ [] :=
    ⟨h.line.cs, h.line.sclk, h.line.cardSclk, h.line.showing⟩
  have hengine : SdEngine.step T (pulsed (phase (1 % period p) (taking s x.port)))
      ⟨into .readBlock x.engine.controller, x.engine.card⟩ =
      ⟨readCommanded s x.engine.controller, x.engine.card⟩ := by
    refine hline.step rfl rfl ?_ h.line.cs h.line.sclk
    rw [readCommanded, ← cmdOut_eq 0x51 s 0xff51#16 rfl]
    rfl
  obtain ⟨hkeep, hnone⟩ := hreading.still (k := into .readBlock x.engine.controller)
    h.byteAvailable (by rintro ⟨⟩)
  have hone := logged_slow (T := T)
    (x := ⟨phase (1 % period p) (taking s x.port), into .readBlock x.engine.controller,
      x.engine.card⟩) rfl (by rw [hkeep]; exact hreading.busy)
    (.inr (hreading.once hline.settled h.byteAvailable (by rintro ⟨⟩)))
  rw [slow, slowEvents, hkeep, hnone, hengine] at hone
  exact hone

/-- From the command to the first byte. -/
theorem read_first (h : Ready p x d) (hphase : (x.port.counter + 1) % period p = 0) (sector : Word)
    (hs : sectorAddress p sector = s) (v : Byte) :
    Busy (step p T ⟨true, 1, sector, v⟩ x) ∧
      ∃ y, Clocked.Logged (SdSystem.idle p T) events Busy (step p T ⟨true, 1, sector, v⟩ x)
          [.startRead s] y ∧
        Reading p y.port d s 0 ∧ ByteRead y.engine d.sectors s 0 := by
  have hreading := reading_taking (s := s) h
  have hcommanded : Commanded ⟨readCommanded s x.engine.controller, x.engine.card⟩ 0x51 s
      .readBlockWait :=
    ⟨⟨h.line.cs, h.line.sclk, h.line.cardSclk, h.line.showing⟩, rfl, rfl, rfl, rfl, rfl, h.mode,
      h.byteAvailable, h.receiver⟩
  obtain ⟨e', hvia, hbyte⟩ := via_first (T := T)
    (i := pulsed (phase (1 % period p) (taking s x.port))) hcommanded rfl rfl h.readyForNextByte
    h.sectors
  have hkeep := (hreading.still (k := readCommanded s x.engine.controller)
    h.byteAvailable (by rintro ⟨⟩)).1
  have hrest := via_engine (p := p) hreading.counter hkeep rfl hcommanded.line.settled
    (by rintro ⟨⟩) (by rintro ⟨⟩)
    (fun k hnotyet _ hstate ↦ hreading.still hnotyet hstate)
    (.inr (hreading.once hcommanded.line.settled h.byteAvailable (by rintro ⟨⟩))) hreading.busy hvia
  have hnone : slowEvents ⟨phase (1 % period p) (taking s x.port),
      readCommanded s x.engine.controller, x.engine.card⟩ = [] := by
    rw [slowEvents, controllerEvents_between _ (show Between .sendCmd by decide),
      (hreading.still (k := readCommanded s x.engine.controller) h.byteAvailable (by rintro ⟨⟩)).2]
    rfl
  rw [hnone] at hrest
  rw [h.step_read hs, hphase]
  exact ⟨rfl, _, ((read_asking h).trans hreading.busy (read_taking h)).trans hreading.busy hrest,
    hreading, hbyte⟩

/-- The events of a read: all bytes are announced and stored, each once. -/
def readLog (d : Contents) (s : Word) (n : ℕ) : List Event :=
  .startRead s :: (List.range n).flatMap (byteLog d s)

theorem readLog_add (d : Contents) (s : Word) (m n : ℕ) :
    readLog d s (m + n) = readLog d s m ++ (List.range n).flatMap fun k ↦ byteLog d s (m + k) := by
  rw [readLog, List.range_add, List.flatMap_append, List.flatMap_map]
  rfl

theorem readLog_succ (d : Contents) (s : Word) (n : ℕ) :
    readLog d s (n + 1) = readLog d s n ++ byteLog d s n := by
  rw [readLog_add, List.range_one, List.flatMap_singleton]
  rfl

/-- A sector is read: the system is busy until the sector is in the buffer from
the index on. -/
theorem Ready.read (h : Ready p x d) (hdivider : p.clockDivider = 0) (sector : Word)
    (hs : sectorAddress p sector = s) (v : Byte) :
    Busy (step p T ⟨true, 1, sector, v⟩ x) ∧
      ∃ y, Clocked.Logged (SdSystem.idle p T) events Busy (step p T ⟨true, 1, sector, v⟩ x)
          (readLog d s 512) y ∧
        Ready p y (d.read s) := by
  have hphase : (x.port.counter + 1) % period p = 0 := by
    rw [period, hdivider, pow_zero, Nat.mod_one]
  obtain ⟨hbusy, hfirst⟩ := read_first (T := T) (s := s) h hphase sector hs v
  have hbytes (n : ℕ) (hn : n ≤ 511) :
      ∃ y, Clocked.Logged (SdSystem.idle p T) events Busy (step p T ⟨true, 1, sector, v⟩ x)
          (readLog d s n) y ∧
        Reading p y.port d s n ∧ ByteRead y.engine d.sectors s n := by
    induction n with
    | zero => exact hfirst
    | succ n ih =>
        obtain ⟨y, hvia, hreading, hbyte⟩ := ih (by omega)
        obtain ⟨z, hnext, hreading', hbyte'⟩ := read_next (p := p) (T := T) hdivider
          (by omega) hreading hbyte
        rw [readLog_succ]
        exact ⟨z, hvia.trans hreading.busy hnext, hreading', hbyte'⟩
  obtain ⟨y, hvia, hreading, hbyte⟩ := hbytes 511 le_rfl
  obtain ⟨z, hlast, hready⟩ := read_last (p := p) (T := T) hdivider hreading hbyte
  refine ⟨hbusy, z, ?_, hready⟩
  rw [readLog_succ]
  exact hvia.trans hreading.busy hlast

end Transfer

end TangNano.SdSystem
