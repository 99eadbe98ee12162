import TangNano.Core.Control
import TangNano.Library.Clocked
import TangNano.Ramio.Decode
import TangNano.Ramio.System

/-!
# The handshake of the core with `ramio`

What the core has on its wires in each state.  From it follow, for every run
and every latency of the cache: a request stays while the cache is busy, a load
or store is accepted in one cycle, and devices are touched in no other.
-/

namespace TangNano.Soc

open Ramio

/-- The cache has the requested line or it is busy. -/
def CacheAnswers (i : Input) (x : State) : Prop :=
  ∃ hit : Bool, i.parts.cacheBusy = ((wires i x).cacheEnable && !hit) ∧
    i.parts.cacheDataOutReady =
      ((wires i x).cacheWriteEnable == 0 && ((wires i x).cacheEnable && hit))

/-- The request is enabled and completes in this cycle. -/
def accepted (i : Input) (x : State) : Bool :=
  x.core.ramioEnable &&
    if x.core.ramioReadType ≠ 0 then dataOutReady (request x.core) i.parts
    else !busy (request x.core) i.parts

/-- Reads that change a device. -/
def deviceRead (r : Request) : Prop :=
  r.readType ≠ 0 ∧ (r.address = addressUartIn ∨ r.address = addressSDCardNextByte)

/-- Writes that change a device. -/
def deviceWrite (r : Request) : Prop :=
  r.writeType ≠ 0 ∧ (r.address = addressUartOut ∨ r.address = addressLed ∨
    r.address = addressSDCardNextByte ∨ r.address = addressSDCardReadSector ∨
    r.address = addressSDCardWriteSector)

/-- Something happens in a device: the received byte is cleared, a byte is sent,
the LEDs are set or the SD card gets a command.  Only the last is gated by
`enable`. -/
def sideEffect (i : Input) (x : State) : Prop :=
  (x.core.ramioAddress = addressUartIn ∧ x.core.ramioReadType ≠ 0) ∨
    (x.core.ramioAddress = addressUartOut ∧ x.core.ramioWriteType ≠ 0) ∨
    (x.core.ramioAddress = addressLed ∧ x.core.ramioWriteType ≠ 0) ∨
    (wires i x).sdcardCommand ≠ 0

/-! ## The wires of the core -/

/-- Below the ports. -/
def BelowPorts (address : Word) : Prop := address.toNat < 0xffffffe0

theorem BelowPorts.not_port {address : Word} (h : BelowPorts address) :
    isPort address = false := by
  have hne (port : Word) (hport : 0xffffffe0 ≤ port.toNat) : (address == port) = false := by
    rw [beq_eq_false_iff_ne]
    rintro rfl
    exact absurd h (Nat.not_lt.mpr hport)
  unfold isPort
  rw [hne _ (by decide), hne _ (by decide), hne _ (by decide), hne _ (by decide),
    hne _ (by decide), hne _ (by decide), hne _ (by decide), hne _ (by decide)]
  rfl

/-- What is on the wires while no instruction is being fetched or executed. -/
structure Booting (s : Core.Regs) : Prop where
  enable : s.ramioEnable = false
  readType : s.ramioReadType = 0
  address : isPort s.ramioAddress = false
  next : BelowPorts s.ramioAddressNext

/-- The wires of the core in each of its states. -/
inductive Shape (s : Core.Regs) : Prop
  | boot (h : Booting s)
      (hstate : s.state = .bootInit ∨ s.state = .bootLoadCommandToSend ∨
        s.state = .bootLoadAddressToSend ∨ s.state = .bootReadData ∨ s.state = .bootStartWrite)
  | send (h : Booting s) (hstate : s.state = .bootSend)
      (hreturn : s.returnState = .bootLoadAddressToSend ∨ s.returnState = .bootReadData)
  | write (hstate : s.state = .bootWrite) (enable : s.ramioEnable = true)
      (readType : s.ramioReadType = 0) (address : isPort s.ramioAddress = false)
  | fetch (hstate : s.state = .cpuFetch) (enable : s.ramioEnable = true)
      (readType : s.ramioReadType = 7) (writeType : s.ramioWriteType = 0)
  | execute (hstate : s.state = .cpuExecute) (enable : s.ramioEnable = false)
      (writeType : s.ramioWriteType = 0) (address : isPort s.ramioAddress = false)
  | store (hstate : s.state = .cpuStore) (enable : s.ramioEnable = true)
      (readType : s.ramioReadType = 0)
  | load (hstate : s.state = .cpuLoad) (enable : s.ramioEnable = true)
      (readType : s.ramioReadType ≠ 0) (writeType : s.ramioWriteType = 0)

section Shapes

variable {p : Core.Params} {i : Core.Input} {s : Core.Regs}

theorem shape_reset (hrst : i.rstN = false) : Shape (Core.step p i s) := by
  have hstep : Core.step p i s = { Core.reset s with
      data := Registers.step (Core.rd s.ir) s.rdWriteEnable s.rdDataIn s.data } := by
    simp [Core.step, hrst]
  have hzero : BelowPorts 0 := by
    unfold BelowPorts
    decide
  rw [hstep]
  exact .boot ⟨rfl, rfl, rfl, hzero⟩ (.inl rfl)

theorem Booting.of_same {t : Core.Regs} (h : Booting s) (henable : t.ramioEnable = s.ramioEnable)
    (hread : t.ramioReadType = s.ramioReadType) (haddress : t.ramioAddress = s.ramioAddress)
    (hnext : t.ramioAddressNext = s.ramioAddressNext) : Booting t where
  enable := henable.trans h.enable
  readType := hread.trans h.readType
  address := by rw [haddress]; exact h.address
  next := by rw [hnext]; exact h.next

/-- One cycle of a core whose fetches and boot writes stay off the ports. -/
theorem Shape.fsm (h : Shape s) (hbytes : p.flashTransferByteCount.toNat ≤ 0xffffffe0)
    (hfetch : s.state = .cpuFetch → isPort s.ramioAddress = false) : Shape (Core.fsm p i s) := by
  cases h with
  | boot h hstate =>
      rcases hstate with hstate | hstate | hstate | hstate | hstate
      · simp only [Core.fsm, hstate, Core.bootInit]
        split
        · exact .boot (h.of_same rfl rfl rfl rfl) (.inr (.inl rfl))
        · exact .boot (h.of_same rfl rfl rfl rfl) (.inl rfl)
      · simp only [Core.fsm, hstate]
        exact .send (h.of_same rfl rfl rfl rfl) rfl (.inl rfl)
      · simp only [Core.fsm, hstate]
        exact .send (h.of_same rfl rfl rfl rfl) rfl (.inr rfl)
      · simp only [Core.fsm, hstate, Core.bootReadData]
        split
        · split
          · refine .boot (h.of_same rfl rfl rfl rfl) ?_
            dsimp only
            split
            · exact .inr (.inr (.inr (.inr rfl)))
            · exact .inr (.inr (.inr (.inl rfl)))
          · exact .boot (h.of_same rfl rfl rfl rfl) (.inr (.inr (.inr (.inl rfl))))
        · exact .boot (h.of_same rfl rfl rfl rfl) (.inr (.inr (.inr (.inl rfl))))
      · simp only [Core.fsm, hstate, Core.bootStartWrite]
        split
        · exact .boot h (.inr (.inr (.inr (.inr hstate))))
        · exact .write rfl rfl rfl h.next.not_port
  | send h hstate hreturn =>
      simp only [Core.fsm, hstate, Core.bootSend]
      split
      · exact .send (h.of_same rfl rfl rfl rfl) rfl hreturn
      · split
        · refine .boot (h.of_same rfl rfl rfl rfl) ?_
          rcases hreturn with hreturn | hreturn
          · exact .inr (.inr (.inl hreturn))
          · exact .inr (.inr (.inr (.inl hreturn)))
        · exact .send (h.of_same rfl rfl rfl rfl) rfl hreturn
  | write hstate enable readType address =>
      simp only [Core.fsm, hstate, Core.bootWrite]
      split
      · exact .write hstate enable readType address
      · split
        · next hmore =>
            refine .boot ⟨rfl, readType, address, ?_⟩ (.inr (.inr (.inr (.inl rfl))))
            exact lt_of_lt_of_le (BitVec.lt_def.mp hmore) hbytes
        · exact .fetch rfl rfl rfl rfl
  | fetch hstate enable readType writeType =>
      simp only [Core.fsm, hstate, Core.cpuFetch]
      split
      · exact .execute rfl rfl writeType (hfetch hstate)
      · exact .fetch rfl enable readType writeType
  | execute hstate enable writeType address =>
      simp only [Core.fsm, hstate]
      have hexecuted := Core.executed_cpuExecute s
      generalize Core.cpuExecute s = t at hexecuted
      cases hexecuted with
      | next nextPc value write led hled => exact .fetch rfl rfl rfl rfl
      | store hopcode writeType address data led hled => exact .store rfl rfl rfl
      | load hopcode readType address led hread hled => exact .load rfl rfl hread rfl
  | store hstate enable readType =>
      simp only [Core.fsm, hstate, Core.cpuStore]
      split
      · exact .store hstate enable readType
      · exact .fetch rfl enable rfl rfl
  | load hstate enable readType writeType =>
      simp only [Core.fsm, hstate, Core.cpuLoad]
      split
      · exact .fetch rfl enable rfl rfl
      · exact .load hstate enable readType writeType

theorem Shape.data (h : Shape s) (d : RegisterFile) : Shape { s with data := d } := by
  cases h with
  | boot h hstate => exact .boot (h.of_same rfl rfl rfl rfl) hstate
  | send h hstate hreturn => exact .send (h.of_same rfl rfl rfl rfl) hstate hreturn
  | write hstate enable readType address => exact .write hstate enable readType address
  | fetch hstate enable readType writeType => exact .fetch hstate enable readType writeType
  | execute hstate enable writeType address => exact .execute hstate enable writeType address
  | store hstate enable readType => exact .store hstate enable readType
  | load hstate enable readType writeType => exact .load hstate enable readType writeType

theorem Shape.step (h : Shape s) (hrst : i.rstN = true)
    (hbytes : p.flashTransferByteCount.toNat ≤ 0xffffffe0)
    (hfetch : s.state = .cpuFetch → isPort s.ramioAddress = false) :
    Shape (Core.step p i s) := by
  simp only [Core.step, hrst, if_true]
  exact (h.fsm hbytes hfetch).data _

/-- Without a request the core goes on booting. -/
theorem booting_next
    (hstate : s.state = .bootInit ∨ s.state = .bootLoadCommandToSend ∨
      s.state = .bootLoadAddressToSend ∨ s.state = .bootReadData ∨ s.state = .bootStartWrite ∨
      s.state = .bootSend ∧ (s.returnState = .bootLoadAddressToSend ∨
        s.returnState = .bootReadData)) :
    (Core.fsm p i s).state ≠ .cpuFetch ∧ (Core.fsm p i s).state ≠ .cpuExecute ∧
      (Core.fsm p i s).state ≠ .cpuLoad ∧ (Core.fsm p i s).state ≠ .cpuStore := by
  rcases hstate with hstate | hstate | hstate | hstate | hstate | ⟨hstate, hreturn⟩
  · simp only [Core.fsm, hstate, Core.bootInit]
    split <;> simp
  · simp [Core.fsm, hstate, Core.bootLoadCommandToSend]
  · simp [Core.fsm, hstate, Core.bootLoadAddressToSend]
  · simp only [Core.fsm, hstate, Core.bootReadData]
    split_ifs <;> simp
  · simp only [Core.fsm, hstate, Core.bootStartWrite]
    split <;> simp [hstate]
  · simp only [Core.fsm, hstate, Core.bootSend]
    rcases hreturn with hreturn | hreturn <;> split_ifs <;> simp [hreturn]

/-- A request that is not answered stays on the wires. -/
theorem Shape.held (h : Shape s) (hrst : i.rstN = true) (henable : s.ramioEnable = true)
    (hbusy : i.ramioBusy = true) (hready : i.ramioDataOutReady = false) :
    request (Core.step p i s) = request s ∧ (Core.step p i s).state = s.state := by
  simp only [Core.step, hrst, if_true]
  cases h with
  | boot h hstate => exact absurd (h.enable.symm.trans henable) Bool.false_ne_true
  | send h hstate hreturn => exact absurd (h.enable.symm.trans henable) Bool.false_ne_true
  | write hstate =>
      simp only [Core.fsm, hstate, Core.bootWrite, hbusy, if_true]
      exact ⟨rfl, trivial⟩
  | fetch hstate =>
      simp only [Core.fsm, hstate, Core.cpuFetch, hready]
      exact ⟨rfl, rfl⟩
  | execute hstate hdisabled =>
      exact absurd (hdisabled.symm.trans henable) Bool.false_ne_true
  | store hstate =>
      simp only [Core.fsm, hstate, Core.cpuStore, hbusy, if_true]
      exact ⟨rfl, trivial⟩
  | load hstate =>
      simp only [Core.fsm, hstate, Core.cpuLoad, hready]
      exact ⟨rfl, hstate⟩

end Shapes

/-! ## Side effects -/

section Effects

variable {i : Input} {x : State}

/-- Without a side effect the registers of the devices go on as with no request. -/
theorem step_of_not_sideEffect (h : ¬ sideEffect i x) :
    Ramio.step i.rstN (request x.core) i.parts x.ramio =
      Ramio.step i.rstN ⟨false, 0, 0, 0, 0⟩ i.parts x.ramio := by
  simp only [sideEffect, not_or, not_and, not_not] at h
  obtain ⟨hin, hout, hled, -⟩ := h
  have hin : ((request x.core).address == addressUartIn && (request x.core).readType != 0) =
      false := by
    simpa [request] using hin
  have hout : ((request x.core).address == addressUartOut && (request x.core).writeType != 0) =
      false := by
    simpa [request] using hout
  have hled : ((request x.core).address == addressLed && (request x.core).writeType != 0) =
      false := by
    simpa [request] using hled
  simp only [Ramio.step, hin, hout, hled]
  rfl

theorem deviceRead.isPort {r : Request} (h : deviceRead r) : isPort r.address = true := by
  rw [isPort_iff]
  rcases h.2 with h | h
  · exact .inr (.inl h)
  · exact .inr (.inr (.inr (.inr (.inr (.inr (.inl h))))))

theorem deviceWrite.isPort {r : Request} (h : deviceWrite r) : isPort r.address = true := by
  rw [isPort_iff]
  rcases h.2 with h | h | h | h | h
  · exact .inl h
  · exact .inr (.inr (.inl h))
  · exact .inr (.inr (.inr (.inr (.inr (.inr (.inl h))))))
  · exact .inr (.inr (.inr (.inr (.inl h))))
  · exact .inr (.inr (.inr (.inr (.inr (.inl h)))))

theorem not_sideEffect (h : isPort x.core.ramioAddress = false) : ¬ sideEffect i x := by
  have hport := (isPort_iff x.core.ramioAddress).not.mp (Bool.eq_false_iff.mp h)
  simp only [not_or] at hport
  obtain ⟨hout, hin, hled, -⟩ := hport
  rintro (⟨haddress, -⟩ | ⟨haddress, -⟩ | ⟨haddress, -⟩ | hcommand)
  · exact hin haddress
  · exact hout haddress
  · exact hled haddress
  · exact hcommand (sdcardCommand_ram (r := request x.core) h)

/-- A load touches a device exactly if it reads a port that reading changes. -/
theorem sideEffect_load (henable : x.core.ramioEnable = true) (hread : x.core.ramioReadType ≠ 0)
    (hwrite : x.core.ramioWriteType = 0) (hport : isPort x.core.ramioAddress = true) :
    sideEffect i x ↔ deviceRead (request x.core) := by
  have hcommand : (wires i x).sdcardCommand =
      if x.core.ramioAddress = addressSDCardNextByte then 2 else 0 := by
    rw [wires, wires_of_read (r := request x.core) henable hread hwrite]
    exact (readWires_port (r := request x.core) hport _).2
  constructor
  · rintro (⟨haddress, -⟩ | ⟨-, hne⟩ | ⟨-, hne⟩ | hne)
    · exact ⟨hread, .inl haddress⟩
    · exact absurd hwrite hne
    · exact absurd hwrite hne
    · rw [hcommand] at hne
      split at hne
      · next haddress => exact ⟨hread, .inr haddress⟩
      · exact absurd rfl hne
  · rintro ⟨-, haddress | haddress⟩
    · exact .inl ⟨haddress, hread⟩
    · refine .inr (.inr (.inr ?_))
      change x.core.ramioAddress = _ at haddress
      rw [hcommand, if_pos haddress]
      decide

/-- A store touches a device exactly if it writes a port that takes a write. -/
theorem sideEffect_store (henable : x.core.ramioEnable = true) (hread : x.core.ramioReadType = 0)
    (hport : isPort x.core.ramioAddress = true) :
    sideEffect i x ↔ deviceWrite (request x.core) := by
  by_cases hwrite : x.core.ramioWriteType = 0
  · have hcommand : (wires i x).sdcardCommand = 0 := by
      rw [wires, wires_of_neither (r := request x.core) hread hwrite]
      rfl
    constructor
    · rintro (⟨-, hne⟩ | ⟨-, hne⟩ | ⟨-, hne⟩ | hne)
      · exact absurd hread hne
      · exact absurd hwrite hne
      · exact absurd hwrite hne
      · exact absurd hcommand hne
    · rintro ⟨hne, -⟩
      exact absurd hwrite hne
  · have hcommand : (wires i x).sdcardCommand =
        if x.core.ramioAddress = addressSDCardNextByte then 3
        else if x.core.ramioAddress = addressSDCardReadSector then 1
        else if x.core.ramioAddress = addressSDCardWriteSector then 4
        else 0 := by
      rw [wires, wires_of_write (r := request x.core) henable hread hwrite]
      exact (writeWires_port (r := request x.core) hport _).2
    constructor
    · rintro (⟨-, hne⟩ | ⟨haddress, -⟩ | ⟨haddress, -⟩ | hne)
      · exact absurd hread hne
      · exact ⟨hwrite, .inl haddress⟩
      · exact ⟨hwrite, .inr (.inl haddress)⟩
      · rw [hcommand] at hne
        split_ifs at hne with hbyte hsector hsector'
        · exact ⟨hwrite, .inr (.inr (.inl hbyte))⟩
        · exact ⟨hwrite, .inr (.inr (.inr (.inl hsector)))⟩
        · exact ⟨hwrite, .inr (.inr (.inr (.inr hsector')))⟩
        · exact absurd rfl hne
    · rintro ⟨-, haddress | haddress | haddress | haddress | haddress⟩
      · exact .inr (.inl ⟨haddress, hwrite⟩)
      · exact .inr (.inr (.inl ⟨haddress, hwrite⟩))
      all_goals
        refine .inr (.inr (.inr ?_))
        change x.core.ramioAddress = _ at haddress
        rw [hcommand, haddress]
        decide

/-- A port answers in the cycle of the request. -/
theorem accepted_port (henable : x.core.ramioEnable = true)
    (hport : isPort x.core.ramioAddress = true) : accepted i x = true := by
  have hready := dataOutReady_of_port (r := request x.core) (q := i.parts) hport
  have hbusy := busy_of_port (r := request x.core) (q := i.parts) hport
  simp [accepted, henable, hready, hbusy]

/-- Devices are touched when a load or store is accepted and in no other cycle. -/
theorem Shape.sideEffect_iff (h : Shape x.core)
    (hfetch : x.core.state = .cpuFetch → isPort x.core.ramioAddress = false) :
    sideEffect i x ↔ accepted i x = true ∧
      ((x.core.state = .cpuLoad ∧ deviceRead (request x.core)) ∨
        (x.core.state = .cpuStore ∧ deviceWrite (request x.core))) := by
  cases hport : isPort x.core.ramioAddress with
  | false =>
      refine iff_of_false (not_sideEffect hport) ?_
      rintro ⟨-, ⟨-, hdevice⟩ | ⟨-, hdevice⟩⟩
      · exact Bool.false_ne_true (hport.symm.trans hdevice.isPort)
      · exact Bool.false_ne_true (hport.symm.trans hdevice.isPort)
  | true =>
      cases h with
      | boot h hstate => exact absurd (h.address.symm.trans hport) Bool.false_ne_true
      | send h hstate => exact absurd (h.address.symm.trans hport) Bool.false_ne_true
      | write hstate enable readType address =>
          exact absurd (address.symm.trans hport) Bool.false_ne_true
      | fetch hstate => exact absurd ((hfetch hstate).symm.trans hport) Bool.false_ne_true
      | execute hstate enable writeType address =>
          exact absurd (address.symm.trans hport) Bool.false_ne_true
      | store hstate enable readType =>
          rw [sideEffect_store enable readType hport]
          simp [accepted_port enable hport, hstate]
      | load hstate enable readType writeType =>
          rw [sideEffect_load enable readType writeType hport]
          simp [accepted_port enable hport, hstate]

end Effects

/-! ## Loads and stores -/

section Accesses

variable {p : Core.Params} {i : Input} {x : State}

/-- A load or store is on the wires. -/
def Accessing (x : State) : Prop := x.core.state = .cpuLoad ∨ x.core.state = .cpuStore

theorem Shape.of_load {s : Core.Regs} (h : Shape s) (hstate : s.state = .cpuLoad) :
    s.ramioEnable = true ∧ s.ramioReadType ≠ 0 ∧ s.ramioWriteType = 0 := by
  cases h with
  | load _ enable readType writeType => exact ⟨enable, readType, writeType⟩
  | boot _ hother => rw [hstate] at hother; simp at hother
  | send _ hother => rw [hstate] at hother; simp at hother
  | write hother => rw [hstate] at hother; simp at hother
  | fetch hother => rw [hstate] at hother; simp at hother
  | execute hother => rw [hstate] at hother; simp at hother
  | store hother => rw [hstate] at hother; simp at hother

theorem Shape.of_store {s : Core.Regs} (h : Shape s) (hstate : s.state = .cpuStore) :
    s.ramioEnable = true ∧ s.ramioReadType = 0 := by
  cases h with
  | store _ enable readType => exact ⟨enable, readType⟩
  | boot _ hother => rw [hstate] at hother; simp at hother
  | send _ hother => rw [hstate] at hother; simp at hother
  | write hother => rw [hstate] at hother; simp at hother
  | fetch hother => rw [hstate] at hother; simp at hother
  | execute hother => rw [hstate] at hother; simp at hother
  | load hother => rw [hstate] at hother; simp at hother

theorem Shape.of_fetch {s : Core.Regs} (h : Shape s) (hstate : s.state = .cpuFetch) :
    s.ramioEnable = true ∧ s.ramioReadType = 7 ∧ s.ramioWriteType = 0 := by
  cases h with
  | fetch _ enable readType writeType => exact ⟨enable, readType, writeType⟩
  | boot _ hother => rw [hstate] at hother; simp at hother
  | send _ hother => rw [hstate] at hother; simp at hother
  | write hother => rw [hstate] at hother; simp at hother
  | execute hother => rw [hstate] at hother; simp at hother
  | store hother => rw [hstate] at hother; simp at hother
  | load hother => rw [hstate] at hother; simp at hother

/-- What decides whether an access is accepted. -/
theorem Shape.accepted_eq (h : Shape x.core) :
    (x.core.state = .cpuLoad → accepted i x = (coreInput i x).ramioDataOutReady) ∧
      (x.core.state = .cpuStore → accepted i x = !(coreInput i x).ramioBusy) := by
  refine ⟨?_, ?_⟩
  · intro hstate
    obtain ⟨henable, hread, -⟩ := h.of_load hstate
    rw [accepted, henable, Bool.true_and, if_pos hread]
    rfl
  · intro hstate
    obtain ⟨henable, hread⟩ := h.of_store hstate
    rw [accepted, henable, Bool.true_and, if_neg (not_not.mpr hread)]
    rfl

/-- An access waits until it is accepted. -/
theorem Accessing.wait (haccess : Accessing x) (h : Shape x.core) (hrst : i.rstN = true)
    (hwait : accepted i x = false) :
    request (step p i x).core = request x.core ∧ (step p i x).core.state = x.core.state := by
  have hcore : (step p i x).core = Core.step p (coreInput i x) x.core := rfl
  have hrun : (coreInput i x).rstN = true := hrst
  rw [hcore]
  simp only [Core.step, hrun, if_true]
  rcases haccess with hstate | hstate
  · rw [h.accepted_eq.1 hstate] at hwait
    simp only [Core.fsm, hstate, Core.cpuLoad, hwait]
    exact ⟨rfl, hstate⟩
  · rw [h.accepted_eq.2 hstate, Bool.not_eq_false'] at hwait
    simp only [Core.fsm, hstate, Core.cpuStore, hwait]
    exact ⟨rfl, hstate⟩

theorem Accessing.finish (haccess : Accessing x) (h : Shape x.core) (hrst : i.rstN = true)
    (hdone : accepted i x = true) : (step p i x).core.state = .cpuFetch := by
  have hcore : (step p i x).core = Core.step p (coreInput i x) x.core := rfl
  have hrun : (coreInput i x).rstN = true := hrst
  rw [hcore]
  simp only [Core.step, hrun, if_true]
  rcases haccess with hstate | hstate
  · rw [h.accepted_eq.1 hstate] at hdone
    simp only [Core.fsm, hstate, Core.cpuLoad, hdone, if_true]
  · rw [h.accepted_eq.2 hstate, Bool.not_eq_true'] at hdone
    simp only [Core.fsm, hstate, Core.cpuStore, hdone]
    rfl

theorem CacheAnswers.ready (h : CacheAnswers i x) (henable : (wires i x).cacheEnable = true)
    (hwrite : (wires i x).cacheWriteEnable = 0) (hfree : i.parts.cacheBusy = false) :
    i.parts.cacheDataOutReady = true := by
  obtain ⟨hit, hbusy, hready⟩ := h
  generalize wires i x = w at henable hwrite hbusy hready
  rw [henable, Bool.true_and] at hbusy hready
  cases hit with
  | true =>
      rw [hready, hwrite]
      rfl
  | false => exact absurd (hfree.symm.trans hbusy) Bool.false_ne_true

/-- A free cache accepts every access. -/
theorem Accessing.accepted_of_free (haccess : Accessing x) (h : Shape x.core)
    (hcache : CacheAnswers i x) (hfree : i.parts.cacheBusy = false) : accepted i x = true := by
  cases hport : isPort x.core.ramioAddress with
  | true =>
      rcases haccess with hstate | hstate
      · exact accepted_port (h.of_load hstate).1 hport
      · exact accepted_port (h.of_store hstate).1 hport
  | false =>
      rcases haccess with hstate | hstate
      · obtain ⟨henable, hread, hwrite⟩ := h.of_load hstate
        have hcacheEnable := cacheEnable_of_read (r := request x.core) (q := i.parts) (s := x.ramio)
          henable hread hwrite hport
        have hready := hcache.ready hcacheEnable.1 hcacheEnable.2 hfree
        rw [h.accepted_eq.1 hstate]
        exact (dataOutReady_of_ram (r := request x.core) hport).trans hready
      · rw [h.accepted_eq.2 hstate]
        have hbusy := busy_of_ram (r := request x.core) (q := i.parts) hport
        exact congrArg not (hbusy.trans hfree)

/-- Only an executed instruction puts an access on the wires. -/
theorem Shape.origin (h : Shape x.core) (hrst : i.rstN = true)
    (hnext : Accessing (Soc.step p i x)) : x.core.state = .cpuExecute ∨ Accessing x := by
  have hcore : (Soc.step p i x).core = Core.step p (coreInput i x) x.core := rfl
  have hrun : (coreInput i x).rstN = true := hrst
  unfold Accessing at hnext
  rw [hcore] at hnext
  simp only [Core.step, hrun, if_true] at hnext
  cases h with
  | boot h hstate =>
      obtain ⟨-, -, hload, hstore⟩ :=
        booting_next (p := p) (i := coreInput i x) (s := x.core) (by tauto)
      exact absurd hnext (not_or.mpr ⟨hload, hstore⟩)
  | send h hstate hreturn =>
      obtain ⟨-, -, hload, hstore⟩ :=
        booting_next (p := p) (i := coreInput i x) (s := x.core) (by tauto)
      exact absurd hnext (not_or.mpr ⟨hload, hstore⟩)
  | write hstate =>
      exfalso
      simp only [Core.fsm, hstate, Core.bootWrite] at hnext
      split_ifs at hnext <;> simp [hstate] at hnext
  | fetch hstate =>
      exfalso
      simp only [Core.fsm, hstate, Core.cpuFetch] at hnext
      split at hnext <;> simp at hnext
  | execute hstate => exact .inl hstate
  | store hstate => exact .inr (.inr hstate)
  | load hstate => exact .inr (.inl hstate)

end Accesses

end TangNano.Soc
