import TangNano.Core.Execution
import TangNano.Ramio.RamPath
import TangNano.Ramio.System

/-!
# The ports of the devices

A load or store at a port, executed by the core in front of `ramio` and by a
tick of the emulated CPU.  `ramio` returns the whole word a port holds; the
emulated CPU extends the value that the bus returns.
-/

namespace TangNano.Ports

open Bytes Rv32i Decode Emulator RamPath

/-- The ports that both sides let a program read. -/
inductive ReadPort
  | uartOut | uartIn | sdcardBusy | sdcardStatus | sdcardNextByte
deriving DecidableEq, Repr

/-- The ports that both sides let a program write. -/
inductive WritePort
  | uartOut | sdcardNextByte | sdcardReadSector | sdcardWriteSector
deriving DecidableEq, Repr

def ReadPort.address : ReadPort → Word
  | .uartOut => Ramio.addressUartOut
  | .uartIn => Ramio.addressUartIn
  | .sdcardBusy => Ramio.addressSDCardBusy
  | .sdcardStatus => Ramio.addressSDCardStatus
  | .sdcardNextByte => Ramio.addressSDCardNextByte

def WritePort.address : WritePort → Word
  | .uartOut => Ramio.addressUartOut
  | .sdcardNextByte => Ramio.addressSDCardNextByte
  | .sdcardReadSector => Ramio.addressSDCardReadSector
  | .sdcardWriteSector => Ramio.addressSDCardWriteSector

/-- What a port of `ramio` holds. -/
def ReadPort.held (port : ReadPort) (q : Ramio.Parts) (s : Ramio.Regs) : Word :=
  match port with
  | .uartOut => s.uarttxDataSending
  | .uartIn => s.uartrxDataReceived
  | .sdcardBusy => if q.sdcardBusy then 1 else 0
  | .sdcardStatus => q.sdcardStatus
  | .sdcardNextByte => q.sdcardDataOut.setWidth 32

/-- What a port of the emulator holds. -/
def ReadPort.emulated (port : ReadPort) (m : Machine) : Word :=
  match port with
  | .uartOut => 0xffffffff
  | .uartIn => toSerial (getchar m).1
  | .sdcardBusy => 0
  | .sdcardStatus => 6
  | .sdcardNextByte => m.sdcard.nextByte.1.setWidth 32

/-- What a store hands to a device. -/
inductive Handed
  | uartOut (byte : Byte)
  | nextByte (byte : Byte)
  | readSector (sector : Word)
  | writeSector (sector : Word)
deriving DecidableEq, Repr

/-- What `ramio` hands to a device in a cycle: a command to `sdcard`, or the
byte that `uarttx` is told to send. -/
def handed (r : Ramio.Request) (q : Ramio.Parts) (s : Ramio.Regs) : Option Handed :=
  let w := Ramio.wires r q s
  if w.sdcardCommand = 1 then some (.readSector w.sdcardSector)
  else if w.sdcardCommand = 3 then some (.nextByte w.sdcardDataIn)
  else if w.sdcardCommand = 4 then some (.writeSector w.sdcardSector)
  else if r.address = Ramio.addressUartOut ∧ r.writeType ≠ 0 then
    some (.uartOut ((Ramio.step true r q s).uarttxDataSending.extractLsb' 0 8))
  else none

/-- The machine after a device of the emulator has been handed something;
`none` when the device refuses it. -/
def Handed.give (h : Handed) (m : Machine) : Option Machine :=
  match h with
  | .uartOut byte => some { m with output := m.output ++ [byte] }
  | .nextByte byte => some { m with sdcard := m.sdcard.storeNextByte byte }
  | .readSector sector => (m.sdcard.readSector sector).map fun sdcard ↦ { m with sdcard := sdcard }
  | .writeSector sector =>
      (m.sdcard.writeSector sector).map fun sdcard ↦ { m with sdcard := sdcard }

/-! ## The wires at a port -/

section Wires

variable {q : Ramio.Parts} {s : Ramio.Regs}

theorem readPort_served (port : ReadPort) {r : BitVec 3} (hr : r ≠ 0) (data : Word) :
    (Ramio.wires ⟨true, r, 0, port.address, data⟩ q s).dataOut = port.held q s ∧
      Ramio.dataOutReady ⟨true, r, 0, port.address, data⟩ q = true := by
  unfold Ramio.wires
  dsimp only
  rw [if_pos rfl, if_pos hr, if_neg (by decide)]
  cases port <;> exact ⟨rfl, rfl⟩

theorem writePort_busy (port : WritePort) (r : Ramio.Request) (hr : r.address = port.address) :
    Ramio.busy r q = false := by
  unfold Ramio.busy
  rw [hr]
  cases port <;> rfl

/-- What reaches the device of a port. -/
def WritePort.handed (port : WritePort) (data : Word) : Handed :=
  match port with
  | .uartOut => .uartOut (byte data 0)
  | .sdcardNextByte => .nextByte (byte data 0)
  | .sdcardReadSector => .readSector data
  | .sdcardWriteSector => .writeSector data

theorem handed_eq (port : WritePort) {w : BitVec 2} (hw : w ≠ 0) (data : Word) :
    handed ⟨true, 0, w, port.address, data⟩ q s = some (port.handed data) := by
  have hwires : Ramio.wires ⟨true, 0, w, port.address, data⟩ q s =
      Ramio.writeWires ⟨true, 0, w, port.address, data⟩ (Ramio.idleWires port.address) := by
    unfold Ramio.wires
    dsimp only
    rw [if_pos rfl, if_pos hw, if_neg (by decide)]
  have hne : w ≠ 0#2 := hw
  unfold handed
  dsimp only
  rw [hwires]
  cases port with
  | uartOut =>
      have hsending : (Ramio.step true ⟨true, 0, w, WritePort.uartOut.address, data⟩ q
          s).uarttxDataSending = 0#24 ++ data.extractLsb' 0 8 := by
        simp [Ramio.step, WritePort.address, hne]
      have hbyte : (0#24 ++ data.extractLsb' 0 8).extractLsb' 0 8 = byte data 0 := by
        apply BitVec.eq_of_getLsbD_eq
        intro i hi
        rw [BitVec.getLsbD_extractLsb', BitVec.getLsbD_append]
        simp [byte, hi]
      rw [hsending, hbyte]
      simp [WritePort.address, WritePort.handed, Ramio.writeWires, Ramio.idleWires, hne]
  | sdcardNextByte => rfl
  | sdcardReadSector => rfl
  | sdcardWriteSector => rfl

end Wires

theorem bus_readPort (port : ReadPort) (m : Machine) :
    ∃ m', ∀ width data, Emulator.bus m port.address width false data =
      ⟨0, port.emulated m, m'⟩ := by
  cases port with
  | uartOut => exact ⟨_, fun _ _ ↦ rfl⟩
  | uartIn => exact ⟨_, fun _ _ ↦ rfl⟩
  | sdcardBusy => exact ⟨_, fun _ _ ↦ rfl⟩
  | sdcardStatus => exact ⟨_, fun _ _ ↦ rfl⟩
  | sdcardNextByte => exact ⟨_, fun _ _ ↦ rfl⟩

theorem bus_writePort (port : WritePort) (m : Machine) (width : BusOpWidth) (data : Word) :
    match (port.handed data).give m with
    | some m' => Emulator.bus m port.address width true data = ⟨0, data, m'⟩
    | none => (Emulator.bus m port.address width true data).status ≠ 0 ∧
        (Emulator.bus m port.address width true data).state = m := by
  cases port with
  | uartOut => rfl
  | sdcardNextByte => rfl
  | sdcardReadSector =>
      have hbus : Emulator.bus m WritePort.sdcardReadSector.address width true data = _ :=
        Emulator.bus_readSector m width data
      rw [hbus]
      cases hread : m.sdcard.readSector data with
      | none => simp [WritePort.handed, Handed.give, hread]
      | some sdcard => simp [WritePort.handed, Handed.give, hread]
  | sdcardWriteSector =>
      have hbus : Emulator.bus m WritePort.sdcardWriteSector.address width true data = _ :=
        Emulator.bus_writeSector m width data
      rw [hbus]
      cases hwrite : m.sdcard.writeSector data with
      | none => simp [WritePort.handed, Handed.give, hwrite]
      | some sdcard => simp [WritePort.handed, Handed.give, hwrite]

/-! ## Loads -/

/-- The core and the emulated CPU before the same instruction. -/
structure Ready (x : Soc.State) (c : Cpu) (w : Word) : Prop where
  state : x.core.state = .cpuExecute
  ir : x.core.ir = w
  rdWriteEnable : x.core.rdWriteEnable = false
  regs : SameRegs x.core.data (cleared c).regs

/-- The instruction extends the value to itself. -/
def Unextended (instruction : Load) (v : Word) : Prop :=
  match instruction with
  | .lb => v.getLsbD 7 = true → v.extractLsb' 8 24 = BitVec.allOnes 24
  | .lh => v.getLsbD 15 = true → v.extractLsb' 16 16 = BitVec.allOnes 16
  | _ => True

/-- Setting the bits from `k` on changes nothing when they are all set. -/
theorem or_eq_self_iff {mask v : Word} {k n : ℕ} (hn : k + n = 32)
    (hmask : ∀ i < 32, mask.getLsbD i = decide (k ≤ i)) :
    mask ||| v = v ↔ v.extractLsb' k n = BitVec.allOnes n := by
  constructor
  · intro h
    apply BitVec.eq_of_getLsbD_eq
    intro i hi
    have hset : v.getLsbD (k + i) = true := by
      rw [← h, BitVec.getLsbD_or, hmask _ (by omega)]
      simp
    simpa [hi] using hset
  · intro h
    apply BitVec.eq_of_getLsbD_eq
    intro i hi
    rw [BitVec.getLsbD_or, hmask i hi]
    by_cases hle : k ≤ i
    · have hbit := congrArg (fun b ↦ b.getLsbD (i - k)) h
      have hlt : i - k < n := by omega
      have hset : v.getLsbD i = true := by
        simpa [hlt, Nat.add_sub_of_le hle] using hbit
      rw [hset, Bool.or_true]
    · simp [hle]

/-- Filling the bits from `k` on with bit `j` changes nothing when they are all equal to it. -/
theorem extend_eq_self_iff {mask v : Word} {j k n : ℕ} (hj : j < 32) (hn : k + n = 32)
    (hmask : ∀ i < 32, mask.getLsbD i = decide (k ≤ i)) :
    (if v &&& BitVec.twoPow 32 j ≠ 0 then mask ||| v else v) = v ↔
      (v.getLsbD j = true → v.extractLsb' k n = BitVec.allOnes n) := by
  rw [if_congr (and_twoPow_ne_zero v hj) rfl rfl]
  cases v.getLsbD j with
  | false => simp
  | true =>
      rw [if_pos rfl, or_eq_self_iff hn hmask]
      exact (imp_iff_right rfl).symm

theorem extension_iff (instruction : Load) {width : BusOpWidth} {base : ℕ} {g : Word → Word}
    (h : loadWidth (instruction.funct3.setWidth 32) = some (width, base, g)) (v : Word) :
    g v = v ↔ Unextended instruction v := by
  cases instruction with
  | lb =>
      obtain rfl : (fun v ↦ if v &&& 0x80 ≠ 0 then 0xffffff00 ||| v else v) = g :=
        congrArg (fun t ↦ t.2.2) (Option.some.inj h)
      exact extend_eq_self_iff (j := 7) (k := 8) (n := 24) (by decide) rfl (by decide)
  | lh =>
      obtain rfl : (fun v ↦ if v &&& 0x8000 ≠ 0 then 0xffff0000 ||| v else v) = g :=
        congrArg (fun t ↦ t.2.2) (Option.some.inj h)
      exact extend_eq_self_iff (j := 15) (k := 16) (n := 16) (by decide) rfl (by decide)
  | lw =>
      obtain rfl : (fun v ↦ v) = g := congrArg (fun t ↦ t.2.2) (Option.some.inj h)
      exact iff_of_true rfl trivial
  | lbu =>
      obtain rfl : (fun v ↦ v) = g := congrArg (fun t ↦ t.2.2) (Option.some.inj h)
      exact iff_of_true rfl trivial
  | lhu =>
      obtain rfl : (fun v ↦ v) = g := congrArg (fun t ↦ t.2.2) (Option.some.inj h)
      exact iff_of_true rfl trivial

section Instructions

variable {p : Core.Params} {i j k : Soc.Input} {x : Soc.State} {c : Cpu} {w : Word}

theorem Ready.load (h : Ready x c w) (hrst : i.rstN = true) (hcode : opcodeFrom w = opcodeLoad)
    {r : BitVec 3} (hr : Core.loadType (Core.funct3 w) = some r) :
    (Soc.step p i x).core =
      { Core.fetchNext (x.core.pc + 4) x.core with
        ramioReadType := r
        ramioAddress := Core.rs1DataOut x.core + Core.iImm12 w
        state := .cpuLoad } := by
  obtain ⟨hstate, rfl, hwrite, -⟩ := h
  simp only [Soc.step, Core.step, Soc.coreInput, hrst, Core.fsm, hstate,
    Refinement.cpuExecute_loadType hcode hr, if_true]
  rw [hwrite]
  rfl

theorem Ready.store (h : Ready x c w) (hrst : i.rstN = true)
    (hcode : opcodeFrom w = opcodeStore) {t : BitVec 2}
    (ht : Core.storeType (Core.funct3 w) = some t) :
    (Soc.step p i x).core =
      { Core.fetchNext (x.core.pc + 4) x.core with
        ramioReadType := 0
        ramioWriteType := t
        ramioAddress := Core.rs1DataOut x.core + Core.sImm12 w
        ramioDataIn := Core.rs2DataOut x.core
        state := .cpuStore } := by
  obtain ⟨hstate, rfl, hwrite, -⟩ := h
  simp only [Soc.step, Core.step, Soc.coreInput, hrst, Core.fsm, hstate,
    Refinement.cpuExecute_storeType hcode ht, if_true]
  rw [hwrite]
  rfl

/-- A load at a port leaves what the port holds for `rd`. -/
theorem Ready.load_held (h : Ready x c w) (hi : i.rstN = true) (hj : j.rstN = true)
    (hcode : opcodeFrom w = opcodeLoad) {r : BitVec 3} (hne : r ≠ 0)
    (hr : Core.loadType (Core.funct3 w) = some r) {port : ReadPort}
    (hport : Core.rs1DataOut x.core + Core.iImm12 w = port.address) :
    (Soc.step p j (Soc.step p i x)).core.state = .cpuFetch ∧
      (Soc.step p k (Soc.step p j (Soc.step p i x))).core.data =
        Function.update x.core.data (Core.rd w).toNat
          (port.held j.parts (Soc.step p i x).ramio) := by
  have hcore := h.load (p := p) (i := i) hi hcode hr
  rw [hport] at hcore
  have hrequest : Soc.request (Soc.step p i x).core =
      ⟨true, r, 0, port.address, x.core.ramioDataIn⟩ := by
    rw [hcore]
    rfl
  obtain ⟨hout, hready⟩ := readPort_served (q := j.parts) (s := (Soc.step p i x).ramio) port hne
    x.core.ramioDataIn
  rw [← hrequest] at hout hready
  have hnext : (Soc.step p j (Soc.step p i x)).core =
      { (Soc.step p i x).core with
        rdWriteEnable := true
        rdDataIn := port.held j.parts (Soc.step p i x).ramio
        ramioReadType := 0b111
        ramioWriteType := 0
        ramioAddress := (Soc.step p i x).core.pc
        state := .cpuFetch } := by
    have hstate : (Soc.step p i x).core.state = .cpuLoad := by rw [hcore]
    have hwrite : (Soc.step p i x).core.rdWriteEnable = false := by
      rw [hcore]
      exact h.rdWriteEnable
    change Core.step p (Soc.coreInput j (Soc.step p i x)) (Soc.step p i x).core = _
    simp only [Core.step, Soc.coreInput, Soc.wires, hj, if_true, Core.fsm, hstate, Core.cpuLoad,
      hready, hout, hwrite]
    rfl
  refine ⟨by rw [hnext], ?_⟩
  change Registers.step (Core.rd (Soc.step p j (Soc.step p i x)).core.ir)
    (Soc.step p j (Soc.step p i x)).core.rdWriteEnable
    (Soc.step p j (Soc.step p i x)).core.rdDataIn (Soc.step p j (Soc.step p i x)).core.data = _
  rw [hnext, hcore]
  simp only [Registers.step, if_true, Core.fetchNext, h.ir]

theorem execute_load {σ : Type*} {bus : Bus σ} {m : σ} {instruction : Load}
    (hcode : opcodeFrom w = opcodeLoad) (hfunct : Core.funct3 w = instruction.funct3)
    {width : BusOpWidth} {base : ℕ} {g : Word → Word}
    (hwidth : loadWidth (instruction.funct3.setWidth 32) = some (width, base, g)) :
    execute bus c m w =
      let r := bus m (reg c.regs (rs1From w) + iImm12From w) width false 0
      if r.status ≠ 0 then fail (base + r.status) c r.state
      else retire c r.state (rdFrom w) (g r.data) (c.pc + 4) := by
  unfold execute
  dsimp only
  rw [if_neg (by rw [hcode]; decide), if_neg (by rw [hcode]; decide),
    if_neg (by rw [hcode]; decide), if_neg (by rw [hcode]; decide), if_pos hcode,
    funct3From_eq, hfunct, hwidth]

/-- On the core and on the emulated CPU the load leaves the same in `rd` exactly
if the emulated CPU extends what the port holds to itself. -/
theorem Ready.load_agrees_iff {σ : Type*} {bus : Bus σ} {m m' : σ} (h : Ready x c w)
    (hi : i.rstN = true) (hj : j.rstN = true)
    (hcode : opcodeFrom w = opcodeLoad) {instruction : Load}
    (hfunct : Core.funct3 w = instruction.funct3) {port : ReadPort}
    (hport : Core.rs1DataOut x.core + Core.iImm12 w = port.address)
    (hfetch : bus m c.pc .word false 0 = ⟨0, w, m⟩) {v : Word}
    (hheld : port.held j.parts (Soc.step p i x).ramio = v)
    (hbus : ∀ width, bus m port.address width false 0 = ⟨0, v, m'⟩) :
    (Soc.step p j (Soc.step p i x)).core.state = .cpuFetch ∧ (tick bus c m).status = 0 ∧
      (Registers.dataOut (Soc.step p k (Soc.step p j (Soc.step p i x))).core.data (Core.rd w) =
          (cleared (tick bus c m).cpu).regs (Core.rd w).toNat ↔
        Core.rd w = 0 ∨ Unextended instruction v) := by
  obtain ⟨width, base, g, hwidth⟩ : ∃ width base g,
      loadWidth (instruction.funct3.setWidth 32) = some (width, base, g) := by
    cases instruction <;> exact ⟨_, _, _, rfl⟩
  obtain ⟨r, hr, hne, -, -⟩ := loadType_eq hwidth
  rw [← hfunct] at hr
  obtain ⟨hstate, hdata⟩ := h.load_held (p := p) (k := k) hi hj hcode hne hr hport
  have haddress : reg (cleared c).regs (rs1From w) + iImm12From w = port.address := by
    have hregs := h.regs.rs1_eq
    rw [h.ir] at hregs
    rw [hregs, iImm12From_eq, hport]
  have htick : tick bus c m = retire (cleared c) m' (rdFrom w) (g v) (c.pc + 4) := by
    rw [tick_of_fetch hfetch, execute_load hcode hfunct hwidth, haddress, hbus width]
    rfl
  refine ⟨hstate, by rw [htick]; rfl, ?_⟩
  rw [hdata, htick, hheld]
  by_cases hzero : Core.rd w = 0
  · refine iff_of_true ?_ (.inl hzero)
    simp [Registers.dataOut, hzero, cleared]
  · have hpos : (Core.rd w).toNat ≠ 0 := by
      intro hrd
      exact hzero (BitVec.eq_of_toNat_eq hrd)
    have hleft : Registers.dataOut (Function.update x.core.data (Core.rd w).toNat v) (Core.rd w) =
        v := by
      rw [Registers.dataOut, if_neg hzero, Function.update_self]
    have hright : (cleared (retire (cleared c) m' (rdFrom w) (g v) (c.pc + 4)).cpu).regs
        (Core.rd w).toNat = g v := by
      simp only [cleared, retire, rdFrom_toNat]
      rw [Function.update_of_ne hpos, Function.update_self]
    rw [hleft, hright, eq_comm, extension_iff instruction hwidth]
    exact (or_iff_right hzero).symm

theorem execute_store {σ : Type*} {bus : Bus σ} {m : σ} {instruction : Store}
    (hcode : opcodeFrom w = opcodeStore) (hfunct : Core.funct3 w = instruction.funct3)
    {width : BusOpWidth} {base : ℕ}
    (hwidth : storeWidth (instruction.funct3.setWidth 32) = some (width, base)) :
    execute bus c m w =
      let r := bus m (reg c.regs (rs1From w) + sImm12From w) width true (reg c.regs (rs2From w))
      if r.status ≠ 0 then fail (base + r.status) c r.state else jump c r.state (c.pc + 4) := by
  unfold execute
  dsimp only
  rw [if_neg (by rw [hcode]; decide), if_neg (by rw [hcode]; decide),
    if_neg (by rw [hcode]; decide), if_pos hcode, funct3From_eq, hfunct, hwidth]

/-- A store at a port hands the device the same on both sides. -/
theorem Ready.store_agrees {m : Machine} (h : Ready x c w) (hi : i.rstN = true)
    (hj : j.rstN = true) (hcode : opcodeFrom w = opcodeStore) {instruction : Store}
    (hfunct : Core.funct3 w = instruction.funct3) {port : WritePort}
    (hport : Core.rs1DataOut x.core + Core.sImm12 w = port.address)
    (hfetch : Emulator.bus m c.pc .word false 0 = ⟨0, w, m⟩) :
    (Soc.step p j (Soc.step p i x)).core.state = .cpuFetch ∧
      ∃ device, handed (Soc.request (Soc.step p i x).core) j.parts (Soc.step p i x).ramio =
          some device ∧
        match device.give m with
        | some m' => (tick Emulator.bus c m).status = 0 ∧ (tick Emulator.bus c m).state = m'
        | none => (tick Emulator.bus c m).status ≠ 0 ∧ (tick Emulator.bus c m).state = m := by
  obtain ⟨width, base, hwidth⟩ : ∃ width base,
      storeWidth (instruction.funct3.setWidth 32) = some (width, base) := by
    cases instruction <;> exact ⟨_, _, rfl⟩
  have ht := storeType_eq hwidth
  rw [← hfunct] at ht
  have hne : writeType width ≠ 0 := by cases width <;> decide
  have hcore := h.store (p := p) (i := i) hi hcode ht
  rw [hport] at hcore
  have hrequest : Soc.request (Soc.step p i x).core =
      ⟨true, 0, writeType width, port.address, Core.rs2DataOut x.core⟩ := by
    rw [hcore]
    rfl
  refine ⟨?_, port.handed (Core.rs2DataOut x.core), ?_, ?_⟩
  · have hbusy := writePort_busy (q := j.parts) port _ (congrArg (·.address) hrequest)
    have hstate : (Soc.step p i x).core.state = .cpuStore := by rw [hcore]
    change (Core.step p (Soc.coreInput j (Soc.step p i x)) (Soc.step p i x).core).state = _
    simp [Core.step, Soc.coreInput, hj, Core.fsm, hstate, Core.cpuStore, hbusy]
  · rw [hrequest]
    exact handed_eq port hne _
  · have hrs1 := h.regs.rs1_eq
    have hrs2 := h.regs.rs2_eq
    rw [h.ir] at hrs1 hrs2
    have hbus := bus_writePort port m width (Core.rs2DataOut x.core)
    rw [tick_of_fetch hfetch, execute_store hcode hfunct hwidth, hrs1, hrs2, sImm12From_eq, hport]
    cases hgive : (port.handed (Core.rs2DataOut x.core)).give m with
    | some m' =>
        rw [hgive] at hbus
        rw [hbus]
        exact ⟨rfl, rfl⟩
    | none =>
        rw [hgive] at hbus
        obtain ⟨hstatus, hstate⟩ := hbus
        dsimp only
        rw [if_pos hstatus]
        exact ⟨fun hzero ↦ hstatus (Nat.add_eq_zero_iff.mp hzero).2, hstate⟩

end Instructions

/-- Loads at a port agree exactly if the destination is `x0` or the instruction
extends the held value to itself; stores always agree. -/
theorem port_agreement_iff {σ : Type*} (p : Core.Params) {x : Soc.State} {c : Cpu} {w : Word}
    (h : Ready x c w) {i j : Soc.Input} (hi : i.rstN = true) (hj : j.rstN = true)
    (k : Soc.Input) :
    (∀ (bus : Bus σ) (m m' : σ) (instruction : Load) (port : ReadPort) (v : Word),
      opcodeFrom w = opcodeLoad → Core.funct3 w = instruction.funct3 →
      Core.rs1DataOut x.core + Core.iImm12 w = port.address →
      bus m c.pc .word false 0 = ⟨0, w, m⟩ →
      port.held j.parts (Soc.step p i x).ramio = v →
      (∀ width, bus m port.address width false 0 = ⟨0, v, m'⟩) →
      (Soc.step p j (Soc.step p i x)).core.state = .cpuFetch ∧ (tick bus c m).status = 0 ∧
        (Registers.dataOut (Soc.step p k (Soc.step p j (Soc.step p i x))).core.data (Core.rd w) =
            (cleared (tick bus c m).cpu).regs (Core.rd w).toNat ↔
          Core.rd w = 0 ∨ Unextended instruction v)) ∧
    (∀ (m : Machine) (port : ReadPort), ∃ m', ∀ width data,
      Emulator.bus m port.address width false data = ⟨0, port.emulated m, m'⟩) ∧
    ∀ (m : Machine) (instruction : Store) (port : WritePort),
      opcodeFrom w = opcodeStore → Core.funct3 w = instruction.funct3 →
      Core.rs1DataOut x.core + Core.sImm12 w = port.address →
      Emulator.bus m c.pc .word false 0 = ⟨0, w, m⟩ →
      (Soc.step p j (Soc.step p i x)).core.state = .cpuFetch ∧
        ∃ device, handed (Soc.request (Soc.step p i x).core) j.parts (Soc.step p i x).ramio =
            some device ∧
          match device.give m with
          | some m' => (tick Emulator.bus c m).status = 0 ∧ (tick Emulator.bus c m).state = m'
          | none => (tick Emulator.bus c m).status ≠ 0 ∧ (tick Emulator.bus c m).state = m := by
  refine ⟨?_, fun m port ↦ bus_readPort port m, ?_⟩
  · intro bus m m' instruction port v hcode hfunct hport hfetch hheld hbus
    exact h.load_agrees_iff hi hj hcode hfunct hport hfetch hheld hbus
  · intro m instruction port hcode hfunct hport hfetch
    exact h.store_agrees hi hj hcode hfunct hport hfetch

/-- `lb x1, -12(x0)`: a load from `UartIn` -/
def loadUartIn : Word := 0xff400083

/-- The core about to execute an instruction, with a byte received by `uartrx`. -/
def uartState (ir : Word) (received : Byte) : Soc.State where
  core := { Core.powerUp with state := .cpuExecute, ir := ir }
  ramio := { idleRegs with uartrxDataReceived := received.setWidth 32 }

def uartCycle : Soc.Input := ⟨true, idleParts, false⟩

/-- The emulator with the instruction at address 0 and a byte from the terminal. -/
def uartMachine (ir : Word) (received : Byte) : Machine :=
  { blankMachine with ram := fun a ↦ if a < 4 then byte ir a else 0, input := [some received] }

def uartCpu : Cpu := ⟨0, fun _ ↦ 0, false⟩

theorem ready_uart (ir : Word) (received : Byte) : Ready (uartState ir received) uartCpu ir where
  state := rfl
  ir := rfl
  rdWriteEnable := rfl
  regs := ⟨rfl, fun x _ _ ↦ by simp [uartState, Core.powerUp, cleared, uartCpu]⟩

/-- The core's `x1` two cycles after it has executed `lb x1, -12(x0)`. -/
def coreLoads (received : Byte) : Word :=
  Registers.dataOut (Soc.step ⟨0, 0, 4⟩ uartCycle (Soc.step ⟨0, 0, 4⟩ uartCycle
    (Soc.step ⟨0, 0, 4⟩ uartCycle (uartState loadUartIn received)))).core.data 1

/-- The emulated CPU's `x1` after the same instruction. -/
def emulatorLoads (received : Byte) : Word :=
  (cleared (tick Emulator.bus uartCpu (uartMachine loadUartIn received)).cpu).regs 1

theorem port_agreement_iff_uartIn : coreLoads 0x41 = emulatorLoads 0x41 := by
  have hagree := ((port_agreement_iff ⟨0, 0, 4⟩ (ready_uart loadUartIn 0x41) (i := uartCycle)
    (j := uartCycle) rfl rfl uartCycle).1 Emulator.bus (uartMachine loadUartIn 0x41)
    { uartMachine loadUartIn 0x41 with input := [] } .lb .uartIn 0x41 rfl rfl rfl rfl rfl
    fun _ ↦ rfl).2.2
  exact hagree.mpr (.inr fun hbit ↦ absurd hbit (by decide))

/-- A received 0x80 is not: `ramio` returns the whole word, the emulated CPU
extends the byte. -/
theorem port_disagreement_uartIn :
    ReadPort.uartIn.held idleParts (uartState loadUartIn 0x80).ramio = 0x80 ∧
      ReadPort.uartIn.emulated (uartMachine loadUartIn 0x80) = 0x80 ∧
      coreLoads 0x80 = 0x80 ∧ emulatorLoads 0x80 = 0xffffff80 := by
  decide

end TangNano.Ports
