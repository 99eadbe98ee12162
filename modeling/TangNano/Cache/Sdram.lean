import TangNano.Cache.Control
import TangNano.Library.WordMemory

/-!
# The SDRAM controller as the cache relies on it

The controller is not part of the sources.  What is assumed of it: a command
presented for one cycle, after the previous one was acknowledged, is carried
out.  ACTIVE opens the row of its address, WRITE stores the words on the data
wires in consecutive cycles from its own cycle on, READ delivers the words
after `WaitsPriorToDataAtRead` cycles, both stay inside the open row and close
it, and an auto-refresh needs every row closed.  Acknowledgments arrive
whenever the environment likes; data outside a read burst and everything that
follows an unsupported command are arbitrary.
-/

namespace TangNano.Cache

/-- The wires from the cache to the controller. -/
structure Bus where
  cmdEn : Bool
  cmd : BitVec 3
  addr : ℕ
  data : Word
  dataLen : ℕ

def Regs.bus (s : Regs) : Bus :=
  ⟨s.iSdrcCmdEn, s.iSdrcCmd, s.iSdrcAddr, s.iSdrcData, s.iSdrcDataLen⟩

/-- A write burst that still has `left` words to take, the next one for `next`. -/
structure WriteBurst where
  next : ℕ
  left : ℕ

/-- A read burst whose command was presented `age` cycles ago. -/
structure ReadBurst where
  address : ℕ
  len : ℕ
  age : ℕ

def ReadBurst.next (r : ReadBurst) : ReadBurst := { r with age := r.age + 1 }

structure Sdram where
  data : WordMemory
  openRow : Option ℕ
  pending : Bool
  writing : Option WriteBurst
  reading : Option ReadBurst

/-- Bank and row of a word address; the column is its low eight bits. -/
def rowOf (address : ℕ) : ℕ := address / 256

namespace Sdram

/-- The last word of the read burst has been delivered. -/
def readDone (latency : ℕ) (m : Sdram) : Bool :=
  m.reading.all fun r ↦ decide (latency + r.len < r.age)

/-- The controller supports what is on its command wires. -/
def supported (latency : ℕ) (b : Bus) (m : Sdram) : Bool :=
  !b.cmdEn ||
    (!m.pending && m.writing.isNone && m.readDone latency &&
      if b.cmd = cmdAutoRefresh ∨ b.cmd = cmdActive then m.openRow.isNone
      else decide ((b.cmd = cmdWrite ∨ b.cmd = cmdRead) ∧
        m.openRow = some (rowOf b.addr) ∧ b.addr % 256 + b.dataLen < 256))

def continueWrite (left next : ℕ) : Option WriteBurst :=
  if left = 0 then none else some ⟨next, left⟩

/-- One cycle of the controller with supported wires. -/
def step (b : Bus) (ack : Bool) (m : Sdram) : Sdram :=
  let reading := m.reading.map ReadBurst.next
  if b.cmdEn then
    if b.cmd = cmdActive then
      { m with openRow := some (rowOf b.addr), pending := !ack, reading := reading }
    else if b.cmd = cmdWrite then
      { data := Function.update m.data b.addr b.data
        openRow := none
        pending := !ack
        writing := continueWrite b.dataLen (b.addr + 1)
        reading := reading }
    else if b.cmd = cmdRead then
      { m with openRow := none, reading := some ⟨b.addr, b.dataLen, 1⟩ }
    else { m with pending := !ack, reading := reading }
  else
    match m.writing with
    | none => { m with pending := m.pending && !ack, reading := reading }
    | some w =>
        { m with
          data := Function.update m.data w.next b.data
          pending := m.pending && !ack
          writing := continueWrite (w.left - 1) (w.next + 1)
          reading := reading }

/-- The read burst whose words are due in this cycle. -/
def currentRead (b : Bus) (m : Sdram) : Option ReadBurst :=
  if b.cmdEn ∧ b.cmd = cmdRead then some ⟨b.addr, b.dataLen, 0⟩ else m.reading

/-- `O_sdrc_data`; `junk` is what the wires carry when no word is due. -/
def readData (latency : ℕ) (b : Bus) (m : Sdram) (junk : Word) : Word :=
  if m.supported latency b then
    match currentRead b m with
    | none => junk
    | some r =>
        if latency ≤ r.age ∧ r.age ≤ latency + r.len then
          m.data (r.address + (r.age - latency))
        else junk
  else junk

/-! ## What one cycle does, by command -/

section Steps

variable {latency : ℕ} {b : Bus} {ack : Bool} {m : Sdram}

/-- The last transfer is complete. -/
structure Settled (latency : ℕ) (m : Sdram) : Prop where
  writing_eq : m.writing = none
  done : m.readDone latency = true

/-- The controller waits for ACTIVE or an auto-refresh. -/
structure Quiet (latency : ℕ) (m : Sdram) : Prop extends Settled latency m where
  openRow_eq : m.openRow = none
  pending_eq : m.pending = false

theorem readDone_next (h : m.readDone latency = true) (openRow pending writing data) :
    (Sdram.mk data openRow pending writing (m.reading.map ReadBurst.next)).readDone latency
      = true := by
  unfold readDone at h ⊢
  cases hread : m.reading with
  | none => rfl
  | some r =>
      simp only [hread, Option.all_some, decide_eq_true_eq, Option.map_some, ReadBurst.next] at h ⊢
      omega

theorem supported_of_not_en (hen : b.cmdEn = false) : m.supported latency b = true := by
  simp [supported, hen]

theorem Quiet.supported (h : m.Quiet latency) (hcmd : b.cmd = cmdAutoRefresh ∨ b.cmd = cmdActive) :
    m.supported latency b = true := by
  simp [Sdram.supported, h.writing_eq, h.done, h.openRow_eq, h.pending_eq, hcmd]

/-- A transfer inside the open row is supported. -/
theorem Settled.supported (h : m.Settled latency) (hcmd : b.cmd = cmdWrite ∨ b.cmd = cmdRead)
    (hrow : m.openRow = some (rowOf b.addr)) (hpending : m.pending = false)
    (hfit : b.addr % 256 + b.dataLen < 256) : m.supported latency b = true := by
  have hother : ¬(b.cmd = cmdAutoRefresh ∨ b.cmd = cmdActive) := by
    rcases hcmd with hcmd | hcmd <;> rw [hcmd] <;> decide
  simp [Sdram.supported, h.writing_eq, h.done, hrow, hpending, hother, hcmd, hfit]

theorem step_wait (hen : b.cmdEn = false) (hwriting : m.writing = none) :
    m.step b ack =
      { m with pending := m.pending && !ack, reading := m.reading.map ReadBurst.next } := by
  simp [step, hen, hwriting]

theorem step_storing (hen : b.cmdEn = false) {w : WriteBurst} (hwriting : m.writing = some w) :
    m.step b ack =
      { m with
        data := Function.update m.data w.next b.data
        pending := m.pending && !ack
        writing := continueWrite (w.left - 1) (w.next + 1)
        reading := m.reading.map ReadBurst.next } := by
  simp [step, hen, hwriting]

theorem step_refresh (hen : b.cmdEn = true) (hcmd : b.cmd = cmdAutoRefresh) :
    m.step b ack =
      { m with pending := !ack, reading := m.reading.map ReadBurst.next } := by
  simp [step, hen, hcmd, cmdAutoRefresh, cmdActive, cmdWrite, cmdRead]

theorem step_active (hen : b.cmdEn = true) (hcmd : b.cmd = cmdActive) :
    m.step b ack =
      { m with
        openRow := some (rowOf b.addr)
        pending := !ack
        reading := m.reading.map ReadBurst.next } := by
  simp [step, hen, hcmd]

theorem step_write (hen : b.cmdEn = true) (hcmd : b.cmd = cmdWrite) :
    m.step b ack =
      { data := Function.update m.data b.addr b.data
        openRow := none
        pending := !ack
        writing := continueWrite b.dataLen (b.addr + 1)
        reading := m.reading.map ReadBurst.next } := by
  simp [step, hen, hcmd, cmdActive, cmdWrite]

theorem step_read (hen : b.cmdEn = true) (hcmd : b.cmd = cmdRead) :
    m.step b ack = { m with openRow := none, reading := some ⟨b.addr, b.dataLen, 1⟩ } := by
  simp [step, hen, hcmd, cmdActive, cmdWrite, cmdRead]

/-- A supported read burst delivers its word `k` when it is `latency + k` cycles old. -/
theorem readData_of_due {junk : Word} (hsupported : m.supported latency b = true) {a len k : ℕ}
    (hread : currentRead b m = some ⟨a, len, latency + k⟩) (hk : k ≤ len) :
    m.readData latency b junk = m.data (a + k) := by
  simp [readData, hsupported, hread, hk]

end Steps

end Sdram

/-! ## Cache and controller together -/

structure System where
  cache : Regs
  sdram : Sdram

/-- What the environment supplies in one cycle: the request, the ACK pulse, the
data wires outside bursts and the controller's state after a command it does
not support. -/
structure Drive where
  enable : Bool
  address : Word
  dataIn : Word
  writeEnable : BitVec 4
  ack : Bool
  junk : Word
  wreck : Sdram

namespace System

variable (p : Params)

def cacheInput (d : Drive) (y : System) : Input where
  rstN := true
  enable := d.enable
  address := d.address
  dataIn := d.dataIn
  writeEnable := d.writeEnable
  oSdrcData := y.sdram.readData p.waitsPriorToDataAtRead y.cache.bus d.junk
  oSdrcCmdAck := d.ack

def step (d : Drive) (y : System) : System where
  cache := Cache.step p (cacheInput p d y) y.cache
  sdram :=
    if y.sdram.supported p.waitsPriorToDataAtRead y.cache.bus then
      y.sdram.step y.cache.bus d.ack
    else d.wreck

abbrev run (start : System) (drive : ℕ → Drive) (n : ℕ) : System :=
  Clocked.state (step p) start drive n

end System

end TangNano.Cache
