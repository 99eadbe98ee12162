import TangNano.Core.Model
import TangNano.Library.Clocked
import TangNano.Library.SpiFlash

/-!
# The boot loader

The core with a serial flash on its `flash_*` wires.  From reset on it sends the
read command, then takes one byte after the other from the flash and lets
`ramio` write every fourth.  One counter makes the clock of the flash, finds the
end of a byte and is stopped, in the middle of a bit, while `ramio` is busy.
-/

namespace TangNano.Boot

structure State where
  core : Core.Regs
  flash : SpiFlash.Device

/-- What the core sees. -/
def coreInput (i : Core.Input) (x : State) : Core.Input :=
  { i with flashMiso := x.flash.miso }

/-- One rising edge of `clk`, after which the flash sees its wires. -/
def step (p : Core.Params) (memory : BitVec 24 → Byte) (i : Core.Input) (x : State) : State :=
  let core := Core.step p (coreInput i x) x.core
  { core := core
    flash := SpiFlash.observe memory core.flashCsN core.flashClk core.flashMosi x.flash }

/-- A write: its type, address and data. -/
abbrev Write := BitVec 2 × Word × Word

/-- `ramio` accepts a write. -/
def accepts (i : Core.Input) (x : State) : Bool :=
  x.core.ramioEnable && x.core.ramioWriteType != 0 && !i.ramioBusy

def write (x : State) : Write :=
  (x.core.ramioWriteType, x.core.ramioAddress, x.core.ramioDataIn)

/-- The bytes to transfer. -/
def flashByte (p : Core.Params) (memory : BitVec 24 → Byte) : ℕ → Byte :=
  SpiFlash.bytesFrom memory (p.flashTransferFromAddress.setWidth 24)

/-- The write of word `k`. -/
def wordWrite (p : Core.Params) (memory : BitVec 24 → Byte) (k : ℕ) : Write :=
  (0b11, BitVec.ofNat 32 (4 * k), Bytes.ofBytes fun i ↦ flashByte p memory (4 * k + i))

/-- Command and address, in the order they are sent. -/
def commandBit (p : Core.Params) : ℕ → Bool :=
  (SpiFlash.readCommand ++ p.flashTransferFromAddress.setWidth 24 : BitVec 32).getMsbD

/-! ## Stages -/

/-- No word has been asked for. -/
structure Quiet (x : State) : Prop where
  enable : x.core.ramioEnable = false
  next : x.core.ramioAddressNext = 0
  clk : x.flash.clk = x.core.flashClk
  sent : x.flash.sent = 0

/-- The flash has got `n` bits. -/
structure Asked (p : Core.Params) (x : State) (n : ℕ) : Prop extends Quiet x where
  csN : x.core.flashCsN = false
  count : x.flash.count = n
  shift : Serial.Received x.flash.shift (commandBit p) n

/-- Where the core goes on after `last` bits. -/
def Returns (s : Core.Regs) (last : ℕ) : Prop :=
  last = 8 ∧ s.returnState = .bootLoadAddressToSend ∨
    last = 32 ∧ s.returnState = .bootReadData ∧ s.flashCurrentByteNum = 0

/-- The flash has got the command and `m` bits of data are in the core. -/
structure Reading (p : Core.Params) (memory : BitVec 24 → Byte) (x : State) (m : ℕ) : Prop where
  csN : x.core.flashCsN = false
  count : x.flash.count = 32
  shift : x.flash.shift = SpiFlash.readCommand ++ p.flashTransferFromAddress.setWidth 24
  received : Serial.Received x.core.flashCurrentByteOut (Serial.stream (flashByte p memory)) m

/-- The clock is low and bit `m` is on the line. -/
structure Low (p : Core.Params) (memory : BitVec 24 → Byte) (x : State) (m : ℕ) : Prop
    extends Reading p memory x m where
  counter : x.core.flashCounter.toNat = 2 * m + 1
  coreClk : x.core.flashClk = false
  clk : x.flash.clk = false
  sent : x.flash.sent = m + 1
  miso : x.flash.miso = Serial.stream (flashByte p memory) m

/-- The clock is high. -/
structure High (p : Core.Params) (memory : BitVec 24 → Byte) (x : State) (m : ℕ) : Prop
    extends Reading p memory x m where
  counter : x.core.flashCounter.toNat = 2 * m
  clk : x.flash.clk = true
  sent : x.flash.sent = m

/-- The first `n` bytes of word `k` are stored. -/
structure Stored (p : Core.Params) (memory : BitVec 24 → Byte) (x : State) (k n : ℕ) : Prop where
  num : x.core.flashCurrentByteNum.toNat = n
  bytes : ∀ i < n, x.core.flashDataOut i = flashByte p memory (4 * k + i)
  enable : x.core.ramioEnable = false
  next : x.core.ramioAddressNext = BitVec.ofNat 32 (4 * k)

/-- Where the boot loader is while the words before `k` have been written. -/
inductive Stage (p : Core.Params) (memory : BitVec 24 → Byte) (x : State) (k : ℕ) : Prop
  | init (hk : k = 0) (hquiet : Quiet x) (hstate : x.core.state = .bootInit)
      (hcsN : x.core.flashCsN = true) (hcount : x.flash.count = 0)
      (hclk : x.core.flashClk = false)
  | loadCommand (hk : k = 0) (hquiet : Quiet x) (hstate : x.core.state = .bootLoadCommandToSend)
      (hcount : x.flash.count = 0) (hclk : x.core.flashClk = false)
      (hcounter : x.core.flashCounter = 0)
  | sendHigh (n r last : ℕ) (hk : k = 0) (hasked : Asked p x n) (hstate : x.core.state = .bootSend)
      (hcounter : x.core.flashCounter = 0) (hnum : x.core.flashNumBitsToSend.toNat = r)
      (hpos : 0 < r) (hlast : n + r = last) (hle : r ≤ 24)
      (hloaded : Serial.Loaded x.core.flashDataToSend (commandBit p) n r)
      (hreturns : Returns x.core last)
  | sendLow (n r last : ℕ) (hk : k = 0) (hasked : Asked p x n) (hstate : x.core.state = .bootSend)
      (hcounter : x.core.flashCounter = 1) (hnum : x.core.flashNumBitsToSend.toNat = r)
      (hlast : n + 1 + r = last) (hle : r < 24) (hclk : x.core.flashClk = false)
      (hmosi : x.core.flashMosi = commandBit p n)
      (hloaded : Serial.Loaded x.core.flashDataToSend (commandBit p) (n + 1) r)
      (hreturns : Returns x.core last)
  | loadAddress (hk : k = 0) (hasked : Asked p x 8) (hstate : x.core.state = .bootLoadAddressToSend)
      (hcounter : x.core.flashCounter = 0)
  | high (m : ℕ) (hhigh : High p memory x m) (hstate : x.core.state = .bootReadData)
      (hstored : Stored p memory x k ((m - 1) / 8 - 4 * k))
      (hfrom : m = 0 ∧ k = 0 ∨ 32 * k < m) (hle : m ≤ 32 * k + 32)
  | low (m : ℕ) (hlow : Low p memory x m) (hstate : x.core.state = .bootReadData)
      (hstored : Stored p memory x k (m / 8 - 4 * k))
      (hfrom : 32 * k ≤ m) (hlt : m < 32 * k + 32)
  | startWrite (hlow : Low p memory x (32 * k + 32)) (hstate : x.core.state = .bootStartWrite)
      (hstored : Stored p memory x k 4)
  | write (hlow : Low p memory x (32 * k + 32)) (hstate : x.core.state = .bootWrite)
      (henable : x.core.ramioEnable = true) (hwrite : Boot.write x = wordWrite p memory k)
      (hnext : x.core.ramioAddressNext = BitVec.ofNat 32 (4 * (k + 1)))

/-- The CPU is about to fetch its first instruction. -/
structure Booted (x : State) : Prop where
  state : x.core.state = .cpuFetch
  csN : x.core.flashCsN = true
  enable : x.core.ramioEnable = true
  readType : x.core.ramioReadType = 0b111
  writeType : x.core.ramioWriteType = 0
  address : x.core.ramioAddress = 0
  pc : x.core.pc = 0

theorem Returns.le {s : Core.Regs} {last : ℕ} (h : Returns s last) : last ≤ 32 := by
  rcases h with ⟨rfl, -⟩ | ⟨rfl, -⟩
  · decide
  · decide

section Steps

variable {p : Core.Params} {memory : BitVec 24 → Byte} {i : Core.Input} {x : State} {k : ℕ}

theorem step_eq (hrst : i.rstN = true) {t : Core.Regs}
    (h : Core.fsm p (coreInput i x) x.core = t) :
    step p memory i x =
      { core := { t with
          data := Registers.step (Core.rd x.core.ir) x.core.rdWriteEnable x.core.rdDataIn
            x.core.data }
        flash := SpiFlash.observe memory t.flashCsN t.flashClk t.flashMosi x.flash } := by
  have hrun : (coreInput i x).rstN = true := hrst
  simp only [step, Core.step, hrun, if_true, h]

theorem accepts_of_disabled (h : x.core.ramioEnable = false) : accepts i x = false := by
  simp [accepts, h]

theorem stage_reset (hrst : i.rstN = false) : Stage p memory (step p memory i x) 0 := by
  have hcore : Core.step p (coreInput i x) x.core = { Core.reset x.core with
      data := Registers.step (Core.rd x.core.ir) x.core.rdWriteEnable x.core.rdDataIn
        x.core.data } := by
    simp [Core.step, coreInput, hrst]
  unfold step
  rw [hcore]
  exact .init rfl ⟨rfl, rfl, rfl, rfl⟩ rfl rfl rfl rfl

/-! ## Command and address -/

theorem bootInit_stage (hrst : i.rstN = true) (hquiet : Quiet x) (hstate : x.core.state = .bootInit)
    (hcsN : x.core.flashCsN = true) (hclk : x.core.flashClk = false) :
    Stage p memory (step p memory i x) 0 := by
  have hfsm : Core.fsm p (coreInput i x) x.core = Core.bootInit p x.core := by
    rw [Core.fsm, hstate]
  rw [step_eq hrst hfsm]
  unfold Core.bootInit
  split
  · dsimp only
    rw [hcsN, SpiFlash.observe_idle]
    exact .loadCommand rfl ⟨hquiet.enable, hquiet.next, rfl, rfl⟩ rfl rfl hclk rfl
  · dsimp only
    rw [hcsN, SpiFlash.observe_idle]
    exact .init rfl ⟨hquiet.enable, hquiet.next, rfl, rfl⟩ hstate rfl rfl hclk

theorem loadCommand_stage (hrst : i.rstN = true) (hquiet : Quiet x)
    (hstate : x.core.state = .bootLoadCommandToSend) (hcount : x.flash.count = 0)
    (hclk : x.core.flashClk = false) (hcounter : x.core.flashCounter = 0) :
    Stage p memory (step p memory i x) 0 := by
  have hfsm : Core.fsm p (coreInput i x) x.core = Core.bootLoadCommandToSend x.core := by
    rw [Core.fsm, hstate]
  rw [step_eq hrst hfsm]
  unfold Core.bootLoadCommandToSend
  dsimp only
  rw [hclk, SpiFlash.observe_same (hquiet.clk.trans hclk)]
  refine .sendHigh 0 8 8 rfl
    ⟨⟨hquiet.enable, hquiet.next, hquiet.clk.trans hclk, hquiet.sent⟩, rfl, hcount,
      Serial.received_zero _⟩
    rfl hcounter rfl (by decide) rfl (by decide) ?_ (.inl ⟨rfl, rfl⟩)
  intro j hj
  rw [commandBit, BitVec.getMsbD_append, BitVec.getMsbD_append, Nat.zero_add,
    if_neg (Nat.not_le.mpr hj), if_neg (Nat.not_le.mpr hj)]
  rfl

theorem loadAddress_stage (hrst : i.rstN = true) (hasked : Asked p x 8)
    (hstate : x.core.state = .bootLoadAddressToSend) (hcounter : x.core.flashCounter = 0) :
    Stage p memory (step p memory i x) 0 := by
  have hfsm : Core.fsm p (coreInput i x) x.core = Core.bootLoadAddressToSend p x.core := by
    rw [Core.fsm, hstate]
  rw [step_eq hrst hfsm]
  unfold Core.bootLoadAddressToSend
  dsimp only
  rw [hasked.csN, SpiFlash.observe_same hasked.clk]
  refine .sendHigh 8 24 32 rfl
    ⟨⟨hasked.enable, hasked.next, hasked.clk, hasked.sent⟩, rfl, hasked.count, hasked.shift⟩
    rfl hcounter rfl (by decide) rfl (by decide) ?_ (.inr ⟨rfl, rfl, rfl⟩)
  intro j hj
  rw [commandBit, BitVec.getMsbD_append, if_pos (Nat.le_add_right 8 j), Nat.add_sub_cancel_left]

theorem sendHigh_stage (hrst : i.rstN = true) {n r last : ℕ} (hasked : Asked p x n)
    (hstate : x.core.state = .bootSend) (hcounter : x.core.flashCounter = 0)
    (hnum : x.core.flashNumBitsToSend.toNat = r) (hpos : 0 < r) (hlast : n + r = last)
    (hle : r ≤ 24) (hshort : last ≤ 32)
    (hloaded : Serial.Loaded x.core.flashDataToSend (commandBit p) n r)
    (hreturns : Returns x.core last) : Stage p memory (step p memory i x) 0 := by
  obtain ⟨r, rfl⟩ := Nat.exists_eq_succ_of_ne_zero (Nat.pos_iff_ne_zero.mp hpos)
  obtain ⟨hbit, hrest⟩ := hloaded.next (by omega) false
  have hfsm : Core.fsm p (coreInput i x) x.core = Core.bootSend x.core := by
    rw [Core.fsm, hstate]
  rw [step_eq hrst hfsm]
  unfold Core.bootSend
  rw [if_pos hcounter]
  dsimp only
  have hcount : x.flash.count < 32 := by
    rw [hasked.count]
    omega
  rw [hasked.csN, SpiFlash.observe_low_short hcount]
  refine .sendLow n r last rfl
    ⟨⟨hasked.enable, hasked.next, rfl, hasked.sent⟩, rfl, hasked.count, hasked.shift⟩
    hstate rfl ?_ (by omega) (by omega) rfl hbit ?_ hreturns
  · change (x.core.flashNumBitsToSend - 1).toNat = r
    bv_omega
  · change Serial.Loaded (x.core.flashDataToSend.extractLsb' 0 23 ++ BitVec.ofBool false) _ _ _
    rw [Serial.append_ofBool]
    exact hrest

/-- The last bit of the command or of the address. -/
theorem sent_stage {n : ℕ} (hasked : Asked p x n) (hclk : x.core.flashClk = true)
    (hcounter : x.core.flashCounter = 0) (hreturns : Returns x.core n)
    (hstate : x.core.state = x.core.returnState) : Stage p memory x 0 := by
  rcases hreturns with ⟨rfl, hreturn⟩ | ⟨rfl, hreturn, hnum⟩
  · exact .loadAddress rfl hasked (hstate.trans hreturn) hcounter
  · refine .high 0 ⟨⟨hasked.csN, hasked.count, ?_, Serial.received_zero _⟩, ?_,
      hasked.clk.trans hclk, hasked.sent⟩ (hstate.trans hreturn) ?_ (.inl ⟨rfl, rfl⟩) (by decide)
    · refine Serial.Received.word (n := 0) hasked.shift ?_
      intro j _
      rw [Nat.zero_add]
      rfl
    · rw [hcounter]
      rfl
    · exact ⟨by rw [hnum]; rfl, fun j hj ↦ absurd hj (Nat.not_lt_zero j),
        hasked.enable, hasked.next⟩

theorem sendLow_stage (hrst : i.rstN = true) {n r last : ℕ} (hasked : Asked p x n)
    (hstate : x.core.state = .bootSend) (hcounter : x.core.flashCounter = 1)
    (hnum : x.core.flashNumBitsToSend.toNat = r) (hlast : n + 1 + r = last) (hle : r < 24)
    (hshort : last ≤ 32) (hclk : x.core.flashClk = false)
    (hmosi : x.core.flashMosi = commandBit p n)
    (hloaded : Serial.Loaded x.core.flashDataToSend (commandBit p) (n + 1) r)
    (hreturns : Returns x.core last) : Stage p memory (step p memory i x) 0 := by
  have hfsm : Core.fsm p (coreInput i x) x.core = Core.bootSend x.core := by
    rw [Core.fsm, hstate]
  have hcount : x.flash.count < 32 := by
    rw [hasked.count]
    omega
  rw [step_eq hrst hfsm]
  unfold Core.bootSend
  rw [if_neg (by rw [hcounter]; decide)]
  dsimp only
  rw [hasked.csN, SpiFlash.observe_rising (hasked.clk.trans hclk) hcount, hmosi]
  have hreceived := hasked.shift.next
  have hcount' : x.flash.count + 1 = n + 1 := congrArg (· + 1) hasked.count
  cases r with
  | zero =>
      have hzero : x.core.flashNumBitsToSend = 0 := BitVec.eq_of_toNat_eq hnum
      obtain rfl : n + 1 = last := hlast
      refine sent_stage ⟨⟨hasked.enable, hasked.next, rfl, hasked.sent⟩, rfl, hcount', hreceived⟩
        rfl rfl hreturns ?_
      exact if_pos hzero
  | succ r =>
      have hne : x.core.flashNumBitsToSend ≠ 0 := by
        intro hzero
        rw [hzero] at hnum
        exact absurd hnum (Nat.succ_ne_zero r).symm
      refine .sendHigh (n + 1) (r + 1) last rfl
        ⟨⟨hasked.enable, hasked.next, rfl, hasked.sent⟩, rfl, hcount', hreceived⟩ ?_ rfl hnum
        (Nat.succ_pos r) hlast hle.le hloaded hreturns
      exact (if_neg hne).trans hstate

/-! ## Data -/

theorem getLsbD_zero_of_even {c : Word} {m : ℕ} (h : c.toNat = 2 * m) : c.getLsbD 0 = false := by
  rw [BitVec.getLsbD, h, Nat.testBit_zero]
  simp

theorem getLsbD_zero_of_odd {c : Word} {m : ℕ} (h : c.toNat = 2 * m + 1) :
    c.getLsbD 0 = true := by
  rw [BitVec.getLsbD, h, Nat.testBit_zero]
  simp [Nat.add_mod]

/-- At every eighth bit a byte is complete. -/
theorem byteEnd_iff {c : Word} {m : ℕ} (h : c.toNat = 2 * m) :
    (c.extractLsb' 0 4 = 0 ∧ c > 0) ↔ m % 8 = 0 ∧ 0 < m := by
  have hlow : c.extractLsb' 0 4 = 0 ↔ m % 8 = 0 := by
    rw [← BitVec.toNat_inj, BitVec.extractLsb'_toNat, h]
    simp only [Nat.shiftRight_zero]
    change 2 * m % 16 = 0 ↔ m % 8 = 0
    omega
  have hpos : c > 0 ↔ 0 < m := by
    rw [gt_iff_lt, BitVec.lt_def, h]
    change 0 < 2 * m ↔ 0 < m
    omega
  rw [hlow, hpos]

/-- A bit is taken from the line. -/
theorem low_stage (hrst : i.rstN = true) {m : ℕ} (hlow : Low p memory x m)
    (hstate : x.core.state = .bootReadData)
    (hstored : Stored p memory x k (m / 8 - 4 * k)) (hfrom : 32 * k ≤ m)
    (hlt : m < 32 * k + 32) (hbound : m < 2 ^ 30) : Stage p memory (step p memory i x) k := by
  have hfsm : Core.fsm p (coreInput i x) x.core = Core.bootReadData (coreInput i x) x.core := by
    rw [Core.fsm, hstate]
  rw [step_eq hrst hfsm]
  unfold Core.bootReadData
  rw [if_neg (by rw [getLsbD_zero_of_odd hlow.counter]; decide)]
  dsimp only
  rw [hlow.csN, SpiFlash.observe_rising_full hlow.clk hlow.count]
  refine .high (m + 1) ⟨⟨rfl, hlow.count, hlow.shift, ?_⟩, ?_, rfl, hlow.sent⟩ hstate
    ⟨hstored.num, hstored.bytes, hstored.enable, hstored.next⟩ (.inr (by omega)) hlt
  · change Serial.Received (x.core.flashCurrentByteOut.extractLsb' 0 7 ++
      BitVec.ofBool x.flash.miso) _ _
    rw [Serial.append_ofBool, hlow.miso]
    exact hlow.received.next
  · have hcounter := hlow.counter
    change (x.core.flashCounter + 1).toNat = 2 * (m + 1)
    bv_omega

theorem Stored.store {n : ℕ} (h : Stored p memory x k n)
    (hbyte : x.core.flashCurrentByteOut = flashByte p memory (4 * k + n)) (hn : n ≤ 3) :
    (x.core.flashCurrentByteNum + 1).toNat = n + 1 ∧
      ∀ i < n + 1, Function.update x.core.flashDataOut x.core.flashCurrentByteNum.toNat
        x.core.flashCurrentByteOut i = flashByte p memory (4 * k + i) := by
  refine ⟨?_, ?_⟩
  · have hnum := h.num
    bv_omega
  · intro i hi
    rw [h.num]
    rcases Nat.lt_succ_iff_lt_or_eq.mp hi with hlt | rfl
    · rw [Function.update_of_ne hlt.ne]
      exact h.bytes i hlt
    · rw [Function.update_self]
      exact hbyte

/-- The clock falls; after a byte the core stores it. -/
theorem high_stage (hrst : i.rstN = true) {m : ℕ} (hhigh : High p memory x m)
    (hstate : x.core.state = .bootReadData)
    (hstored : Stored p memory x k ((m - 1) / 8 - 4 * k))
    (hfrom : m = 0 ∧ k = 0 ∨ 32 * k < m) (hle : m ≤ 32 * k + 32) (hbound : m < 2 ^ 30) :
    Stage p memory (step p memory i x) k := by
  have hfsm : Core.fsm p (coreInput i x) x.core = Core.bootReadData (coreInput i x) x.core := by
    rw [Core.fsm, hstate]
  have hcounter : (x.core.flashCounter + 1).toNat = 2 * m + 1 := by
    have hcounter := hhigh.counter
    bv_omega
  rw [step_eq hrst hfsm]
  unfold Core.bootReadData
  rw [if_pos (getLsbD_zero_of_even hhigh.counter)]
  by_cases hend : m % 8 = 0 ∧ 0 < m
  · obtain ⟨q, rfl⟩ : ∃ q, m = 8 * (q + 1) := ⟨m / 8 - 1, by omega⟩
    obtain ⟨n, rfl⟩ : ∃ n, q = 4 * k + n := ⟨q - 4 * k, by omega⟩
    have hthree : n ≤ 3 := by omega
    have hindex : (8 * (4 * k + n + 1) - 1) / 8 - 4 * k = n := by omega
    rw [hindex] at hstored
    have hstored' := hstored.store hhigh.received.byte hthree
    rw [if_pos ((byteEnd_iff hhigh.counter).mpr hend)]
    dsimp only
    rw [hhigh.csN, SpiFlash.observe_falling hhigh.clk hhigh.count hhigh.shift, hhigh.sent]
    by_cases hlast : x.core.flashCurrentByteNum = 3
    · have hn : n = 3 := by
        rw [← hstored.num, hlast]
        rfl
      subst hn
      have hword : 8 * (4 * k + 3 + 1) = 32 * k + 32 := by omega
      rw [hword] at hcounter ⊢
      refine .startWrite ⟨⟨rfl, hhigh.count, hhigh.shift, hword ▸ hhigh.received⟩, hcounter, rfl,
        rfl, rfl, rfl⟩ (if_pos hlast) ?_
      exact ⟨hstored'.1, hstored'.2, hstored.enable, hstored.next⟩
    · have hn : n ≠ 3 := by
        intro hn
        refine hlast (BitVec.eq_of_toNat_eq ?_)
        rw [hstored.num, hn]
        rfl
      have hindex' : 8 * (4 * k + n + 1) / 8 - 4 * k = n + 1 := by omega
      refine .low _ ⟨⟨rfl, hhigh.count, hhigh.shift, hhigh.received⟩, hcounter, rfl, rfl, rfl, rfl⟩
        ((if_neg hlast).trans hstate) ?_ (by omega) (by omega)
      rw [hindex']
      exact ⟨hstored'.1, hstored'.2, hstored.enable, hstored.next⟩
  · rw [if_neg ((byteEnd_iff hhigh.counter).not.mpr hend)]
    dsimp only
    rw [hhigh.csN, SpiFlash.observe_falling hhigh.clk hhigh.count hhigh.shift, hhigh.sent]
    have hsame : (m - 1) / 8 - 4 * k = m / 8 - 4 * k := by omega
    rw [hsame] at hstored
    exact .low m ⟨⟨rfl, hhigh.count, hhigh.shift, hhigh.received⟩, hcounter, rfl, rfl, rfl, rfl⟩
      hstate ⟨hstored.num, hstored.bytes, hstored.enable, hstored.next⟩ (by omega) (by omega)

/-! ## Writes -/

theorem startWrite_stage (hrst : i.rstN = true) (hlow : Low p memory x (32 * k + 32))
    (hstate : x.core.state = .bootStartWrite) (hstored : Stored p memory x k 4) :
    Stage p memory (step p memory i x) k := by
  have hfsm : Core.fsm p (coreInput i x) x.core = Core.bootStartWrite (coreInput i x) x.core := by
    rw [Core.fsm, hstate]
  rw [step_eq hrst hfsm]
  unfold Core.bootStartWrite
  split
  · rw [hlow.csN, hlow.coreClk, SpiFlash.observe_same hlow.clk]
    exact .startWrite ⟨⟨rfl, hlow.count, hlow.shift, hlow.received⟩, hlow.counter, rfl, hlow.clk,
      hlow.sent, hlow.miso⟩ hstate
      ⟨hstored.num, hstored.bytes, hstored.enable, hstored.next⟩
  · dsimp only
    rw [hlow.csN, hlow.coreClk, SpiFlash.observe_same hlow.clk]
    refine .write ⟨⟨rfl, hlow.count, hlow.shift, hlow.received⟩, hlow.counter, rfl, hlow.clk,
      hlow.sent, hlow.miso⟩ rfl rfl ?_ ?_
    · have hword : Bytes.ofBytes x.core.flashDataOut =
          Bytes.ofBytes fun i ↦ flashByte p memory (4 * k + i) := by
        unfold Bytes.ofBytes
        rw [hstored.bytes 0 (by decide), hstored.bytes 1 (by decide), hstored.bytes 2 (by decide),
          hstored.bytes 3 (by decide)]
      simp only [write, wordWrite, hword, hstored.next]
    · change x.core.ramioAddressNext + 4 = _
      rw [hstored.next]
      bv_omega

theorem write_wait (hrst : i.rstN = true) (hlow : Low p memory x (32 * k + 32))
    (hstate : x.core.state = .bootWrite) (henable : x.core.ramioEnable = true)
    (hwrite : write x = wordWrite p memory k)
    (hnext : x.core.ramioAddressNext = BitVec.ofNat 32 (4 * (k + 1))) (hbusy : i.ramioBusy = true) :
    Stage p memory (step p memory i x) k := by
  have hfsm : Core.fsm p (coreInput i x) x.core = x.core := by
    rw [Core.fsm, hstate]
    exact if_pos hbusy
  rw [step_eq hrst hfsm, hlow.csN, hlow.coreClk, SpiFlash.observe_same hlow.clk]
  exact .write ⟨⟨rfl, hlow.count, hlow.shift, hlow.received⟩, hlow.counter, rfl, hlow.clk,
    hlow.sent, hlow.miso⟩ hstate henable hwrite hnext

/-- The word is written; the transfer goes on or the CPU starts. -/
theorem write_done (hrst : i.rstN = true) (hlow : Low p memory x (32 * k + 32))
    (hstate : x.core.state = .bootWrite)
    (hnext : x.core.ramioAddressNext = BitVec.ofNat 32 (4 * (k + 1)))
    (hbusy : i.ramioBusy = false) (hbound : 4 * (k + 1) < 2 ^ 32) :
    if 4 * (k + 1) < p.flashTransferByteCount.toNat then
      Stage p memory (step p memory i x) (k + 1)
    else Booted (step p memory i x) := by
  have hfsm : Core.fsm p (coreInput i x) x.core = Core.bootWrite p (coreInput i x) x.core := by
    rw [Core.fsm, hstate]
  have hmore : x.core.ramioAddressNext < p.flashTransferByteCount ↔
      4 * (k + 1) < p.flashTransferByteCount.toNat := by
    rw [hnext, BitVec.lt_def, BitVec.toNat_ofNat, Nat.mod_eq_of_lt hbound]
  have hfree : ¬ (coreInput i x).ramioBusy = true := by
    change ¬ i.ramioBusy = true
    rw [hbusy]
    exact Bool.false_ne_true
  rw [step_eq hrst hfsm]
  unfold Core.bootWrite
  rw [if_neg hfree]
  split
  · next hcount =>
      rw [if_pos (hmore.mpr hcount)]
      dsimp only
      rw [hlow.csN, hlow.coreClk, SpiFlash.observe_same hlow.clk]
      refine .low (32 * k + 32) ⟨⟨rfl, hlow.count, hlow.shift, hlow.received⟩, hlow.counter, rfl,
        hlow.clk, hlow.sent, hlow.miso⟩ rfl ?_ (by omega) (by omega)
      have hzero : (32 * k + 32) / 8 - 4 * (k + 1) = 0 := by omega
      rw [hzero]
      exact ⟨rfl, fun j hj ↦ absurd hj (Nat.not_lt_zero j), rfl, hnext⟩
  · next hcount =>
      rw [if_neg (hmore.not.mpr hcount)]
      exact ⟨rfl, rfl, rfl, rfl, rfl, rfl, rfl⟩

theorem Stage.step (h : Stage p memory x k) (hrst : i.rstN = true)
    (hk : 4 * k < p.flashTransferByteCount.toNat)
    (hcount : p.flashTransferByteCount.toNat ≤ 2 ^ 24) :
    accepts i x = false ∧ Stage p memory (Boot.step p memory i x) k ∨
      accepts i x = true ∧ Boot.write x = wordWrite p memory k ∧
        if 4 * (k + 1) < p.flashTransferByteCount.toNat then
          Stage p memory (Boot.step p memory i x) (k + 1)
        else Booted (Boot.step p memory i x) := by
  cases h with
  | init hk hquiet hstate hcsN hcount hclk =>
      subst hk
      exact .inl ⟨accepts_of_disabled hquiet.enable,
        bootInit_stage hrst hquiet hstate hcsN hclk⟩
  | loadCommand hk hquiet hstate hcount hclk hcounter =>
      subst hk
      exact .inl ⟨accepts_of_disabled hquiet.enable,
        loadCommand_stage hrst hquiet hstate hcount hclk hcounter⟩
  | sendHigh n r last hk hasked hstate hcounter hnum hpos hlast hle hloaded hreturns =>
      subst hk
      exact .inl ⟨accepts_of_disabled hasked.enable, sendHigh_stage hrst hasked hstate hcounter hnum
        hpos hlast hle hreturns.le hloaded hreturns⟩
  | sendLow n r last hk hasked hstate hcounter hnum hlast hle hclk hmosi hloaded hreturns =>
      subst hk
      exact .inl ⟨accepts_of_disabled hasked.enable, sendLow_stage hrst hasked hstate hcounter hnum
        hlast hle hreturns.le hclk hmosi hloaded hreturns⟩
  | loadAddress hk hasked hstate hcounter =>
      subst hk
      exact .inl ⟨accepts_of_disabled hasked.enable,
        loadAddress_stage hrst hasked hstate hcounter⟩
  | high m hhigh hstate hstored hfrom hle =>
      exact .inl ⟨accepts_of_disabled hstored.enable,
        high_stage hrst hhigh hstate hstored hfrom hle (by omega)⟩
  | low m hlow hstate hstored hfrom hlt =>
      exact .inl ⟨accepts_of_disabled hstored.enable,
        low_stage hrst hlow hstate hstored hfrom hlt (by omega)⟩
  | startWrite hlow hstate hstored =>
      exact .inl ⟨accepts_of_disabled hstored.enable, startWrite_stage hrst hlow hstate hstored⟩
  | write hlow hstate henable hwrite hnext =>
      have htype : x.core.ramioWriteType = 0b11 := congrArg Prod.fst hwrite
      cases hbusy : i.ramioBusy with
      | true =>
          refine .inl ⟨?_, write_wait hrst hlow hstate henable hwrite hnext hbusy⟩
          simp [accepts, hbusy]
      | false =>
          refine .inr ⟨?_, hwrite, write_done hrst hlow hstate hnext hbusy (by omega)⟩
          simp [accepts, henable, htype, hbusy]

end Steps

end TangNano.Boot
