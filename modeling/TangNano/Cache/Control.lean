import TangNano.Cache.Address
import TangNano.Library.Clocked

/-!
# Control states of the cache

Every reachable state of the machine has one of nine shapes.  Each shape fixes
which memories the burst registers gate, which command is on the wires and
what the pending request looks like; the client holding its request while
`busy` is what carries a shape from one clock edge to the next.
-/

namespace TangNano.Cache

variable (p : Params)

/-! ## Runs -/

/-- The request wires are the same in two cycles. -/
def SameRequest (i j : Input) : Prop :=
  j.enable = i.enable ∧ j.address = i.address ∧ j.dataIn = i.dataIn ∧
    j.writeEnable = i.writeEnable

instance (i j : Input) : Decidable (SameRequest i j) := by
  unfold SameRequest
  infer_instance

/-- The state of the cache in cycle `n`. -/
abbrev run (start : Regs) (input : ℕ → Input) (n : ℕ) : Regs :=
  Clocked.state (step p) start input n

/-- Up to cycle `n` the cache is not reset and the client holds its request
while the cache is busy. -/
structure Client (start : Regs) (input : ℕ → Input) (n : ℕ) : Prop where
  running : ∀ m ≤ n, (input m).rstN = true
  hold : ∀ m < n, busy p (input m) (run p start input m) = true →
    SameRequest (input m) (input (m + 1))

variable {p} in
theorem Client.mono {start : Regs} {input : ℕ → Input} {m n : ℕ} (h : Client p start input n)
    (hmn : m ≤ n) : Client p start input m :=
  ⟨fun k hk ↦ h.running k (hk.trans hmn), fun k hk ↦ h.hold k (hk.trans_le hmn)⟩

/-- A state left behind by a clock edge with `rst_n` low, entered with no
command on the wires. -/
def AfterReset (s : Regs) : Prop :=
  ∃ i s₀, i.rstN = false ∧ s₀.iSdrcCmdEn = false ∧ s = step p i s₀

/-- Registers before the reset: nothing cached, nothing on the wires. -/
def blankRegs : Regs where
  tag := fun _ ↦ 0
  column := fun _ _ ↦ 0
  burstIsReading := false
  burstDataIn := 0
  burstWriteEnable := fun _ ↦ false
  burstTagWriteEnable := false
  burstIsWriting := false
  refreshCycleCounter := 0
  counter := 0
  state := .idle
  iSdrcCmdEn := false
  iSdrcCmd := 0
  iSdrcAddr := 0
  iSdrcData := 0
  iSdrcDataLen := 0

def resetInput : Input := ⟨false, false, 0, 0, 0, 0, false⟩

/-- The small cache, empty and reset. -/
def resetRegs : Regs := step smallParams resetInput blankRegs

theorem afterReset_resetRegs : AfterReset smallParams resetRegs :=
  ⟨resetInput, blankRegs, rfl, rfl, rfl⟩

/-! ## Burst registers -/

/-- The gates of the memories during a burst. -/
structure Gates (s : Regs) (reading : Bool) (column : ℕ → Bool) (tag : Bool) : Prop where
  reading_eq : s.burstIsReading = reading
  column_eq : s.burstWriteEnable = column
  tag_eq : s.burstTagWriteEnable = tag
  writing_eq : s.burstIsWriting = false

def shut : ℕ → Bool := fun _ ↦ false

/-- Only the gate of column `c` is open. -/
def only (c : ℕ) : ℕ → Bool := fun k ↦ decide (k = c)

theorem update_shut (c : ℕ) : Function.update shut c true = only c := by
  funext k
  by_cases h : k = c <;> simp [shut, only, h]

theorem update_only_self (c : ℕ) : Function.update (only c) c false = shut := by
  funext k
  by_cases h : k = c <;> simp [shut, only, h]

/-! ## Shapes -/

/-- The request is enabled and its line is not cached. -/
structure Missing (i : Input) (s : Regs) : Prop where
  enable : i.enable = true
  miss : cacheLineHit p i s = false

/-- RAM address of the line to be evicted for the request. -/
def victim (i : Input) (s : Regs) : ℕ :=
  lineAddress p (cachedTag p s (lineIx p i.address)) (lineIx p i.address)

/-- RAM address of the requested line. -/
def wanted (i : Input) : ℕ :=
  lineAddress p (addressTag p i.address) (lineIx p i.address)

/-- A command with its address on the wires. -/
structure Presents (s : Regs) (cmd : BitVec 3) (addr : ℕ) : Prop where
  en : s.iSdrcCmdEn = true
  cmd_eq : s.iSdrcCmd = cmd
  addr_eq : s.iSdrcAddr = addr

structure AtIdle (s : Regs) : Prop where
  state_eq : s.state = .idle
  gates : Gates s false shut false
  en : s.iSdrcCmdEn = false

structure AtRefresh (s : Regs) : Prop where
  state_eq : s.state = .refresh
  gates : Gates s false shut false
  cmd : s.iSdrcCmdEn = true → s.iSdrcCmd = cmdAutoRefresh

/-- An eviction is under way: the line to be replaced is dirty. -/
structure Evicting (i : Input) (s : Regs) : Prop extends Missing p i s where
  gates : Gates s false shut false
  dirty : lineDirty p s (lineIx p i.address) = true

structure AtWrite1 (i : Input) (s : Regs) : Prop extends Evicting p i s where
  state_eq : s.state = .write1
  cmd : s.iSdrcCmdEn = true → Presents s cmdActive (victim p i s)

/-- Column `counter - 1` is on the data wires. -/
structure AtWrite2 (i : Input) (s : Regs) : Prop extends Evicting p i s where
  state_eq : s.state = .write2
  counter_pos : 1 ≤ s.counter
  counter_lt : s.counter < p.columnCount
  first : s.counter = 1 →
    Presents s cmdWrite (victim p i s) ∧ s.iSdrcDataLen = p.columnCount - 1
  later : s.counter ≠ 1 → s.iSdrcCmdEn = false
  data : s.iSdrcData = columnDataOut p i s (s.counter - 1)

structure AtWrite3 (i : Input) (s : Regs) : Prop extends Evicting p i s where
  state_eq : s.state = .write3
  en : s.iSdrcCmdEn = false
  data : s.iSdrcData = columnDataOut p i s (p.columnCount - 1)

structure AtRead1 (i : Input) (s : Regs) : Prop extends Missing p i s where
  state_eq : s.state = .read1
  gates : Gates s true shut false
  cmd : s.iSdrcCmdEn = true → Presents s cmdActive (wanted p i)

/-- The READ command was presented `counter` cycles ago. -/
structure AtRead2 (i : Input) (s : Regs) : Prop extends Missing p i s where
  state_eq : s.state = .read2
  gates : Gates s true shut false
  counter_le : s.counter ≤ p.waitsPriorToDataAtRead
  first : s.counter = 0 →
    Presents s cmdRead (wanted p i) ∧ s.iSdrcDataLen = p.columnCount - 1
  later : s.counter ≠ 0 → s.iSdrcCmdEn = false

/-- Column `counter - 1` is being written while word `counter` arrives. -/
structure AtRead3 (i : Input) (s : Regs) : Prop extends Missing p i s where
  state_eq : s.state = .read3
  gates : Gates s true (only (s.counter - 1)) false
  counter_pos : 1 ≤ s.counter
  counter_lt : s.counter < p.columnCount
  en : s.iSdrcCmdEn = false

structure AtRead4 (i : Input) (s : Regs) : Prop extends Missing p i s where
  state_eq : s.state = .read4
  gates : Gates s true (only (p.columnCount - 1)) true
  en : s.iSdrcCmdEn = false

/-- The shapes of a reachable state `s` in a cycle with input `i`. -/
inductive Control (i : Input) (s : Regs) : Prop
  | idle (h : AtIdle s)
  | refresh (h : AtRefresh s)
  | write1 (h : AtWrite1 p i s)
  | write2 (h : AtWrite2 p i s)
  | write3 (h : AtWrite3 p i s)
  | read1 (h : AtRead1 p i s)
  | read2 (h : AtRead2 p i s)
  | read3 (h : AtRead3 p i s)
  | read4 (h : AtRead4 p i s)

/-- The shape of each state. -/
def AtState (i : Input) (s : Regs) : StateE → Prop
  | .idle => AtIdle s
  | .refresh => AtRefresh s
  | .write1 => AtWrite1 p i s
  | .write2 => AtWrite2 p i s
  | .write3 => AtWrite3 p i s
  | .read1 => AtRead1 p i s
  | .read2 => AtRead2 p i s
  | .read3 => AtRead3 p i s
  | .read4 => AtRead4 p i s

theorem Control.atState {i : Input} {s : Regs} (h : Control p i s) {state : StateE}
    (hstate : s.state = state) : AtState p i s state := by
  subst hstate
  cases h with
  | idle h | refresh h | write1 h | write2 h | write3 h | read1 h | read2 h | read3 h | read4 h =>
      rw [h.state_eq]
      exact h

theorem step_of_running {i : Input} (s : Regs) (hrun : i.rstN = true) :
    step p i s = { fsm p i s with tag := tagNext p i s, column := columnNext p i s } := by
  simp [step, hrun]

theorem Control.of_afterReset {s : Regs} (h : AfterReset p s) (i : Input) :
    Control p i s := by
  obtain ⟨i₀, s₀, hreset, hen, rfl⟩ := h
  refine .idle ⟨?_, ⟨?_, ?_, ?_, ?_⟩, ?_⟩ <;> simp [step, hreset, reset, hen]
  rfl

/-! ## The memories under each gate -/

section Memory

variable {p} {i : Input} {s : Regs}

theorem tagNext_of_shut (h : tagWriteEnable p i s = false) : tagNext p i s = s.tag := by
  simp [tagNext, h]

theorem columnNext_of_shut (h : ∀ c, columnWriteEnable p i s c = 0) :
    columnNext p i s = s.column := by
  funext c
  simp [columnNext, h c]

/-- A miss outside a refill writes neither memory. -/
theorem memory_of_miss (hg : Gates s false shut false) (hm : cacheLineHit p i s = false) :
    tagNext p i s = s.tag ∧ columnNext p i s = s.column := by
  constructor
  · apply tagNext_of_shut
    simp [tagWriteEnable, hg.reading_eq, hg.writing_eq, hm]
  · apply columnNext_of_shut
    intro c
    simp [columnWriteEnable, hg.reading_eq, hg.writing_eq, hm]

/-- A refill with all gates shut writes neither memory. -/
theorem memory_of_waiting (hg : Gates s true shut false) :
    tagNext p i s = s.tag ∧ columnNext p i s = s.column := by
  constructor
  · apply tagNext_of_shut
    simp [tagWriteEnable, hg.reading_eq, hg.tag_eq]
  · apply columnNext_of_shut
    intro c
    simp [columnWriteEnable, hg.reading_eq, hg.column_eq, shut]

/-- A refill writes `burst_data_in` into the column whose gate is open. -/
theorem columnNext_of_filling {c₀ : ℕ} {tag : Bool} (hg : Gates s true (only c₀) tag) :
    columnNext p i s = Function.update s.column c₀
      (Function.update (s.column c₀) (lineIx p i.address) s.burstDataIn) := by
  funext c
  by_cases h : c = c₀
  · subst h
    simp [columnNext, columnWriteEnable, hg.reading_eq, hg.column_eq, only]
  · simp [columnNext, columnWriteEnable, hg.reading_eq, hg.column_eq, only, h]

theorem tagNext_of_filling {c₀ : ℕ} (hg : Gates s true (only c₀) false) :
    tagNext p i s = s.tag := by
  apply tagNext_of_shut
  simp [tagWriteEnable, hg.reading_eq, hg.tag_eq]

/-- The last cycle of a refill stores the tag of the requested line, clean. -/
theorem tagNext_of_filled {c₀ : ℕ} (hg : Gates s true (only c₀) true) :
    tagNext p i s = Function.update s.tag (lineIx p i.address)
      (tagWord p false (addressTag p i.address)) := by
  simp [tagNext, tagWriteEnable, tagDataIn, hg.reading_eq, hg.tag_eq]

end Memory

/-! ## One clock edge -/

section Congr

variable {p} {i j : Input} {s s' : Regs}

theorem SameRequest.lineIx_eq (h : SameRequest i j) :
    lineIx p j.address = lineIx p i.address := by rw [h.2.1]

theorem cacheLineHit_congr (htag : s'.tag = s.tag) (h : SameRequest i j) :
    cacheLineHit p j s' = cacheLineHit p i s := by
  simp [cacheLineHit, lineValid, cachedTag, htag, h.2.1]

theorem Missing.congr (hm : Missing p i s) (htag : s'.tag = s.tag) (h : SameRequest i j) :
    Missing p j s' :=
  ⟨h.1.trans hm.enable, (cacheLineHit_congr htag h).trans hm.miss⟩

theorem Missing.busy (hm : Missing p i s) : busy p i s = true := by
  simp [Cache.busy, hm.enable, hm.miss]

theorem lineDirty_congr (htag : s'.tag = s.tag) (h : SameRequest i j) :
    lineDirty p s' (lineIx p j.address) = lineDirty p s (lineIx p i.address) := by
  simp [lineDirty, htag, h.2.1]

theorem victim_congr (htag : s'.tag = s.tag) (h : SameRequest i j) :
    victim p j s' = victim p i s := by
  simp [victim, cachedTag, htag, h.2.1]

theorem wanted_congr (h : SameRequest i j) : wanted p j = wanted p i := by
  simp [wanted, h.2.1]

theorem columnDataOut_congr (hcolumn : s'.column = s.column) (h : SameRequest i j) (c : ℕ) :
    columnDataOut p j s' c = columnDataOut p i s c := by
  simp [columnDataOut, hcolumn, h.2.1]

end Congr

theorem counterSucc_eq {s : Regs} (h : s.counter + 1 < p.maxCounterValue) :
    counterSucc p s = s.counter + 1 := by
  apply Nat.mod_eq_of_lt
  exact h.trans_le (Nat.le_pow_clog (by decide) _)

theorem columnCount_le_max : p.columnCount ≤ p.maxCounterValue := by
  unfold Params.maxCounterValue
  split <;> omega

theorem waits_lt_max : p.waitsPriorToDataAtRead < p.maxCounterValue := by
  unfold Params.maxCounterValue
  split <;> omega

/-- What one clock edge does, with the source shape it happens in. -/
inductive Edge (i : Input) (s : Regs) : Regs → Prop
  | idleRefresh (h : AtIdle s) (due : s.refreshCycleCounter > p.autoRefreshPeriodCycles) :
      Edge i s { s with
        refreshCycleCounter := refreshCycleCounterSucc p s
        iSdrcCmdEn := true
        iSdrcCmd := cmdAutoRefresh
        state := .refresh
        tag := tagNext p i s
        column := columnNext p i s }
  | idleEvict (h : AtIdle s) (early : s.refreshCycleCounter ≤ p.autoRefreshPeriodCycles)
      (pending : Missing p i s) (dirty : lineDirty p s (lineIx p i.address) = true) :
      Edge i s { s with
        refreshCycleCounter := refreshCycleCounterSucc p s
        iSdrcCmdEn := true
        iSdrcCmd := cmdActive
        iSdrcAddr := victim p i s
        state := .write1 }
  | idleFill (h : AtIdle s) (early : s.refreshCycleCounter ≤ p.autoRefreshPeriodCycles)
      (pending : Missing p i s) (clean : lineDirty p s (lineIx p i.address) = false) :
      Edge i s { s with
        refreshCycleCounter := refreshCycleCounterSucc p s
        iSdrcCmdEn := true
        iSdrcCmd := cmdActive
        iSdrcAddr := wanted p i
        burstIsReading := true
        state := .read1 }
  | idleServe (h : AtIdle s) (early : s.refreshCycleCounter ≤ p.autoRefreshPeriodCycles)
      (free : busy p i s = false) :
      Edge i s { s with
        refreshCycleCounter := refreshCycleCounterSucc p s
        tag := tagNext p i s
        column := columnNext p i s }
  | refreshDone (h : AtRefresh s) (ack : i.oSdrcCmdAck = true) :
      Edge i s { s with
        iSdrcCmdEn := false
        refreshCycleCounter := 0
        state := .idle
        tag := tagNext p i s
        column := columnNext p i s }
  | refreshWait (h : AtRefresh s) (ack : i.oSdrcCmdAck = false) :
      Edge i s { s with
        iSdrcCmdEn := false
        tag := tagNext p i s
        column := columnNext p i s }
  | write1Done (h : AtWrite1 p i s) (ack : i.oSdrcCmdAck = true) :
      Edge i s { s with
        iSdrcCmdEn := true
        iSdrcCmd := cmdWrite
        iSdrcAddr := victim p i s
        iSdrcDataLen := p.columnCount - 1
        iSdrcData := columnDataOut p i s 0
        counter := 1
        state := .write2 }
  | write1Wait (h : AtWrite1 p i s) (ack : i.oSdrcCmdAck = false) :
      Edge i s { s with iSdrcCmdEn := false }
  | write2Next (h : AtWrite2 p i s) (more : s.counter + 1 < p.columnCount) :
      Edge i s { s with
        iSdrcCmdEn := false
        iSdrcData := columnDataOut p i s s.counter
        counter := s.counter + 1 }
  | write2Last (h : AtWrite2 p i s) (last : s.counter + 1 = p.columnCount) :
      Edge i s { s with
        iSdrcCmdEn := false
        iSdrcData := columnDataOut p i s s.counter
        counter := counterSucc p s
        state := .write3 }
  | write3Done (h : AtWrite3 p i s) (ack : i.oSdrcCmdAck = true) :
      Edge i s { s with
        burstIsReading := true
        iSdrcCmdEn := true
        iSdrcCmd := cmdActive
        iSdrcAddr := wanted p i
        state := .read1 }
  | write3Wait (h : AtWrite3 p i s) (ack : i.oSdrcCmdAck = false) : Edge i s s
  | read1Done (h : AtRead1 p i s) (ack : i.oSdrcCmdAck = true) :
      Edge i s { s with
        iSdrcCmdEn := true
        iSdrcCmd := cmdRead
        iSdrcAddr := wanted p i
        iSdrcDataLen := p.columnCount - 1
        counter := 0
        state := .read2 }
  | read1Wait (h : AtRead1 p i s) (ack : i.oSdrcCmdAck = false) :
      Edge i s { s with iSdrcCmdEn := false }
  | read2Done (h : AtRead2 p i s) (arrived : s.counter = p.waitsPriorToDataAtRead) :
      Edge i s { s with
        iSdrcCmdEn := false
        burstWriteEnable := only 0
        burstDataIn := i.oSdrcData
        counter := 1
        state := .read3 }
  | read2Wait (h : AtRead2 p i s) (early : s.counter < p.waitsPriorToDataAtRead) :
      Edge i s { s with iSdrcCmdEn := false, counter := s.counter + 1 }
  | read3Next (h : AtRead3 p i s) (more : s.counter + 1 < p.columnCount) :
      Edge i s { s with
        burstWriteEnable := only s.counter
        burstDataIn := i.oSdrcData
        counter := s.counter + 1
        column := columnNext p i s }
  | read3Last (h : AtRead3 p i s) (last : s.counter + 1 = p.columnCount) :
      Edge i s { s with
        burstWriteEnable := only s.counter
        burstDataIn := i.oSdrcData
        burstTagWriteEnable := true
        counter := counterSucc p s
        state := .read4
        column := columnNext p i s }
  | read4Done (h : AtRead4 p i s) :
      Edge i s { s with
        burstWriteEnable := shut
        burstIsReading := false
        burstTagWriteEnable := false
        state := .idle
        tag := tagNext p i s
        column := columnNext p i s }

/-- `COLUMN_COUNT - 1` fits the eight bits of `I_sdrc_data_len`. -/
theorem dataLen_mod : (p.columnCount - 1) % 2 ^ 8 = p.columnCount - 1 := by
  have hcount := columnCount_le p
  exact Nat.mod_eq_of_lt (by omega)

section EdgeOfShape

variable {p} {i : Input} {s : Regs}

theorem AtIdle.edge (h : AtIdle s) (hrun : i.rstN = true) : Edge p i s (step p i s) := by
  have hfsm : fsm p i s = fsmIdle p i s := by simp only [fsm, h.state_eq]
  rw [step_of_running p s hrun, hfsm]
  by_cases hdue : s.refreshCycleCounter > p.autoRefreshPeriodCycles
  · simp only [fsmIdle, if_pos hdue]
    exact .idleRefresh h hdue
  · simp only [fsmIdle, if_neg hdue]
    cases hbusy : busy p i s with
    | false =>
        have hfree : ¬(i.enable && !cacheLineHit p i s) = true := by
          simpa [busy] using hbusy
        simp only [if_neg hfree]
        exact .idleServe h (Nat.not_lt.mp hdue) hbusy
    | true =>
        have hmiss : (i.enable && !cacheLineHit p i s) = true := hbusy
        have hpending : Missing p i s := by
          simp only [Bool.and_eq_true, Bool.not_eq_true'] at hmiss
          exact ⟨hmiss.1, hmiss.2⟩
        obtain ⟨htag, hcolumn⟩ := memory_of_miss h.gates hpending.miss
        simp only [if_pos hmiss, htag, hcolumn, cachedLineAddress_mod, burstLineAddress_mod]
        cases hdirty : lineDirty p s (lineIx p i.address) with
        | true =>
            simp only [if_true]
            exact .idleEvict h (Nat.not_lt.mp hdue) hpending hdirty
        | false =>
            simp only [Bool.false_eq_true, if_false]
            exact .idleFill h (Nat.not_lt.mp hdue) hpending hdirty

theorem AtRefresh.edge (h : AtRefresh s) (hrun : i.rstN = true) :
    Edge p i s (step p i s) := by
  have hfsm : fsm p i s = fsmRefresh i s := by simp only [fsm, h.state_eq]
  rw [step_of_running p s hrun, hfsm]
  cases hack : i.oSdrcCmdAck with
  | true =>
      simp only [fsmRefresh, hack, if_true]
      exact .refreshDone h hack
  | false =>
      simp only [fsmRefresh, hack, Bool.false_eq_true, if_false]
      exact .refreshWait h hack

theorem AtWrite1.edge (h : AtWrite1 p i s) (hrun : i.rstN = true) :
    Edge p i s (step p i s) := by
  obtain ⟨htag, hcolumn⟩ := memory_of_miss h.gates h.miss
  have hfsm : fsm p i s = fsmWrite1 p i s := by simp only [fsm, h.state_eq]
  rw [step_of_running p s hrun, hfsm]
  cases hack : i.oSdrcCmdAck with
  | true =>
      simp only [fsmWrite1, hack, if_true, htag, hcolumn,
        cachedLineAddress_mod, dataLen_mod]
      exact .write1Done h hack
  | false =>
      simp only [fsmWrite1, hack, Bool.false_eq_true, if_false, htag, hcolumn]
      exact .write1Wait h hack

theorem AtWrite2.edge (h : AtWrite2 p i s) (hrun : i.rstN = true) :
    Edge p i s (step p i s) := by
  obtain ⟨htag, hcolumn⟩ := memory_of_miss h.gates h.miss
  have hcount := two_le_columnCount p
  have hlt := h.counter_lt
  rw [step_of_running p s hrun]
  by_cases hlast : s.counter = p.columnCount - 1
  · simp only [fsm, h.state_eq, fsmWrite2, if_pos hlast, htag, hcolumn]
    exact .write2Last h (by omega)
  · have hmore : s.counter + 1 < p.columnCount := by omega
    have hsucc : counterSucc p s = s.counter + 1 :=
      counterSucc_eq p (hmore.trans_le (columnCount_le_max p))
    simp only [fsm, h.state_eq, fsmWrite2, if_neg hlast, htag, hcolumn, hsucc]
    have hedge := Edge.write2Next h hmore
    rwa [← h.state_eq]

theorem AtWrite3.edge (h : AtWrite3 p i s) (hrun : i.rstN = true) :
    Edge p i s (step p i s) := by
  obtain ⟨htag, hcolumn⟩ := memory_of_miss h.gates h.miss
  have hfsm : fsm p i s = fsmWrite3 p i s := by simp only [fsm, h.state_eq]
  rw [step_of_running p s hrun, hfsm]
  cases hack : i.oSdrcCmdAck with
  | true =>
      simp only [fsmWrite3, hack, if_true, htag, hcolumn,
        burstLineAddress_mod, ← h.gates.writing_eq]
      exact .write3Done h hack
  | false =>
      simp only [fsmWrite3, hack, Bool.false_eq_true, if_false, htag, hcolumn]
      exact .write3Wait h hack

theorem AtRead1.edge (h : AtRead1 p i s) (hrun : i.rstN = true) :
    Edge p i s (step p i s) := by
  obtain ⟨htag, hcolumn⟩ := memory_of_waiting (p := p) (i := i) h.gates
  have hfsm : fsm p i s = fsmRead1 p i s := by simp only [fsm, h.state_eq]
  rw [step_of_running p s hrun, hfsm]
  cases hack : i.oSdrcCmdAck with
  | true =>
      simp only [fsmRead1, hack, if_true, htag, hcolumn,
        burstLineAddress_mod, dataLen_mod]
      exact .read1Done h hack
  | false =>
      simp only [fsmRead1, hack, Bool.false_eq_true, if_false, htag, hcolumn]
      exact .read1Wait h hack

theorem AtRead2.edge (h : AtRead2 p i s) (hrun : i.rstN = true) :
    Edge p i s (step p i s) := by
  obtain ⟨htag, hcolumn⟩ := memory_of_waiting (p := p) (i := i) h.gates
  have hfsm : fsm p i s = fsmRead2 p i s := by simp only [fsm, h.state_eq]
  rw [step_of_running p s hrun, hfsm]
  by_cases harrived : s.counter = p.waitsPriorToDataAtRead
  · simp only [fsmRead2, if_pos harrived, htag, hcolumn, h.gates.column_eq,
      update_shut]
    exact .read2Done h harrived
  · have hearly : s.counter < p.waitsPriorToDataAtRead :=
      lt_of_le_of_ne h.counter_le harrived
    have hsucc : counterSucc p s = s.counter + 1 :=
      counterSucc_eq p (Nat.lt_of_le_of_lt hearly (waits_lt_max p))
    simp only [fsmRead2, if_neg harrived, htag, hcolumn, hsucc]
    exact .read2Wait h hearly

theorem AtRead3.edge (h : AtRead3 p i s) (hrun : i.rstN = true) :
    Edge p i s (step p i s) := by
  have htag : tagNext p i s = s.tag := tagNext_of_filling h.gates
  have hlt := h.counter_lt
  rw [step_of_running p s hrun]
  by_cases hlast : s.counter = p.columnCount - 1
  · simp only [fsm, h.state_eq, fsmRead3, if_pos hlast, htag, h.gates.column_eq,
      update_only_self, update_shut]
    exact .read3Last h (by omega)
  · have hmore : s.counter + 1 < p.columnCount := by omega
    have hsucc : counterSucc p s = s.counter + 1 :=
      counterSucc_eq p (hmore.trans_le (columnCount_le_max p))
    simp only [fsm, h.state_eq, fsmRead3, if_neg hlast, htag, h.gates.column_eq,
      update_only_self, update_shut, hsucc]
    have hedge := Edge.read3Next h hmore
    rwa [← h.state_eq]

theorem AtRead4.edge (h : AtRead4 p i s) (hrun : i.rstN = true) :
    Edge p i s (step p i s) := by
  rw [step_of_running p s hrun]
  simp only [fsm, h.state_eq, fsmRead4, h.gates.column_eq, update_only_self]
  exact .read4Done h

theorem Control.edge (h : Control p i s) (hrun : i.rstN = true) : Edge p i s (step p i s) := by
  cases h with
  | idle h => exact h.edge hrun
  | refresh h => exact h.edge hrun
  | write1 h => exact h.edge hrun
  | write2 h => exact h.edge hrun
  | write3 h => exact h.edge hrun
  | read1 h => exact h.edge hrun
  | read2 h => exact h.edge hrun
  | read3 h => exact h.edge hrun
  | read4 h => exact h.edge hrun

end EdgeOfShape

section Preservation

variable {p} {i j : Input} {s s' : Regs}

theorem Missing.evicting (hm : Missing p i s) (hg : Gates s' false shut false)
    (hdirty : lineDirty p s (lineIx p i.address) = true) (htag : s'.tag = s.tag)
    (hsame : SameRequest i j) : Evicting p j s' :=
  ⟨hm.congr htag hsame, hg, (lineDirty_congr htag hsame).trans hdirty⟩

/-- A held request finds the cache in one of the nine shapes again. -/
theorem Edge.control (h : Edge p i s s') (hheld : busy p i s = true → SameRequest i j) :
    Control p j s' := by
  have hcount := two_le_columnCount p
  cases h with
  | idleRefresh h due =>
      exact .refresh ⟨rfl, ⟨h.gates.1, h.gates.2, h.gates.3, h.gates.4⟩, fun _ ↦ rfl⟩
  | idleEvict h early pending dirty =>
      have hsame := hheld pending.busy
      refine .write1 ⟨pending.evicting ⟨h.gates.1, h.gates.2, h.gates.3, h.gates.4⟩ dirty rfl
        hsame, rfl, fun _ ↦ ⟨rfl, rfl, ?_⟩⟩
      exact (victim_congr rfl hsame).symm
  | idleFill h early pending clean =>
      have hsame := hheld pending.busy
      refine .read1 ⟨pending.congr rfl hsame, rfl, ⟨rfl, h.gates.2, h.gates.3, h.gates.4⟩,
        fun _ ↦ ⟨rfl, rfl, ?_⟩⟩
      exact (wanted_congr hsame).symm
  | idleServe h early free =>
      exact .idle ⟨h.state_eq, ⟨h.gates.1, h.gates.2, h.gates.3, h.gates.4⟩, h.en⟩
  | refreshDone h ack =>
      exact .idle ⟨rfl, ⟨h.gates.1, h.gates.2, h.gates.3, h.gates.4⟩, rfl⟩
  | refreshWait h ack =>
      refine .refresh ⟨h.state_eq, ⟨h.gates.1, h.gates.2, h.gates.3, h.gates.4⟩, ?_⟩
      intro hen
      exact absurd hen Bool.false_ne_true
  | write1Done h ack =>
      have hsame := hheld h.busy
      refine .write2 ⟨h.evicting ⟨h.gates.1, h.gates.2, h.gates.3, h.gates.4⟩ h.dirty rfl hsame,
        rfl, Nat.le_refl _, hcount, fun _ ↦ ⟨⟨rfl, rfl, ?_⟩, rfl⟩, fun hne ↦ absurd rfl hne, ?_⟩
      · exact (victim_congr rfl hsame).symm
      · exact (columnDataOut_congr rfl hsame 0).symm
  | write1Wait h ack =>
      have hsame := hheld h.busy
      refine .write1 ⟨h.evicting ⟨h.gates.1, h.gates.2, h.gates.3, h.gates.4⟩ h.dirty rfl hsame,
        h.state_eq, ?_⟩
      intro hen
      exact absurd hen Bool.false_ne_true
  | write2Next h more =>
      have hsame := hheld h.busy
      refine .write2 ⟨h.evicting ⟨h.gates.1, h.gates.2, h.gates.3, h.gates.4⟩ h.dirty rfl hsame,
        h.state_eq, Nat.le_add_left _ _, more, ?_, fun _ ↦ rfl, ?_⟩
      · intro hone
        have hpos := h.counter_pos
        change s.counter + 1 = 1 at hone
        omega
      · exact (columnDataOut_congr rfl hsame s.counter).symm
  | write2Last h last =>
      have hsame := hheld h.busy
      refine .write3 ⟨h.evicting ⟨h.gates.1, h.gates.2, h.gates.3, h.gates.4⟩ h.dirty rfl hsame,
        rfl, rfl, ?_⟩
      have hcounter : s.counter = p.columnCount - 1 := by omega
      simp only [hcounter]
      exact (columnDataOut_congr rfl hsame _).symm
  | write3Done h ack =>
      have hsame := hheld h.busy
      refine .read1 ⟨h.toMissing.congr rfl hsame, rfl,
        ⟨rfl, h.gates.2, h.gates.3, h.gates.4⟩, fun _ ↦ ⟨rfl, rfl, ?_⟩⟩
      exact (wanted_congr hsame).symm
  | write3Wait h ack =>
      have hsame := hheld h.busy
      refine .write3 ⟨h.evicting h.gates h.dirty rfl hsame, h.state_eq, h.en, ?_⟩
      rw [columnDataOut_congr rfl hsame]
      exact h.data
  | read1Done h ack =>
      have hsame := hheld h.busy
      refine .read2 ⟨h.toMissing.congr rfl hsame, rfl,
        ⟨h.gates.1, h.gates.2, h.gates.3, h.gates.4⟩, Nat.zero_le _,
        fun _ ↦ ⟨⟨rfl, rfl, ?_⟩, rfl⟩, fun hne ↦ absurd rfl hne⟩
      exact (wanted_congr hsame).symm
  | read1Wait h ack =>
      have hsame := hheld h.busy
      refine .read1 ⟨h.toMissing.congr rfl hsame, h.state_eq,
        ⟨h.gates.1, h.gates.2, h.gates.3, h.gates.4⟩, ?_⟩
      intro hen
      exact absurd hen Bool.false_ne_true
  | read2Done h arrived =>
      have hsame := hheld h.busy
      refine .read3 ⟨h.toMissing.congr rfl hsame, rfl,
        ⟨h.gates.1, rfl, h.gates.3, h.gates.4⟩, Nat.le_refl _, hcount, rfl⟩
  | read2Wait h early =>
      have hsame := hheld h.busy
      refine .read2 ⟨h.toMissing.congr rfl hsame, h.state_eq,
        ⟨h.gates.1, h.gates.2, h.gates.3, h.gates.4⟩, early, ?_, fun _ ↦ rfl⟩
      intro hzero
      exact absurd hzero (Nat.succ_ne_zero _)
  | read3Next h more =>
      have hsame := hheld h.busy
      exact .read3 ⟨h.toMissing.congr rfl hsame, h.state_eq,
        ⟨h.gates.1, rfl, h.gates.3, h.gates.4⟩, Nat.le_add_left _ _, more, h.en⟩
  | read3Last h last =>
      have hsame := hheld h.busy
      have hcounter : s.counter = p.columnCount - 1 := by omega
      refine .read4 ⟨h.toMissing.congr rfl hsame, rfl,
        ⟨h.gates.1, ?_, rfl, h.gates.4⟩, h.en⟩
      simp only [hcounter]
  | read4Done h =>
      exact .idle ⟨rfl, ⟨rfl, rfl, rfl, h.gates.4⟩, h.en⟩

end Preservation

/-- Every state of a run that starts with reset has one of the nine shapes. -/
theorem control_of_client {start : Regs} {input : ℕ → Input} {n : ℕ}
    (hstart : AfterReset p start) (hclient : Client p start input n) :
    Control p (input n) (run p start input n) := by
  apply Clocked.invariant (step p) start input (Control p) n
  · exact Control.of_afterReset p hstart _
  · intro m hm hcontrol
    exact (hcontrol.edge (hclient.running m hm.le)).control (hclient.hold m hm)

end TangNano.Cache
