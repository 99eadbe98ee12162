import TangNano.Cache.Control

/-!
# The auto-refresh deadline

`refresh_cycle_counter` advances in `Idle` only, so the cycles spent in misses
come on top of the period.  As long as the misses between two auto-refreshes
take no longer than one eviction with its refill the deadline holds; a client
that alternates between two lines of one index moves it as far as it likes.
-/

namespace TangNano.Cache

variable (p : Params) (start : Regs) (input : ℕ → Input)

/-! ## Clocks -/

/-- An auto-refresh is on the wires. -/
def refreshing (s : Regs) : Bool := s.iSdrcCmdEn && s.iSdrcCmd == cmdAutoRefresh

/-- The state belongs to a miss transaction. -/
def inMiss (s : Regs) : Bool := s.state != .idle && s.state != .refresh

/-- The states that wait for an ACK. -/
def awaiting (s : Regs) : Bool :=
  match s.state with
  | .refresh | .write1 | .write3 | .read1 => true
  | _ => false

/-- `elapsed` counts the cycles since the last auto-refresh command, `stalled`
those of them spent in misses and `waited` the cycles an ACK is overdue. -/
structure Clocks where
  elapsed : ℕ
  stalled : ℕ
  waited : ℕ

def Clocks.next (i : Input) (s s' : Regs) (g : Clocks) : Clocks where
  elapsed := if refreshing s' then 0 else g.elapsed + 1
  stalled :=
    if refreshing s' then 0 else if inMiss s' then g.stalled + 1 else g.stalled
  waited := if awaiting s && !i.oSdrcCmdAck then g.waited + 1 else 0

def clocks : ℕ → Clocks
  | 0 => ⟨0, 0, 0⟩
  | n + 1 => (clocks n).next (input n) (run p start input n) (run p start input (n + 1))

/-- No ACK comes later than in the `K`th cycle it is waited for. -/
def AckWithin (K n : ℕ) : Prop := ∀ m ≤ n, (clocks p start input m).waited < K

/-! ## Durations -/

/-- The longest refill. -/
def fillCycles (K : ℕ) : ℕ :=
  K + (p.waitsPriorToDataAtRead + 1) + (p.columnCount - 1) + 1

/-- The longest eviction. -/
def evictCycles (K : ℕ) : ℕ := K + (p.columnCount - 1) + K

/-- The longest single miss transaction. -/
def missLength (K : ℕ) : ℕ := evictCycles p K + fillCycles p K

/-- The longest transaction the pending request can start. -/
def duration (K : ℕ) (i : Input) (s : Regs) : ℕ :=
  if lineDirty p s (lineIx p i.address) then missLength p K else fillCycles p K

/-- The machine leaves `Idle` for a miss. -/
def startsMiss (i : Input) (s : Regs) : Bool :=
  s.state == .idle && decide (s.refreshCycleCounter ≤ p.autoRefreshPeriodCycles) && busy p i s

/-- A miss is started only if, with the misses since the last auto-refresh, it
takes no longer than one longest miss. -/
def Spaced (K n : ℕ) : Prop :=
  ∀ m < n, startsMiss p (input m) (run p start input m) = true →
    (clocks p start input m).stalled + duration p K (input m) (run p start input m) ≤
      missLength p K

/-- Cycles a transaction still needs when the ACK has been waited for `w` cycles. -/
def remaining (K w : ℕ) (s : Regs) : ℕ :=
  match s.state with
  | .idle | .refresh | .read4 => 0
  | .write1 => (K - 1 - w) + (p.columnCount - 1) + K + fillCycles p K
  | .write2 => (p.columnCount - 1 - s.counter) + K + fillCycles p K
  | .write3 => (K - 1 - w) + fillCycles p K
  | .read1 => (K - 1 - w) + (p.waitsPriorToDataAtRead + 1) + (p.columnCount - 1) + 1
  | .read2 => (p.waitsPriorToDataAtRead - s.counter) + (p.columnCount - 1) + 1
  | .read3 => (p.columnCount - 1 - s.counter) + 1

/-- The time since the last auto-refresh is accounted for. -/
structure Timely (K : ℕ) (g : Clocks) (s : Regs) : Prop where
  budget : g.stalled + remaining p K g.waited s ≤ missLength p K
  refresh : s.state = .refresh → g.elapsed ≤ g.waited
  idle : s.state = .idle →
    s.refreshCycleCounter ≤ p.autoRefreshPeriodCycles + 1 ∧
      g.elapsed ≤ K + s.refreshCycleCounter + g.stalled
  miss : inMiss s = true →
    s.refreshCycleCounter ≤ p.autoRefreshPeriodCycles + 1 ∧
      g.elapsed + 1 ≤ K + s.refreshCycleCounter + g.stalled

variable {p} {start} {input} {K : ℕ} {g : Clocks} {i : Input} {s s' : Regs}

theorem refreshCycleCounterSucc_eq
    (h : s.refreshCycleCounter ≤ p.autoRefreshPeriodCycles) :
    refreshCycleCounterSucc p s = s.refreshCycleCounter + 1 := by
  apply Nat.mod_eq_of_lt
  have hfits : p.autoRefreshPeriodCycles + 2 ≤ 2 ^ p.refreshBitwidth :=
    Nat.le_pow_clog (by decide) _
  omega

theorem refreshing_of_not_en (hen : s.iSdrcCmdEn = false) : refreshing s = false := by
  simp [refreshing, hen]

theorem refreshing_of_cmd (cmd : BitVec 3) (hcmd : s.iSdrcCmd = cmd)
    (hne : cmd ≠ cmdAutoRefresh) : refreshing s = false := by
  simp [refreshing, hcmd, hne]

theorem Clocks.waited_next (hawait : awaiting s = true) (hack : i.oSdrcCmdAck = false) :
    (g.next i s s').waited = g.waited + 1 := by
  simp [Clocks.next, hawait, hack]

/-- A cycle that ends in a miss counts for both clocks. -/
theorem Clocks.next_miss (hmiss' : inMiss s' = true) (hquiet : refreshing s' = false) :
    (g.next i s s').elapsed = g.elapsed + 1 ∧ (g.next i s s').stalled = g.stalled + 1 := by
  simp [Clocks.next, hquiet, hmiss']

/-- Neither `Idle` nor `AutoRefresh` matters in a miss. -/
theorem Timely.of_miss (hmiss : inMiss s = true)
    (hbudget : g.stalled + remaining p K g.waited s ≤ missLength p K)
    (hcounter : s.refreshCycleCounter ≤ p.autoRefreshPeriodCycles + 1)
    (helapsed : g.elapsed + 1 ≤ K + s.refreshCycleCounter + g.stalled) : Timely p K g s where
  budget := hbudget
  refresh hstate := by simp [inMiss, hstate] at hmiss
  idle hstate := by simp [inMiss, hstate] at hmiss
  miss _ := ⟨hcounter, helapsed⟩

/-- An edge inside a miss costs one cycle of the budget. -/
theorem Timely.stall (h : Timely p K g s) (hmiss : inMiss s = true) (hmiss' : inMiss s' = true)
    (hcounter : s'.refreshCycleCounter = s.refreshCycleCounter) (hquiet : refreshing s' = false)
    (hbudget : remaining p K (g.next i s s').waited s' + 1 ≤ remaining p K g.waited s) :
    Timely p K (g.next i s s') s' := by
  obtain ⟨hle, helapsed⟩ := h.miss hmiss
  have hspent := h.budget
  have hnext := Clocks.next_miss (g := g) (i := i) (s := s) hmiss' hquiet
  apply Timely.of_miss hmiss'
  · omega
  · omega
  · omega

/-- The edge that starts a miss takes its longest duration from the budget. -/
theorem Timely.starts (h : Timely p K g s) (hs : AtIdle s)
    (early : s.refreshCycleCounter ≤ p.autoRefreshPeriodCycles) (hmiss' : inMiss s' = true)
    (hcounter : s'.refreshCycleCounter = refreshCycleCounterSucc p s)
    (hquiet : refreshing s' = false)
    (hbudget : g.stalled + 1 + remaining p K (g.next i s s').waited s' ≤ missLength p K) :
    Timely p K (g.next i s s') s' := by
  obtain ⟨-, helapsed⟩ := h.idle hs.state_eq
  rw [refreshCycleCounterSucc_eq early] at hcounter
  have hnext := Clocks.next_miss (g := g) (i := i) (s := s) hmiss' hquiet
  apply Timely.of_miss hmiss'
  · omega
  · omega
  · omega

/-- One clock edge keeps the account. -/
theorem Timely.edge (h : Timely p K g s) (hedge : Edge p i s s') (hw : g.waited < K)
    (hw' : (g.next i s s').waited < K)
    (hspaced : startsMiss p i s = true → g.stalled + duration p K i s ≤ missLength p K) :
    Timely p K (g.next i s s') s' := by
  have hcount := two_le_columnCount p
  have hspent := h.budget
  cases hedge with
  | idleRefresh hs due =>
      constructor <;> simp [Clocks.next, refreshing, awaiting, inMiss, remaining]
  | idleEvict hs early pending dirty =>
      have hroom := hspaced (by simp [startsMiss, hs.state_eq, early, pending.busy])
      rw [duration, if_pos dirty] at hroom
      refine h.starts hs early rfl rfl (refreshing_of_cmd cmdActive rfl (by decide)) ?_
      simp only [remaining, Clocks.next, awaiting, hs.state_eq, Bool.false_and,
        Bool.false_eq_true, if_false]
      simp only [missLength, evictCycles] at hroom ⊢
      omega
  | idleFill hs early pending clean =>
      have hroom := hspaced (by simp [startsMiss, hs.state_eq, early, pending.busy])
      rw [duration, clean, if_neg Bool.false_ne_true] at hroom
      refine h.starts hs early rfl rfl (refreshing_of_cmd cmdActive rfl (by decide)) ?_
      simp only [remaining, Clocks.next, awaiting, hs.state_eq, Bool.false_and,
        Bool.false_eq_true, if_false]
      simp only [fillCycles] at hroom
      omega
  | idleServe hs early free =>
      obtain ⟨-, helapsed⟩ := h.idle hs.state_eq
      have hsucc := refreshCycleCounterSucc_eq early
      have hquiet := refreshing_of_not_en hs.en
      constructor
      · simp only [remaining, hs.state_eq] at hspent ⊢
        simpa [Clocks.next, refreshing, hs.en, inMiss, hs.state_eq] using hspent
      · exact fun habsurd ↦ absurd (hs.state_eq.symm.trans habsurd) (by decide)
      · intro _
        simp only [Clocks.next, refreshing, hs.en, inMiss, hs.state_eq, hsucc]
        simp
        omega
      · simp [inMiss, hs.state_eq]
  | refreshDone hs ack =>
      have helapsed := h.refresh hs.state_eq
      constructor
      · simp only [remaining, hs.state_eq] at hspent ⊢
        simpa [Clocks.next, refreshing, inMiss] using hspent
      · simp
      · intro _
        simp [Clocks.next, refreshing, inMiss]
        omega
      · simp [inMiss]
  | refreshWait hs ack =>
      have helapsed := h.refresh hs.state_eq
      constructor
      · simp only [remaining, hs.state_eq] at hspent ⊢
        simpa [Clocks.next, refreshing, inMiss, hs.state_eq] using hspent
      · intro _
        simpa [Clocks.next, refreshing, awaiting, hs.state_eq, ack] using helapsed
      · exact fun habsurd ↦ absurd (hs.state_eq.symm.trans habsurd) (by decide)
      · simp [inMiss, hs.state_eq]
  | write1Done hs ack =>
      refine h.stall (by simp [inMiss, hs.state_eq]) rfl rfl
        (refreshing_of_cmd cmdWrite rfl (by decide)) ?_
      simp only [remaining, hs.state_eq]
      omega
  | write1Wait hs ack =>
      refine h.stall (by simp [inMiss, hs.state_eq]) (by simp [inMiss, hs.state_eq]) rfl
        (refreshing_of_not_en rfl) ?_
      rw [Clocks.waited_next (by simp [awaiting, hs.state_eq]) ack] at hw' ⊢
      simp only [remaining, hs.state_eq]
      omega
  | write2Next hs more =>
      refine h.stall (by simp [inMiss, hs.state_eq]) (by simp [inMiss, hs.state_eq]) rfl
        (refreshing_of_not_en rfl) ?_
      simp only [remaining, hs.state_eq]
      omega
  | write2Last hs last =>
      refine h.stall (by simp [inMiss, hs.state_eq]) rfl rfl (refreshing_of_not_en rfl) ?_
      simp only [remaining, Clocks.next, awaiting, hs.state_eq]
      simp
      omega
  | write3Done hs ack =>
      refine h.stall (by simp [inMiss, hs.state_eq]) rfl rfl
        (refreshing_of_cmd cmdActive rfl (by decide)) ?_
      simp only [remaining, Clocks.next, awaiting, hs.state_eq, ack]
      simp [fillCycles]
      omega
  | write3Wait hs ack =>
      refine h.stall (by simp [inMiss, hs.state_eq]) (by simp [inMiss, hs.state_eq]) rfl
        (refreshing_of_not_en hs.en) ?_
      rw [Clocks.waited_next (by simp [awaiting, hs.state_eq]) ack] at hw' ⊢
      simp only [remaining, hs.state_eq]
      omega
  | read1Done hs ack =>
      refine h.stall (by simp [inMiss, hs.state_eq]) rfl rfl
        (refreshing_of_cmd cmdRead rfl (by decide)) ?_
      simp only [remaining, hs.state_eq]
      omega
  | read1Wait hs ack =>
      refine h.stall (by simp [inMiss, hs.state_eq]) (by simp [inMiss, hs.state_eq]) rfl
        (refreshing_of_not_en rfl) ?_
      rw [Clocks.waited_next (by simp [awaiting, hs.state_eq]) ack] at hw' ⊢
      simp only [remaining, hs.state_eq]
      omega
  | read2Done hs arrived =>
      refine h.stall (by simp [inMiss, hs.state_eq]) rfl rfl (refreshing_of_not_en rfl) ?_
      simp only [remaining, hs.state_eq]
      omega
  | read2Wait hs early =>
      refine h.stall (by simp [inMiss, hs.state_eq]) (by simp [inMiss, hs.state_eq]) rfl
        (refreshing_of_not_en rfl) ?_
      simp only [remaining, hs.state_eq]
      omega
  | read3Next hs more =>
      refine h.stall (by simp [inMiss, hs.state_eq]) (by simp [inMiss, hs.state_eq]) rfl
        (refreshing_of_not_en hs.en) ?_
      simp only [remaining, hs.state_eq]
      omega
  | read3Last hs last =>
      refine h.stall (by simp [inMiss, hs.state_eq]) rfl rfl (refreshing_of_not_en hs.en) ?_
      simp only [remaining, hs.state_eq]
      omega
  | read4Done hs =>
      obtain ⟨hcounter, helapsed⟩ := h.miss (by simp [inMiss, hs.state_eq])
      simp only [remaining, hs.state_eq] at hspent
      constructor
      · simpa [remaining, Clocks.next, refreshing, hs.en, inMiss] using hspent
      · simp
      · intro _
        simp [Clocks.next, refreshing, hs.en, inMiss]
        omega
      · simp [inMiss]

/-- The counter left by the reset is past the period. -/
theorem reset_counter : (p.autoRefreshPeriodCycles + 1) % 2 ^ p.refreshBitwidth =
    p.autoRefreshPeriodCycles + 1 := by
  apply Nat.mod_eq_of_lt
  have hfits : p.autoRefreshPeriodCycles + 2 ≤ 2 ^ p.refreshBitwidth :=
    Nat.le_pow_clog (by decide) _
  omega

theorem timely_of_client (hstart : AfterReset p start) {n : ℕ} (hclient : Client p start input n)
    (hack : AckWithin p start input K n) (hspaced : Spaced p start input K n) :
    Timely p K (clocks p start input n) (run p start input n) := by
  induction n with
  | zero =>
      obtain ⟨i, s, hrst, -, rfl⟩ := hstart
      constructor <;> simp [clocks, step, hrst, reset, remaining, reset_counter, inMiss]
  | succ n ih =>
      have hbefore := hclient.mono (Nat.le_succ n)
      have htimely := ih hbefore (fun m hm ↦ hack m (by omega)) fun m hm ↦ hspaced m (by omega)
      have hcontrol := control_of_client p hstart hbefore
      have hedge := hcontrol.edge (hclient.running n (Nat.le_succ n))
      exact htimely.edge hedge (hack n (Nat.le_succ n)) (hack (n + 1) le_rfl)
        (hspaced n (Nat.lt_succ_self n))

/-- If every miss still fits one longest miss when it is started, the time
since the last auto-refresh stays below the period and one longest miss. -/
theorem refresh_deadline (hstart : AfterReset p start) {n : ℕ} (hclient : Client p start input n)
    (hack : AckWithin p start input K n) (hspaced : Spaced p start input K n) :
    (clocks p start input n).elapsed ≤
      p.autoRefreshPeriodCycles + (missLength p K + (K + 1)) := by
  obtain ⟨hbudget, hrefresh, hidle, hmiss⟩ := timely_of_client hstart hclient hack hspaced
  have hwaited := hack n le_rfl
  by_cases hstate : (run p start input n).state = .refresh
  · have helapsed := hrefresh hstate
    omega
  · by_cases hstate' : (run p start input n).state = .idle
    · obtain ⟨hcounter, helapsed⟩ := hidle hstate'
      omega
    · obtain ⟨hcounter, helapsed⟩ := hmiss (by simp [inMiss, hstate, hstate'])
      omega

/-- Read address 0 for ever. -/
def readInput : Input := ⟨true, true, 0, 0, 0, 0, true⟩

theorem refresh_deadline_read :
    (clocks smallParams resetRegs (fun _ ↦ readInput) 10).elapsed ≤
      2 + (missLength smallParams 1 + 2) := by
  have hclient : Client smallParams resetRegs (fun _ ↦ readInput) 10 :=
    ⟨by decide +kernel, by decide +kernel⟩
  have hack : AckWithin smallParams resetRegs (fun _ ↦ readInput) 1 10 := by
    unfold AckWithin
    decide +kernel
  have hspaced : Spaced smallParams resetRegs (fun _ ↦ readInput) 1 10 := by
    unfold Spaced
    decide +kernel
  exact refresh_deadline afterReset_resetRegs hclient hack hspaced

/-- One miss between two auto-refreshes always fits. -/
theorem spaced_of_single {n : ℕ}
    (hsingle : ∀ m < n, startsMiss p (input m) (run p start input m) = true →
      (clocks p start input m).stalled = 0) : Spaced p start input K n := by
  intro m hm hstarts
  rw [hsingle m hm hstarts, Nat.zero_add, duration]
  split
  · exact le_rfl
  · exact Nat.le_add_left _ _

/-! ## A client that thrashes one line -/

/-- The small cache with another period. -/
def thrashParams (a : ℕ) : Params :=
  { smallParams with waitsPriorToDataAtRead := 0, autoRefreshPeriodCycles := a }

/-- Read address 0 and address 16 in turns of six cycles; every ACK is
immediate. -/
def thrashInput (n : ℕ) : Input where
  rstN := true
  enable := decide (2 ≤ n)
  address := if (n + 4) / 6 % 2 = 1 then 0 else 16
  dataIn := 0
  writeEnable := 0
  oSdrcData := 0
  oSdrcCmdAck := true

def thrashStart (a : ℕ) : Regs := step (thrashParams a) resetInput blankRegs

/-- The state in cycle `j` of a turn. -/
def turnState : ℕ → StateE
  | 0 => .idle
  | 1 => .read1
  | 2 => .read2
  | 3 => .read3
  | _ => .read4

/-- Cycle `j` of turn `r`; the line holds the address of the other turns, or
nothing before the first. -/
structure Turn (a r j : ℕ) (s : Regs) : Prop where
  state_eq : s.state = turnState j
  reading_eq : s.burstIsReading = decide (j ≠ 0)
  tagGate_eq : s.burstTagWriteEnable = decide (j = 4)
  refresh_eq : s.refreshCycleCounter = if j = 0 then 2 * r else 2 * r + 1
  counter_eq : 2 ≤ j → j ≤ 3 → s.counter = j - 2
  tag_eq : s.tag 0 = if r = 0 then 0 else tagWord (thrashParams a) false ((r + 1) % 2)
  quiet : refreshing s = false

section Turns

variable {a r : ℕ} {s : Regs}

theorem thrashInput_line (n : ℕ) : lineIx (thrashParams a) (thrashInput n).address = 0 := by
  change lineIx smallParams (if _ then _ else _) = 0
  split <;> decide

theorem thrashInput_enable {n : ℕ} (hn : 2 ≤ n) : (thrashInput n).enable = true :=
  decide_eq_true hn

theorem thrashInput_tag {j : ℕ} (hj : j < 6) :
    addressTag (thrashParams a) (thrashInput (2 + 6 * r + j)).address = r % 2 := by
  have hturn : (2 + 6 * r + j + 4) / 6 = r + 1 := by omega
  change addressTag smallParams (if _ then _ else _) = _
  rw [hturn]
  rcases Nat.mod_two_eq_zero_or_one r with heven | hodd
  · rw [if_pos (by omega), heven]
    decide
  · rw [if_neg (by omega), hodd]
    decide

/-- Every turn begins with a miss. -/
theorem Turn.miss {j : ℕ} (hj : j < 5) (h : Turn a r j s) :
    cacheLineHit (thrashParams a) (thrashInput (2 + 6 * r + j)) s = false := by
  rw [cacheLineHit, thrashInput_tag (by omega), thrashInput_line]
  rcases Nat.eq_zero_or_pos r with rfl | hr
  · have htag : s.tag 0 = 0#32 := h.tag_eq
    simp [lineValid, htag]
  · have htag : s.tag 0 = tagWord (thrashParams a) false ((r + 1) % 2) := by
      rw [h.tag_eq, if_neg (by omega)]
    have hcached : cachedTag (thrashParams a) s 0 = (r + 1) % 2 := by
      rw [cachedTag, htag]
      exact tagWord_tag (thrashParams a) false (Nat.mod_lt _ (by decide))
    have hne : r % 2 ≠ (r + 1) % 2 := by omega
    simp [hcached, hne]

theorem Turn.clean {j : ℕ} (h : Turn a r j s) : lineDirty (thrashParams a) s 0 = false := by
  rw [lineDirty, h.tag_eq]
  split
  · simp
  · exact tagWord_dirty (thrashParams a) false (Nat.mod_lt _ (by decide))

/-- Cycle `j` of a turn is followed by cycle `j + 1`. -/
theorem Turn.next {j : ℕ} (h : Turn a r j s) (hj : j < 4) (hr : 2 * r < a) :
    Turn a r (j + 1) (step (thrashParams a) (thrashInput (2 + 6 * r + j)) s) := by
  have hmiss := h.miss (by omega)
  have hclean := h.clean
  have hline : lineIx (thrashParams a) (thrashInput (2 + 6 * r + j)).address = 0 :=
    thrashInput_line _
  obtain ⟨hstate, hreading, hgate, hrefresh, hcounter, htag, hquiet⟩ := h
  have hshut : tagNext (thrashParams a) (thrashInput (2 + 6 * r + j)) s = s.tag := by
    apply tagNext_of_shut
    have hread : (thrashInput (2 + 6 * r + j)).writeEnable = 0#4 := rfl
    have hgate' : s.burstTagWriteEnable = false := by simp [hgate, hj.ne]
    simp [tagWriteEnable, hgate', hread]
  have hcount : (thrashParams a).columnCount = 2 := rfl
  have hwaits : (thrashParams a).waitsPriorToDataAtRead = 0 := rfl
  have hperiod : (thrashParams a).autoRefreshPeriodCycles = a := rfl
  have hack : (thrashInput (2 + 6 * r + j)).oSdrcCmdAck = true := rfl
  have henable : (thrashInput (2 + 6 * r + j)).enable = true := thrashInput_enable (by omega)
  rw [step_of_running _ _ rfl, hshut]
  obtain rfl | rfl | rfl | rfl : j = 0 ∨ j = 1 ∨ j = 2 ∨ j = 3 := by omega
  · have hsucc : refreshCycleCounterSucc (thrashParams a) s = 2 * r + 1 := by
      rw [refreshCycleCounterSucc_eq] <;> simp [hrefresh, hperiod, hr.le]
    have hearly : ¬a < s.refreshCycleCounter := by simp [hrefresh, hr.le]
    simp only [fsm, hstate, turnState, fsmIdle, hperiod, gt_iff_lt, if_neg hearly, hmiss, henable,
      hline, hclean, hsucc]
    constructor <;> simp [turnState, htag, hgate, refreshing, cmdActive, cmdAutoRefresh]
  · simp only [fsm, hstate, turnState, fsmRead1, hack, if_true]
    constructor <;> simp [turnState, htag, hgate, hreading, hrefresh, refreshing, cmdRead,
      cmdAutoRefresh]
  · have hzero := hcounter le_rfl (by decide)
    simp only [fsm, hstate, turnState, fsmRead2, hzero, hwaits, Nat.sub_self, if_true]
    constructor <;> simp [turnState, htag, hgate, hreading, hrefresh, refreshing]
  · have hone := hcounter (by decide) le_rfl
    simp only [fsm, hstate, turnState, fsmRead3, hone, hcount]
    simp only [refreshing] at hquiet
    constructor <;> simp [turnState, htag, hreading, hrefresh, refreshing, hquiet]

/-- The line of turn `r` is cached. -/
structure Served (a r : ℕ) (s : Regs) : Prop where
  state_eq : s.state = .idle
  reading_eq : s.burstIsReading = false
  tagGate_eq : s.burstTagWriteEnable = false
  refresh_eq : s.refreshCycleCounter = 2 * r + 1
  tag_eq : s.tag 0 = tagWord (thrashParams a) false (r % 2)
  quiet : refreshing s = false

/-- The last cycle of a refill stores the tag that misses in the next turn. -/
theorem Turn.served (h : Turn a r 4 s) :
    Served a r (step (thrashParams a) (thrashInput (2 + 6 * r + 4)) s) := by
  have hline : lineIx (thrashParams a) (thrashInput (2 + 6 * r + 4)).address = 0 :=
    thrashInput_line _
  have haddress : addressTag (thrashParams a) (thrashInput (2 + 6 * r + 4)).address = r % 2 :=
    thrashInput_tag (by decide)
  obtain ⟨hstate, hreading, hgate, hrefresh, hcounter, htag, hquiet⟩ := h
  have hstored : tagNext (thrashParams a) (thrashInput (2 + 6 * r + 4)) s 0 =
      tagWord (thrashParams a) false (r % 2) := by
    simp [tagNext, tagWriteEnable, tagDataIn, hreading, hgate, hline, haddress]
  rw [step_of_running _ _ rfl]
  simp only [fsm, hstate, turnState, fsmRead4]
  simp only [refreshing] at hquiet
  constructor <;> simp [hrefresh, hstored, refreshing, hquiet]

theorem Served.hit (h : Served a r s) :
    cacheLineHit (thrashParams a) (thrashInput (2 + 6 * r + 5)) s = true := by
  have hlt : r % 2 < 2 ^ (thrashParams a).tagBitwidth := Nat.mod_lt _ (by decide)
  rw [cacheLineHit, thrashInput_tag (by decide), thrashInput_line, lineValid, cachedTag, h.tag_eq,
    tagWord_valid _ _ hlt, tagWord_tag _ _ hlt]
  simp

theorem Served.next (h : Served a r s) (hr : 2 * r < a) :
    Turn a (r + 1) 0 (step (thrashParams a) (thrashInput (2 + 6 * r + 5)) s) := by
  have hhit := h.hit
  obtain ⟨hstate, hreading, hgate, hrefresh, htag, hquiet⟩ := h
  have hshut : tagNext (thrashParams a) (thrashInput (2 + 6 * r + 5)) s = s.tag := by
    apply tagNext_of_shut
    have hread : (thrashInput (2 + 6 * r + 5)).writeEnable = 0#4 := rfl
    simp [tagWriteEnable, hgate, hread]
  have hperiod : (thrashParams a).autoRefreshPeriodCycles = a := rfl
  have hsucc : refreshCycleCounterSucc (thrashParams a) s = 2 * (r + 1) := by
    rw [refreshCycleCounterSucc_eq] <;> rw [hrefresh]
    · ring
    · omega
  have hearly : ¬a < s.refreshCycleCounter := by omega
  have hparity : (r + 1 + 1) % 2 = r % 2 := by omega
  rw [step_of_running _ _ rfl, hshut]
  simp only [fsm, hstate, fsmIdle, hperiod, gt_iff_lt, if_neg hearly, hhit, hsucc]
  simp only [refreshing] at hquiet
  constructor <;> simp [turnState, hreading, hgate, htag, hparity, refreshing, hquiet]

/-- Cycle `k` of the turns. -/
def AtCycle (a k : ℕ) (s : Regs) : Prop :=
  if k % 6 = 5 then Served a (k / 6) s else Turn a (k / 6) (k % 6) s

theorem AtCycle.quiet {k : ℕ} (h : AtCycle a k s) : refreshing s = false := by
  unfold AtCycle at h
  split at h
  · exact h.quiet
  · exact h.quiet

theorem AtCycle.next {k : ℕ} (h : AtCycle a k s) (hk : 2 * (k / 6) < a) :
    AtCycle a (k + 1) (step (thrashParams a) (thrashInput (2 + k)) s) := by
  have hcycle : 2 + k = 2 + 6 * (k / 6) + k % 6 := by omega
  unfold AtCycle at h
  rw [hcycle]
  by_cases hlast : k % 6 = 5
  · rw [if_pos hlast] at h
    have hdiv : (k + 1) / 6 = k / 6 + 1 := by omega
    have hmod : (k + 1) % 6 = 0 := by omega
    rw [AtCycle, hmod, hdiv, hlast]
    exact h.next hk
  · rw [if_neg hlast] at h
    have hdiv : (k + 1) / 6 = k / 6 := by omega
    have hmod : (k + 1) % 6 = k % 6 + 1 := by omega
    rw [AtCycle, hmod, hdiv]
    by_cases hfour : k % 6 = 4
    · rw [if_pos (by omega), hfour]
      rw [hfour] at h
      exact h.served
    · rw [if_neg (by omega)]
      exact h.next (by omega) hk

/-- The first auto-refresh is presented in cycle 1 and acknowledged there. -/
theorem thrash_refresh :
    refreshing (run (thrashParams a) (thrashStart a) thrashInput 1) = true ∧
      Turn a 0 0 (run (thrashParams a) (thrashStart a) thrashInput 2) := by
  have hcounter : (thrashStart a).refreshCycleCounter = a + 1 := reset_counter
  have hstart : (thrashStart a).state = .idle ∧ (thrashStart a).burstIsReading = false ∧
      (thrashStart a).burstTagWriteEnable = false ∧ (thrashStart a).tag = blankRegs.tag := by
    refine ⟨rfl, rfl, rfl, tagNext_of_shut ?_⟩
    simp [tagWriteEnable, blankRegs, resetInput]
  have hidle : ∀ n s, s.burstIsReading = false →
      tagNext (thrashParams a) (thrashInput n) s = s.tag := by
    intro n s hs
    apply tagNext_of_shut
    simp [tagWriteEnable, hs, thrashInput]
  have hone : run (thrashParams a) (thrashStart a) thrashInput 1 =
      step (thrashParams a) (thrashInput 0) (thrashStart a) := rfl
  have htwo : run (thrashParams a) (thrashStart a) thrashInput 2 =
      step (thrashParams a) (thrashInput 1) (run (thrashParams a) (thrashStart a) thrashInput 1) :=
    rfl
  obtain ⟨hstate, hreading, hgate, htag⟩ := hstart
  have hdue : (thrashParams a).autoRefreshPeriodCycles < (thrashStart a).refreshCycleCounter :=
    hcounter ▸ Nat.lt_succ_self a
  rw [step_of_running _ _ rfl, hidle 0 _ hreading] at hone
  simp only [fsm, hstate, fsmIdle, gt_iff_lt, if_pos hdue] at hone
  have hack : (thrashInput 1).oSdrcCmdAck = true := rfl
  rw [step_of_running _ _ rfl, hidle 1 _ (by rw [hone]; exact hreading)] at htwo
  simp only [hone, fsm, fsmRefresh, hack, if_true] at htwo
  refine ⟨by rw [hone]; rfl, ?_⟩
  rw [htwo]
  constructor <;> simp [turnState, hreading, hgate, htag, refreshing, blankRegs]

/-- The run after the first auto-refresh goes through the turns. -/
theorem atCycle_of_run {k : ℕ} (hk : k ≤ 3 * a) :
    AtCycle a k (run (thrashParams a) (thrashStart a) thrashInput (2 + k)) := by
  induction k with
  | zero => exact thrash_refresh.2
  | succ k ih => exact (ih (by omega)).next (by omega)

/-- The client holds its request through every refill. -/
theorem client_thrash : Client (thrashParams a) (thrashStart a) thrashInput (2 + 3 * a) := by
  refine ⟨fun _ _ ↦ rfl, ?_⟩
  intro m hm hbusy
  rcases Nat.lt_or_ge m 2 with hlt | hge
  · have henable : (thrashInput m).enable = false := decide_eq_false (by omega)
    simp [busy, henable] at hbusy
  · obtain ⟨k, rfl⟩ := Nat.exists_eq_add_of_le hge
    have hcycle : AtCycle a k (run (thrashParams a) (thrashStart a) thrashInput (2 + k)) :=
      atCycle_of_run (by omega)
    unfold AtCycle at hcycle
    by_cases hlast : k % 6 = 5
    · rw [if_pos hlast] at hcycle
      have hhit := hcycle.hit
      rw [show 2 + 6 * (k / 6) + 5 = 2 + k by omega] at hhit
      simp [busy, hhit] at hbusy
    · have hturn : (2 + k + 1 + 4) / 6 = (2 + k + 4) / 6 := by omega
      have henabled : 2 ≤ 2 + k + 1 := by omega
      simp [SameRequest, thrashInput, hturn, henabled]

theorem elapsed_thrash {k : ℕ} (hk : k ≤ 3 * a) :
    (clocks (thrashParams a) (thrashStart a) thrashInput (2 + k)).elapsed = k + 1 := by
  have hquiet := (atCycle_of_run hk).quiet
  induction k with
  | zero =>
      have hfirst : refreshing (run (thrashParams a) (thrashStart a) thrashInput 1) = true :=
        thrash_refresh.1
      simp [clocks, Clocks.next, hquiet, hfirst]
  | succ k ih =>
      have hbefore := ih (by omega) (atCycle_of_run (by omega)).quiet
      have hnext : (clocks (thrashParams a) (thrashStart a) thrashInput (2 + (k + 1))).elapsed =
          (clocks (thrashParams a) (thrashStart a) thrashInput (2 + k)).elapsed + 1 := by
        rw [← Nat.add_assoc] at hquiet ⊢
        simp only [clocks, Clocks.next, hquiet, Bool.false_eq_true, if_false]
      rw [hnext, hbefore]

theorem ackWithin_thrash (n : ℕ) :
    AckWithin (thrashParams a) (thrashStart a) thrashInput 1 n := by
  intro m _
  cases m with
  | zero => exact Nat.zero_lt_one
  | succ m => simp [clocks, Clocks.next, thrashInput]

end Turns

/-- No constant bounds how far thrashing delays an auto-refresh beyond the
period and the longest miss. -/
theorem no_refresh_deadline :
    ¬∃ c, ∀ (a : ℕ) (start : Regs) (input : ℕ → Input) (n : ℕ),
      AfterReset (thrashParams a) start → Client (thrashParams a) start input n →
      AckWithin (thrashParams a) start input 1 n →
      (∃ m ≤ n, refreshing (run (thrashParams a) start input m) = true) →
      (clocks (thrashParams a) start input n).elapsed ≤
        a + (missLength (thrashParams a) 1 + c) := by
  rintro ⟨c, hbound⟩
  have hlength : missLength (thrashParams (2 * (c + 4))) 1 = 7 := rfl
  have helapsed := hbound (2 * (c + 4)) (thrashStart (2 * (c + 4))) thrashInput
    (2 + 3 * (2 * (c + 4))) ⟨resetInput, blankRegs, rfl, rfl, rfl⟩ client_thrash
    (ackWithin_thrash _) ⟨1, by omega, thrash_refresh.1⟩
  rw [elapsed_thrash le_rfl, hlength] at helapsed
  omega

end TangNano.Cache
