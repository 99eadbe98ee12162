import TangNano.Core.Boot
import TangNano.Core.Control

/-!
# How the boot loader clocks a flash

The wires to the flash do not depend on what the flash answers.  The first bit
of the command is on the line before the clock falls for the first time; every
other one is put there as the clock falls, and from the 32nd fall on the core
takes one bit after each.
-/

namespace TangNano.FlashClock

open Boot (commandBit Returns)

def falls (s s' : Core.Regs) : Bool := s.flashClk && !s'.flashClk

/-- The core takes a bit from the line. -/
def takesBit (s : Core.Regs) : Bool :=
  decide (s.state = .bootReadData) && s.flashCounter.getLsbD 0

/-- One cycle, before which the clock has fallen `e` times and `m` bits have
been taken, and after which it has and have been `e'` and `m'`. -/
structure Moves (p : Core.Params) (s s' : Core.Regs) (e m e' m' : ℕ) : Prop where
  falling : falls s s' = true → e' = e + 1 ∧ s.flashCsN = false ∧ s'.flashCsN = false ∧
    s.flashMosi = commandBit p (min e 31) ∧ s'.flashMosi = commandBit p (min (e + 1) 31)
  steady : falls s s' = false → e' = e
  taking : takesBit s = true → e = 32 + m ∧ m' = m + 1
  waiting : takesBit s = false → m' = m

/-- The wires while data is read; `k` words have been written. -/
structure Selected (p : Core.Params) (s : Core.Regs) (clk : Bool) (k : ℕ) : Prop where
  csN : s.flashCsN = false
  mosi : s.flashMosi = commandBit p 31
  clk : s.flashClk = clk
  next : s.ramioAddressNext = BitVec.ofNat 32 (4 * k)

/-- Where the boot loader is, how often the clock has fallen, how many bits have
been taken and how many cycles it took at least. -/
inductive Phase (p : Core.Params) (s : Core.Regs) : ℕ → ℕ → ℕ → Prop
  | init (hstate : s.state = .bootInit) (hclk : s.flashClk = false)
      (hnext : s.ramioAddressNext = 0) : Phase p s 0 0 s.flashCounter.toNat
  | loadCommand (hstate : s.state = .bootLoadCommandToSend) (hclk : s.flashClk = false)
      (hnext : s.ramioAddressNext = 0) (hcounter : s.flashCounter = 0) : Phase p s 0 0 (2 ^ 32)
  | sendHigh (n r last : ℕ) (hstate : s.state = .bootSend) (hcsN : s.flashCsN = false)
      (hclk : s.flashClk = decide (0 < n)) (hmosi : 0 < n → s.flashMosi = commandBit p (n - 1))
      (hnext : s.ramioAddressNext = 0) (hcounter : s.flashCounter = 0)
      (hnum : s.flashNumBitsToSend.toNat = r) (hpos : 0 < r) (hlast : n + r = last) (hle : r ≤ 24)
      (hloaded : Serial.Loaded s.flashDataToSend (commandBit p) n r)
      (hreturns : Returns s last) :
      Phase p s (n - 1) 0 (2 ^ 32 + 2 * n + if last = 8 then 1 else 2)
  | sendLow (n r last : ℕ) (hstate : s.state = .bootSend) (hcsN : s.flashCsN = false)
      (hclk : s.flashClk = false) (hmosi : s.flashMosi = commandBit p n)
      (hnext : s.ramioAddressNext = 0) (hcounter : s.flashCounter = 1)
      (hnum : s.flashNumBitsToSend.toNat = r) (hlast : n + 1 + r = last) (hle : r < 24)
      (hloaded : Serial.Loaded s.flashDataToSend (commandBit p) (n + 1) r)
      (hreturns : Returns s last) :
      Phase p s n 0 (2 ^ 32 + 2 * n + 1 + if last = 8 then 1 else 2)
  | loadAddress (hstate : s.state = .bootLoadAddressToSend) (hcsN : s.flashCsN = false)
      (hclk : s.flashClk = true) (hmosi : s.flashMosi = commandBit p 7)
      (hnext : s.ramioAddressNext = 0) (hcounter : s.flashCounter = 0) :
      Phase p s 7 0 (2 ^ 32 + 17)
  | high (m k : ℕ) (hstate : s.state = .bootReadData) (hselected : Selected p s true k)
      (hcounter : s.flashCounter.getLsbD 0 = false)
      (hk : k < m ∨ k = 0 ∧ s.flashCounter = 0) : Phase p s (31 + m) m (2 ^ 32 + 66 + 4 * m)
  | low (m k : ℕ) (hstate : s.state = .bootReadData) (hselected : Selected p s false k)
      (hcounter : s.flashCounter.getLsbD 0 = true) (hk : k ≤ m) :
      Phase p s (32 + m) m (2 ^ 32 + 69 + 4 * m)
  | startWrite (m k : ℕ) (hstate : s.state = .bootStartWrite) (hselected : Selected p s false k)
      (hcounter : s.flashCounter.getLsbD 0 = true) (hk : k < m) :
      Phase p s (32 + m) m (2 ^ 32 + 67 + 4 * m)
  | write (m k : ℕ) (hstate : s.state = .bootWrite) (hselected : Selected p s false k)
      (hcounter : s.flashCounter.getLsbD 0 = true) (hk : k ≤ m) :
      Phase p s (32 + m) m (2 ^ 32 + 68 + 4 * m)

/-- The transfer is over. -/
structure Over (s : Core.Regs) : Prop where
  clk : s.flashClk = false
  state : s.state = .cpuFetch ∨ s.state = .cpuExecute ∨ s.state = .cpuStore ∨ s.state = .cpuLoad

section Steps

variable {p : Core.Params} {i : Core.Input} {s : Core.Regs} {e m a : ℕ}

theorem step_fsm (hrst : i.rstN = true) : Core.step p i s =
    { Core.fsm p i s with
      data := Registers.step (Core.rd s.ir) s.rdWriteEnable s.rdDataIn s.data } := by
  simp only [Core.step, hrst, if_true]

/-- While the clock is low it does not fall. -/
theorem Moves.of_low {s' : Core.Regs} (hclk : s.flashClk = false) (htakes : takesBit s = false) :
    Moves p s s' e m e m where
  falling h := by
    rw [falls, hclk] at h
    exact absurd h Bool.false_ne_true
  steady _ := rfl
  taking h := absurd (htakes.symm.trans h) Bool.false_ne_true
  waiting _ := rfl

/-- While it stays high it does not fall either. -/
theorem Moves.of_high {s' : Core.Regs} (hclk : s'.flashClk = true) (htakes : takesBit s = false) :
    Moves p s s' e m e m where
  falling h := by
    rw [falls, hclk, Bool.not_true, Bool.and_false] at h
    exact absurd h Bool.false_ne_true
  steady _ := rfl
  taking h := absurd (htakes.symm.trans h) Bool.false_ne_true
  waiting _ := rfl

/-- While data is read the line to the flash does not change. -/
theorem Moves.of_fall {s' : Core.Regs} {k : ℕ} (hselected : Selected p s true k)
    (htakes : takesBit s = false) (hcsN : s'.flashCsN = s.flashCsN)
    (hmosi : s'.flashMosi = s.flashMosi) (hclk : s'.flashClk = false) :
    Moves p s s' (31 + m) m (32 + m) m where
  falling _ := by
    have hmin : min (31 + m) 31 = 31 := by omega
    have hmin' : min (31 + m + 1) 31 = 31 := by omega
    rw [hmin, hmin', hcsN, hmosi]
    exact ⟨by omega, hselected.csN, hselected.csN, hselected.mosi, hselected.mosi⟩
  steady h := by
    rw [falls, hselected.clk, hclk] at h
    exact Bool.noConfusion h
  taking h := absurd (htakes.symm.trans h) Bool.false_ne_true
  waiting _ := rfl

theorem takesBit_of_state (h : s.state ≠ .bootReadData) : takesBit s = false := by
  rw [takesBit, decide_eq_false h, Bool.false_and]

theorem Over.step (h : Over s) (hrst : i.rstN = true) :
    Over (Core.step p i s) ∧ Moves p s (Core.step p i s) e m e m := by
  have htakes : takesBit s = false := by
    apply takesBit_of_state
    rcases h.state with hstate | hstate | hstate | hstate <;> rw [hstate] <;> rintro ⟨⟩
  refine ⟨?_, .of_low h.clk htakes⟩
  rw [step_fsm hrst]
  have hclk := h.clk
  rcases h.state with hstate | hstate | hstate | hstate
  · simp only [Core.fsm, hstate, Core.cpuFetch]
    split
    · exact ⟨hclk, .inr (.inl rfl)⟩
    · exact ⟨hclk, .inl rfl⟩
  · simp only [Core.fsm, hstate]
    have hexecuted := Core.executed_cpuExecute s
    generalize Core.cpuExecute s = t at hexecuted
    cases hexecuted with
    | next => exact ⟨hclk, .inl rfl⟩
    | store => exact ⟨hclk, .inr (.inr (.inl rfl))⟩
    | load => exact ⟨hclk, .inr (.inr (.inr rfl))⟩
  · simp only [Core.fsm, hstate, Core.cpuStore]
    split
    · exact ⟨hclk, .inr (.inr (.inl hstate))⟩
    · exact ⟨hclk, .inl rfl⟩
  · simp only [Core.fsm, hstate, Core.cpuLoad]
    split
    · exact ⟨hclk, .inl rfl⟩
    · exact ⟨hclk, .inr (.inr (.inr hstate))⟩

/-- What a cycle of the boot loader does: it goes on, and unless `ramio` is busy
comes further, or the transfer is over. -/
def GoesOn (p : Core.Params) (i : Core.Input) (s : Core.Regs) (e m a : ℕ) : Prop :=
  ∃ e' m', Moves p s (Core.step p i s) e m e' m' ∧
    ((∃ a', Phase p (Core.step p i s) e' m' a' ∧ (i.ramioBusy = false → a < a')) ∨
      Over (Core.step p i s) ∧ ∃ k ≤ m, ¬ BitVec.ofNat 32 (4 * k) < p.flashTransferByteCount)

theorem goesOn_init (hrst : i.rstN = true) (hstate : s.state = .bootInit)
    (hclk : s.flashClk = false) (hnext : s.ramioAddressNext = 0) :
    GoesOn p i s 0 0 s.flashCounter.toNat := by
  refine ⟨0, 0, .of_low hclk (takesBit_of_state (by rw [hstate]; rintro ⟨⟩)), .inl ?_⟩
  rw [step_fsm hrst]
  simp only [Core.fsm, hstate, Core.bootInit]
  split
  · exact ⟨_, .loadCommand rfl hclk hnext rfl, fun _ ↦ s.flashCounter.isLt⟩
  · next hwait =>
      refine ⟨_, .init rfl hclk hnext, fun _ ↦ ?_⟩
      change s.flashCounter.toNat < (s.flashCounter + 1).toNat
      bv_omega

theorem goesOn_loadCommand (hrst : i.rstN = true) (hstate : s.state = .bootLoadCommandToSend)
    (hclk : s.flashClk = false) (hnext : s.ramioAddressNext = 0) (hcounter : s.flashCounter = 0) :
    GoesOn p i s 0 0 (2 ^ 32) := by
  refine ⟨0, 0, .of_low hclk (takesBit_of_state (by rw [hstate]; rintro ⟨⟩)), .inl ?_⟩
  rw [step_fsm hrst]
  simp only [Core.fsm, hstate, Core.bootLoadCommandToSend]
  refine ⟨_, .sendHigh 0 8 8 rfl rfl hclk
    (by rintro ⟨⟩) hnext hcounter rfl (by decide) rfl (by decide) ?_
    (.inl ⟨rfl, rfl⟩), fun _ ↦ by simp⟩
  intro j hj
  rw [commandBit, BitVec.getMsbD_append, BitVec.getMsbD_append, Nat.zero_add,
    if_neg (Nat.not_le.mpr hj), if_neg (Nat.not_le.mpr hj)]
  rfl

theorem goesOn_loadAddress (hrst : i.rstN = true) (hstate : s.state = .bootLoadAddressToSend)
    (hcsN : s.flashCsN = false) (hclk : s.flashClk = true) (hmosi : s.flashMosi = commandBit p 7)
    (hnext : s.ramioAddressNext = 0) (hcounter : s.flashCounter = 0) :
    GoesOn p i s 7 0 (2 ^ 32 + 17) := by
  have htakes : takesBit s = false := takesBit_of_state (by rw [hstate]; rintro ⟨⟩)
  have hstep := step_fsm (p := p) (s := s) hrst
  simp only [Core.fsm, hstate, Core.bootLoadAddressToSend] at hstep
  refine ⟨7, 0, .of_high (by rw [hstep]; exact hclk) htakes, .inl ?_⟩
  rw [hstep]
  refine ⟨_, .sendHigh 8 24 32 rfl hcsN hclk (fun _ ↦ hmosi) hnext hcounter rfl (by decide) rfl
    (by decide) ?_ (.inr ⟨rfl, rfl, rfl⟩), fun _ ↦ by simp⟩
  intro j hj
  rw [commandBit, BitVec.getMsbD_append, if_pos (Nat.le_add_right 8 j), Nat.add_sub_cancel_left]

theorem goesOn_sendHigh (hrst : i.rstN = true) {n r last : ℕ} (hstate : s.state = .bootSend)
    (hcsN : s.flashCsN = false) (hclk : s.flashClk = decide (0 < n))
    (hmosi : 0 < n → s.flashMosi = commandBit p (n - 1)) (hnext : s.ramioAddressNext = 0)
    (hcounter : s.flashCounter = 0) (hnum : s.flashNumBitsToSend.toNat = r) (hpos : 0 < r)
    (hlast : n + r = last) (hle : r ≤ 24)
    (hloaded : Serial.Loaded s.flashDataToSend (commandBit p) n r) (hreturns : Returns s last) :
    GoesOn p i s (n - 1) 0 (2 ^ 32 + 2 * n + if last = 8 then 1 else 2) := by
  obtain ⟨r, rfl⟩ := Nat.exists_eq_succ_of_ne_zero (Nat.pos_iff_ne_zero.mp hpos)
  obtain ⟨hbit, hrest⟩ := hloaded.next (by omega) false
  have hshort := hreturns.le
  have htakes : takesBit s = false := takesBit_of_state (by rw [hstate]; rintro ⟨⟩)
  have hstep := step_fsm (p := p) (s := s) hrst
  simp only [Core.fsm, hstate, Core.bootSend, if_pos hcounter] at hstep
  have hfalls : falls s (Core.step p i s) = decide (0 < n) := by
    rw [falls, hstep, hclk, Bool.not_false, Bool.and_true]
  refine ⟨n, 0, ⟨?_, ?_, fun h ↦ absurd (htakes.symm.trans h) Bool.false_ne_true, fun _ ↦ rfl⟩,
    .inl ⟨2 ^ 32 + 2 * n + 1 + if last = 8 then 1 else 2, ?_, ?_⟩⟩
  · intro h
    have hn : 0 < n := of_decide_eq_true (hfalls.symm.trans h)
    have hindex : min (n - 1) 31 = n - 1 := by omega
    have hindex' : min (n - 1 + 1) 31 = n := by omega
    rw [hindex, hindex', hstep]
    exact ⟨by omega, hcsN, hcsN, hmosi hn, hbit⟩
  · intro h
    have hn : ¬ 0 < n := of_decide_eq_false (hfalls.symm.trans h)
    omega
  · rw [hstep]
    refine .sendLow n r last rfl hcsN rfl hbit hnext rfl ?_ (by omega) (by omega) ?_ hreturns
    · change (s.flashNumBitsToSend - 1).toNat = r
      bv_omega
    · change Serial.Loaded (s.flashDataToSend.extractLsb' 0 23 ++ BitVec.ofBool false) _ _ _
      rw [Serial.append_ofBool]
      exact hrest
  · intro _
    omega

theorem goesOn_sendLow (hrst : i.rstN = true) {n r last : ℕ} (hstate : s.state = .bootSend)
    (hcsN : s.flashCsN = false) (hclk : s.flashClk = false) (hmosi : s.flashMosi = commandBit p n)
    (hnext : s.ramioAddressNext = 0) (hcounter : s.flashCounter = 1)
    (hnum : s.flashNumBitsToSend.toNat = r) (hlast : n + 1 + r = last) (hle : r < 24)
    (hloaded : Serial.Loaded s.flashDataToSend (commandBit p) (n + 1) r)
    (hreturns : Returns s last) :
    GoesOn p i s n 0 (2 ^ 32 + 2 * n + 1 + if last = 8 then 1 else 2) := by
  have hone : ¬ s.flashCounter = 0 := by
    rw [hcounter]
    decide
  have hzero : s.flashNumBitsToSend = 0 ↔ r = 0 := by
    rw [← hnum, ← BitVec.toNat_inj]
    rfl
  refine ⟨n, 0, .of_low hclk (takesBit_of_state (by rw [hstate]; rintro ⟨⟩)), .inl ?_⟩
  rw [step_fsm hrst]
  simp only [Core.fsm, hstate, Core.bootSend, if_neg hone, hzero]
  by_cases hr : r = 0
  · subst hr
    rw [if_pos rfl]
    rcases hreturns with ⟨rfl, hreturn⟩ | ⟨rfl, hreturn, -⟩
    · obtain rfl : n = 7 := by omega
      exact ⟨_, .loadAddress hreturn hcsN rfl hmosi hnext rfl, fun _ ↦ by simp⟩
    · obtain rfl : n = 31 := by omega
      exact ⟨_, .high 0 0 hreturn ⟨hcsN, hmosi, rfl, hnext⟩
        BitVec.getLsbD_zero (.inr ⟨rfl, rfl⟩), fun _ ↦ by simp⟩
  · rw [if_neg hr]
    refine ⟨_, .sendHigh (n + 1) r last rfl hcsN ?_ (fun _ ↦ hmosi) hnext rfl hnum
      (Nat.pos_of_ne_zero hr) hlast hle.le hloaded hreturns, fun _ ↦ by omega⟩
    rfl

theorem getLsbD_succ (c : Word) : (c + 1).getLsbD 0 = !c.getLsbD 0 := by
  have hadd : (c + 1).toNat % 2 = (c.toNat + 1) % 2 := by
    rw [BitVec.toNat_add]
    change (c.toNat + 1) % 2 ^ 32 % 2 = _
    omega
  rw [BitVec.getLsbD, BitVec.getLsbD, Nat.testBit_zero, Nat.testBit_zero, hadd]
  rcases Nat.mod_two_eq_zero_or_one c.toNat with h | h <;> simp [Nat.add_mod, h]

theorem goesOn_high (hrst : i.rstN = true) {k : ℕ} (hstate : s.state = .bootReadData)
    (hselected : Selected p s true k) (hcounter : s.flashCounter.getLsbD 0 = false)
    (hk : k < m ∨ k = 0 ∧ s.flashCounter = 0) :
    GoesOn p i s (31 + m) m (2 ^ 32 + 66 + 4 * m) := by
  have htakes : takesBit s = false := by rw [takesBit, hcounter, Bool.and_false]
  have hodd : (s.flashCounter + 1).getLsbD 0 = true := by rw [getLsbD_succ, hcounter]; rfl
  have hle : k ≤ m := by omega
  have hselected' {s' : Core.Regs} (hcsN : s'.flashCsN = s.flashCsN)
      (hmosi : s'.flashMosi = s.flashMosi) (hclk : s'.flashClk = false)
      (hnext : s'.ramioAddressNext = s.ramioAddressNext) : Selected p s' false k :=
    ⟨hcsN.trans hselected.csN, hmosi.trans hselected.mosi, hclk, hnext.trans hselected.next⟩
  rw [GoesOn, step_fsm hrst, Core.fsm, hstate]
  change ∃ e' m', Moves p s { Core.bootReadData i s with data := _ } _ _ e' m' ∧ _
  rw [Core.bootReadData, if_pos hcounter]
  by_cases hend : s.flashCounter.extractLsb' 0 4 = 0 ∧ s.flashCounter > 0
  · rw [if_pos hend]
    refine ⟨32 + m, m, .of_fall hselected htakes rfl rfl rfl, .inl ?_⟩
    by_cases hlast : s.flashCurrentByteNum = 3
    · have hlt : k < m := by
        rcases hk with hlt | ⟨-, hzero⟩
        · exact hlt
        · rw [hzero] at hend
          exact absurd hend.2 (by decide)
      exact ⟨_, .startWrite m k (if_pos hlast) (hselected' rfl rfl rfl rfl) hodd hlt,
        fun _ ↦ by omega⟩
    · exact ⟨_, .low m k ((if_neg hlast).trans hstate) (hselected' rfl rfl rfl rfl) hodd hle,
        fun _ ↦ by omega⟩
  · rw [if_neg hend]
    exact ⟨32 + m, m, .of_fall hselected htakes rfl rfl rfl,
      .inl ⟨_, .low m k hstate (hselected' rfl rfl rfl rfl) hodd hle, fun _ ↦ by omega⟩⟩

theorem goesOn_low (hrst : i.rstN = true) {k : ℕ} (hstate : s.state = .bootReadData)
    (hselected : Selected p s false k) (hcounter : s.flashCounter.getLsbD 0 = true) (hk : k ≤ m) :
    GoesOn p i s (32 + m) m (2 ^ 32 + 69 + 4 * m) := by
  have htakes : takesBit s = true := by rw [takesBit, hcounter, decide_eq_true hstate]; rfl
  have heven : (s.flashCounter + 1).getLsbD 0 = false := by rw [getLsbD_succ, hcounter]; rfl
  have hodd : ¬ s.flashCounter.getLsbD 0 = false := by rw [hcounter]; decide
  refine ⟨32 + m, m + 1, ⟨?_, fun _ ↦ rfl, fun _ ↦ ⟨rfl, rfl⟩, ?_⟩, .inl ?_⟩
  · intro h
    rw [falls, hselected.clk] at h
    exact absurd h Bool.false_ne_true
  · intro h
    exact absurd (h.symm.trans htakes) Bool.false_ne_true
  · rw [step_fsm hrst]
    simp only [Core.fsm, hstate, Core.bootReadData, if_neg hodd]
    have hindex : 32 + m = 31 + (m + 1) := by omega
    rw [hindex]
    exact ⟨_, .high (m + 1) k rfl ⟨hselected.csN, hselected.mosi, rfl, hselected.next⟩ heven
      (.inl (Nat.lt_succ_of_le hk)), fun _ ↦ by omega⟩

theorem goesOn_startWrite (hrst : i.rstN = true) {k : ℕ} (hstate : s.state = .bootStartWrite)
    (hselected : Selected p s false k) (hcounter : s.flashCounter.getLsbD 0 = true) (hk : k < m) :
    GoesOn p i s (32 + m) m (2 ^ 32 + 67 + 4 * m) := by
  refine ⟨32 + m, m, .of_low hselected.clk (takesBit_of_state (by rw [hstate]; rintro ⟨⟩)),
    .inl ?_⟩
  rw [step_fsm hrst]
  simp only [Core.fsm, hstate, Core.bootStartWrite]
  split
  · next hbusy =>
      exact ⟨_, .startWrite m k hstate
        ⟨hselected.csN, hselected.mosi, hselected.clk, hselected.next⟩
        hcounter hk, fun hfree ↦ absurd (hbusy.symm.trans hfree) (by decide)⟩
  · refine ⟨_, .write m (k + 1) rfl ⟨hselected.csN, hselected.mosi, hselected.clk, ?_⟩ hcounter hk,
      fun _ ↦ by omega⟩
    change s.ramioAddressNext + 4 = _
    rw [hselected.next]
    bv_omega

theorem goesOn_write (hrst : i.rstN = true) {k : ℕ} (hstate : s.state = .bootWrite)
    (hselected : Selected p s false k) (hcounter : s.flashCounter.getLsbD 0 = true) (hk : k ≤ m) :
    GoesOn p i s (32 + m) m (2 ^ 32 + 68 + 4 * m) := by
  refine ⟨32 + m, m, .of_low hselected.clk (takesBit_of_state (by rw [hstate]; rintro ⟨⟩)), ?_⟩
  rw [step_fsm hrst]
  simp only [Core.fsm, hstate, Core.bootWrite]
  split
  · next hbusy =>
      exact .inl ⟨_, .write m k hstate
        ⟨hselected.csN, hselected.mosi, hselected.clk, hselected.next⟩
        hcounter hk, fun hfree ↦ absurd (hbusy.symm.trans hfree) (by decide)⟩
  · split
    · exact .inl ⟨_, .low m k rfl ⟨hselected.csN, hselected.mosi, hselected.clk, hselected.next⟩
        hcounter hk, fun _ ↦ by omega⟩
    · next hend =>
        rw [hselected.next] at hend
        exact .inr ⟨⟨hselected.clk, .inl rfl⟩, k, hk, hend⟩

theorem Phase.goesOn (h : Phase p s e m a) (hrst : i.rstN = true) : GoesOn p i s e m a := by
  cases h with
  | init hstate hclk hnext => exact goesOn_init hrst hstate hclk hnext
  | loadCommand hstate hclk hnext hcounter =>
      exact goesOn_loadCommand hrst hstate hclk hnext hcounter
  | sendHigh n r last hstate hcsN hclk hmosi hnext hcounter hnum hpos hlast hle hloaded hreturns =>
      exact goesOn_sendHigh hrst hstate hcsN hclk hmosi hnext hcounter hnum hpos hlast hle hloaded
        hreturns
  | sendLow n r last hstate hcsN hclk hmosi hnext hcounter hnum hlast hle hloaded hreturns =>
      exact goesOn_sendLow hrst hstate hcsN hclk hmosi hnext hcounter hnum
        hlast hle hloaded hreturns
  | loadAddress hstate hcsN hclk hmosi hnext hcounter =>
      exact goesOn_loadAddress hrst hstate hcsN hclk hmosi hnext hcounter
  | high m k hstate hselected hcounter hk => exact goesOn_high hrst hstate hselected hcounter hk
  | low m k hstate hselected hcounter hk => exact goesOn_low hrst hstate hselected hcounter hk
  | startWrite m k hstate hselected hcounter hk =>
      exact goesOn_startWrite hrst hstate hselected hcounter hk
  | write m k hstate hselected hcounter hk => exact goesOn_write hrst hstate hselected hcounter hk

theorem Phase.age_le (h : Phase p s e m a) : a ≤ 2 ^ 32 + 69 + 4 * m := by
  cases h with
  | init =>
      have hlt := s.flashCounter.isLt
      omega
  | loadCommand => omega
  | sendHigh n r last _ _ _ _ _ _ _ hpos hlast hle _ hreturns =>
      have hshort := hreturns.le
      split <;> omega
  | sendLow n r last _ _ _ _ _ _ _ hlast hle _ hreturns =>
      have hshort := hreturns.le
      split <;> omega
  | loadAddress => omega
  | high => omega
  | low => omega
  | startWrite => omega
  | write => omega

theorem phase_reset (hrst : i.rstN = false) :
    Phase p (Core.step p i s) 0 0 (Core.step p i s).flashCounter.toNat := by
  have hstep : Core.step p i s = { Core.reset s with
      data := Registers.step (Core.rd s.ir) s.rdWriteEnable s.rdDataIn s.data } := by
    simp [Core.step, hrst]
  rw [hstep]
  exact .init rfl rfl rfl

end Steps

end TangNano.FlashClock
