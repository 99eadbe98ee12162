import TangNano.Cache.Deadline

/-!
# Reset while the cache is running

The reset leaves the wires to the SDRAM controller as they are.  A command
that is presented when the reset strikes is presented for as long as the reset
lasts.
-/

namespace TangNano.Cache

section Reset

variable (p : Params) (start : Regs) (input : ℕ → Input)

/-- `rst_n` is low for `n` edges from edge `t` on. -/
structure ResetAt (t n : ℕ) : Prop where
  pos : 1 ≤ n
  held : ∀ k < n, (input (t + k)).rstN = false
  released : (input (t + n)).rstN = true

/-- After the first edge of the reset there is no command on the wires until there is the
auto-refresh of the released machine. -/
structure LeavesNoCommand (t n : ℕ) : Prop where
  quiet : ∀ k, 1 ≤ k → k ≤ n → (run p start input (t + k)).iSdrcCmdEn = false
  en : (run p start input (t + n + 1)).iSdrcCmdEn = true
  cmd : (run p start input (t + n + 1)).iSdrcCmd = cmdAutoRefresh

variable {p} {start} {input} {i : Input} {s : Regs} {t n : ℕ}

theorem step_held (h : i.rstN = false) :
    (step p i s).iSdrcCmdEn = s.iSdrcCmdEn ∧ (step p i s).state = .idle ∧
      (step p i s).refreshCycleCounter = p.autoRefreshPeriodCycles + 1 := by
  rw [step, h]
  exact ⟨rfl, rfl, reset_counter⟩

/-- The first edge without reset finds a refresh due. -/
theorem step_released (h : i.rstN = true) (hstate : s.state = .idle)
    (hcounter : s.refreshCycleCounter = p.autoRefreshPeriodCycles + 1) :
    (step p i s).iSdrcCmdEn = true ∧ (step p i s).iSdrcCmd = cmdAutoRefresh := by
  have hdue : s.refreshCycleCounter > p.autoRefreshPeriodCycles := by omega
  have hfsm : fsm p i s = fsmIdle p i s := by
    rw [fsm, hstate]
  rw [step, h, if_pos rfl, hfsm, fsmIdle]
  dsimp only
  rw [if_pos hdue]
  exact ⟨rfl, rfl⟩

/-- The command on the wires outlasts every edge of the reset. -/
theorem en_of_held {k : ℕ} (hheld : ∀ j < k, (input (t + j)).rstN = false) :
    (run p start input (t + k)).iSdrcCmdEn = (run p start input t).iSdrcCmdEn := by
  induction k with
  | zero => rfl
  | succ k ih =>
      have hstep : run p start input (t + (k + 1)) =
          step p (input (t + k)) (run p start input (t + k)) := rfl
      rw [hstep, (step_held (hheld k (Nat.lt_succ_self k))).1]
      exact ih fun j hj ↦ hheld j (Nat.lt_succ_of_lt hj)

theorem ResetAt.refresh (h : ResetAt input t n) :
    (run p start input (t + n + 1)).iSdrcCmdEn = true ∧
      (run p start input (t + n + 1)).iSdrcCmd = cmdAutoRefresh := by
  obtain ⟨m, rfl⟩ := Nat.exists_eq_add_of_le h.pos
  have hlast : run p start input (t + (1 + m)) =
      step p (input (t + m)) (run p start input (t + m)) := by
    rw [Nat.add_comm 1 m]
    rfl
  obtain ⟨-, hstate, hcounter⟩ := step_held (p := p) (s := run p start input (t + m))
    (h.held m (by omega))
  rw [← hlast] at hstate hcounter
  exact step_released h.released hstate hcounter

/-- No command of the interrupted run is left exactly if none is presented in the cycle in
which the reset strikes. -/
theorem leavesNoCommand_iff (h : ResetAt input t n) :
    LeavesNoCommand p start input t n ↔ (run p start input t).iSdrcCmdEn = false := by
  constructor
  · intro hleaves
    rw [← en_of_held (k := 1) fun j hj ↦ h.held j (hj.trans_le h.pos)]
    exact hleaves.quiet 1 le_rfl h.pos
  · intro hen
    refine ⟨?_, h.refresh.1, h.refresh.2⟩
    intro k _ hk
    rw [en_of_held fun j hj ↦ h.held j (hj.trans_le hk), hen]

end Reset

/-! ## A reset that strikes an ACTIVE -/

/-- After the first auto-refresh a line is missed; the reset comes at edge `t`, for one
edge. -/
def missThenReset (t n : ℕ) : Input := ⟨n ≠ t, true, 0, 0, 0, 0, true⟩

theorem resetAt_missThenReset (t : ℕ) : ResetAt (missThenReset t) t 1 where
  pos := le_rfl
  held := by
    intro k hk
    obtain rfl : k = 0 := by omega
    simp [missThenReset]
  released := by simp [missThenReset]

theorem leavesNoCommand_iff_miss :
    LeavesNoCommand smallParams resetRegs (missThenReset 2) 2 1 ↔
      (run smallParams resetRegs (missThenReset 2) 2).iSdrcCmdEn = false :=
  leavesNoCommand_iff (resetAt_missThenReset 2)

/-- At edge 3 an ACTIVE is on the wires and stays there. -/
theorem not_leavesNoCommand :
    ¬ ∀ (p : Params) (start : Regs) (input : ℕ → Input) (t n : ℕ), AfterReset p start →
      ResetAt input t n → LeavesNoCommand p start input t n := by
  intro h
  have hquiet := (h smallParams resetRegs (missThenReset 3) 3 1 afterReset_resetRegs
    (resetAt_missThenReset 3)).quiet 1 le_rfl le_rfl
  exact absurd hquiet (by decide)

end TangNano.Cache
