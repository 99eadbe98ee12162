import TangNano.Cache.Control

/-!
# The command discipline of the cache

The commands presented so far are described by a small grammar: an
auto-refresh, or a refill, preceded by the eviction of the line it replaces
when that line is dirty.  Each command of a transfer waits for the ACK of the
one before it.
-/

namespace TangNano.Cache

variable (p : Params) (start : Regs) (input : ℕ → Input)

/-- A command with the cycle it is presented in. -/
structure Command where
  time : ℕ
  cmd : BitVec 3
  addr : ℕ
deriving DecidableEq, Repr

/-- The command on the wires in cycle `t`, if there is one. -/
def presented (t : ℕ) (s : Regs) : List Command :=
  if s.iSdrcCmdEn then [⟨t, s.iSdrcCmd, s.iSdrcAddr⟩] else []

/-- The commands presented up to cycle `n`. -/
def commands (n : ℕ) : List Command :=
  (List.range (n + 1)).flatMap fun t ↦ presented t (run p start input t)

/-- An ACK is seen in one of the cycles `a, …, b - 1`. -/
def Acked (a b : ℕ) : Prop := ∃ k, a ≤ k ∧ k < b ∧ (input k).oSdrcCmdAck = true

/-- What the controller is in the middle of, with the RAM addresses that are
still to be used and the cycle of the last command. -/
inductive Phase
  | ready
  | evicting (victim wanted since : ℕ)
  | written (wanted since : ℕ)
  | filling (wanted since : ℕ)

/-- Sequences of commands that keep the discipline. -/
inductive Disciplined : List Command → Phase → Prop
  | start : Disciplined [] .ready
  | refresh {cs : List Command} (t a : ℕ) (h : Disciplined cs .ready) :
      Disciplined (cs ++ [⟨t, cmdAutoRefresh, a⟩]) .ready
  | evict {cs : List Command} (m : ℕ) (h : Disciplined cs .ready)
      (pending : Missing p (input m) (run p start input m))
      (dirty : lineDirty p (run p start input m) (lineIx p (input m).address) = true) :
      Disciplined
        (cs ++ [⟨m + 1, cmdActive, victim p (input m) (run p start input m)⟩])
        (.evicting (victim p (input m) (run p start input m)) (wanted p (input m)) (m + 1))
  | write {cs : List Command} {e r since : ℕ} (t : ℕ) (h : Disciplined cs (.evicting e r since))
      (ack : Acked input since t) :
      Disciplined (cs ++ [⟨t, cmdWrite, e⟩]) (.written r t)
  | fillEvicted {cs : List Command} {r since : ℕ} (t : ℕ) (h : Disciplined cs (.written r since))
      (ack : Acked input (since + (p.columnCount - 1)) t) :
      Disciplined (cs ++ [⟨t, cmdActive, r⟩]) (.filling r t)
  | fill {cs : List Command} (m : ℕ) (h : Disciplined cs .ready)
      (pending : Missing p (input m) (run p start input m))
      (clean : lineDirty p (run p start input m) (lineIx p (input m).address) = false) :
      Disciplined (cs ++ [⟨m + 1, cmdActive, wanted p (input m)⟩])
        (.filling (wanted p (input m)) (m + 1))
  | read {cs : List Command} {r since : ℕ} (t : ℕ) (h : Disciplined cs (.filling r since))
      (ack : Acked input since t) :
      Disciplined (cs ++ [⟨t, cmdRead, r⟩]) .ready

/-! ## Words of commands -/

/-- RAM address of a line at index `l`. -/
def IsLine (l a : ℕ) : Prop :=
  l < 2 ^ p.lineIndexBitwidth ∧ ∃ tag < 2 ^ p.tagBitwidth, a = lineAddress p tag l

/-- The words of the grammar, without the cycles. -/
inductive CommandWord : List (BitVec 3 × ℕ) → Prop
  | refresh (a : ℕ) : CommandWord [(cmdAutoRefresh, a)]
  | evict {e r l : ℕ} (he : IsLine p l e) (hr : IsLine p l r) :
      CommandWord [(cmdActive, e), (cmdWrite, e), (cmdActive, r), (cmdRead, r)]
  | fill {r l : ℕ} (hr : IsLine p l r) : CommandWord [(cmdActive, r), (cmdRead, r)]

def Words (ws : List (List (BitVec 3 × ℕ))) : Prop := ∀ w ∈ ws, CommandWord p w

/-- A sequence that is a prefix of a concatenation of words. -/
def PrefixOfWords (cs : List (BitVec 3 × ℕ)) : Prop := ∃ ws, Words p ws ∧ cs <+: ws.flatten

/-- The line fits one row of 1 KiB, counted in units of `RamAddressingMode`. -/
def InOneRow (a : ℕ) : Prop :=
  ∀ k < 2 ^ p.lineToRamAddressLeftShift,
    (a + k) / 2 ^ (10 - p.ramAddressingMode) = a / 2 ^ (10 - p.ramAddressingMode)

variable {p} {start} {input}

theorem IsLine.aligned {l a : ℕ} (h : IsLine p l a) : 2 ^ p.lineToRamAddressLeftShift ∣ a := by
  obtain ⟨-, tag, -, rfl⟩ := h
  exact lineAddress_dvd p tag l

/-- An aligned line does not cross a row. -/
theorem IsLine.inOneRow {l a : ℕ} (h : IsLine p l a) : InOneRow p a := by
  intro k hk
  have hcolumn := p.column_le
  have hmode := p.mode_le
  obtain ⟨q, rfl⟩ := h.aligned
  obtain ⟨j, hj⟩ : ∃ j, 10 - p.ramAddressingMode = p.lineToRamAddressLeftShift + j := by
    refine ⟨8 - p.columnIndexBitwidth, ?_⟩
    simp only [Params.lineToRamAddressLeftShift, zerosBitwidth]
    omega
  rw [hj, Nat.pow_add, ← Nat.div_div_eq_div_mul, ← Nat.div_div_eq_div_mul, Nat.add_comm,
    Nat.add_mul_div_left _ _ (Nat.two_pow_pos _), Nat.div_eq_of_lt hk, Nat.zero_add,
    Nat.mul_div_cancel_left _ (Nat.two_pow_pos _)]

theorem isLine_victim (i : Input) (s : Regs) : IsLine p (lineIx p i.address) (victim p i s) :=
  ⟨lineIx_lt p i.address, _, cachedTag_lt p s _, rfl⟩

theorem isLine_wanted (i : Input) : IsLine p (lineIx p i.address) (wanted p i) :=
  ⟨lineIx_lt p i.address, _, addressTag_lt p i.address, rfl⟩

def Command.untimed (c : Command) : BitVec 3 × ℕ := (c.cmd, c.addr)

theorem Words.snoc {ws : List (List (BitVec 3 × ℕ))} {w : List (BitVec 3 × ℕ)}
    (hws : Words p ws) (hw : CommandWord p w) : Words p (ws ++ [w]) := by
  intro v hv
  rcases List.mem_append.mp hv with hv | hv
  · exact hws v hv
  · rw [List.mem_singleton.mp hv]
    exact hw

/-- The commands of a phase, up to the word that is still open. -/
def Phase.Completes (p : Params) (cs : List (BitVec 3 × ℕ)) : Phase → Prop
  | .ready => ∃ ws, Words p ws ∧ cs = ws.flatten
  | .evicting e r _ => ∃ ws l, Words p ws ∧ IsLine p l e ∧ IsLine p l r ∧
      cs = ws.flatten ++ [(cmdActive, e)]
  | .written r _ => ∃ ws l e, Words p ws ∧ IsLine p l e ∧ IsLine p l r ∧
      cs = ws.flatten ++ [(cmdActive, e), (cmdWrite, e)]
  | .filling r _ => ∃ ws w, Words p ws ∧ CommandWord p (w ++ [(cmdActive, r), (cmdRead, r)]) ∧
      cs = ws.flatten ++ w ++ [(cmdActive, r)]

theorem Disciplined.completes {cs : List Command} {ph : Phase}
    (h : Disciplined p start input cs ph) : ph.Completes p (cs.map Command.untimed) := by
  induction h with
  | start => exact ⟨[], by simp [Words], rfl⟩
  | refresh t a h ih =>
      obtain ⟨ws, hws, hcs⟩ := ih
      exact ⟨_, hws.snoc (.refresh a), by simp [hcs, Command.untimed]⟩
  | evict m h pending dirty ih =>
      obtain ⟨ws, hws, hcs⟩ := ih
      exact ⟨ws, _, hws, isLine_victim _ _, isLine_wanted _, by simp [hcs, Command.untimed]⟩
  | write t h ack ih =>
      obtain ⟨ws, l, hws, he, hr, hcs⟩ := ih
      exact ⟨ws, l, _, hws, he, hr, by simp [hcs, Command.untimed]⟩
  | fillEvicted t h ack ih =>
      obtain ⟨ws, l, e, hws, he, hr, hcs⟩ := ih
      exact ⟨ws, [(cmdActive, e), (cmdWrite, e)], hws, .evict he hr,
        by simp [hcs, Command.untimed]⟩
  | fill m h pending clean ih =>
      obtain ⟨ws, hws, hcs⟩ := ih
      exact ⟨ws, [], hws, .fill (isLine_wanted _), by simp [hcs, Command.untimed]⟩
  | read t h ack ih =>
      obtain ⟨ws, w, hws, hw, hcs⟩ := ih
      exact ⟨_, hws.snoc hw, by simp [hcs, Command.untimed]⟩

/-- Whatever the phase, the commands so far begin a sequence of words. -/
theorem Phase.Completes.prefixOfWords {ph : Phase} {cs : List (BitVec 3 × ℕ)}
    (h : ph.Completes p cs) : PrefixOfWords p cs := by
  cases ph with
  | ready =>
      obtain ⟨ws, hws, rfl⟩ := h
      exact ⟨ws, hws, List.prefix_refl _⟩
  | evicting e r since =>
      obtain ⟨ws, l, hws, he, hr, rfl⟩ := h
      exact ⟨_, hws.snoc (.evict he hr), by simp⟩
  | written r since =>
      obtain ⟨ws, l, e, hws, he, hr, rfl⟩ := h
      exact ⟨_, hws.snoc (.evict he hr), by simp⟩
  | filling r since =>
      obtain ⟨ws, w, hws, hw, rfl⟩ := h
      exact ⟨_, hws.snoc hw, by simp⟩

/-! ## The discipline along a run -/

/-- The phase of a state in cycle `n`. -/
def PhaseAt (p : Params) (n : ℕ) (i : Input) (s : Regs) (ph : Phase) : Prop :=
  match s.state with
  | .idle | .refresh | .read2 | .read3 | .read4 => ph = .ready
  | .write1 => ∃ t ≤ n, ph = .evicting (victim p i s) (wanted p i) t
  | .write2 => ∃ t, t + (s.counter - 1) = n ∧ ph = .written (wanted p i) t
  | .write3 => ∃ t, t + (p.columnCount - 1) ≤ n ∧ ph = .written (wanted p i) t
  | .read1 => ∃ t ≤ n, ph = .filling (wanted p i) t

theorem Acked.of_le {t n : ℕ} (hle : t ≤ n) (hack : (input n).oSdrcCmdAck = true) :
    Acked input t (n + 1) := ⟨n, hle, Nat.lt_succ_self n, hack⟩

/-- Every clock edge extends the sequence by at most the command it puts on
the wires, and that one is due. -/
theorem Disciplined.edge {cs : List Command} {ph : Phase} {n : ℕ} {s' : Regs}
    (h : Disciplined p start input cs ph)
    (hphase : PhaseAt p n (input n) (run p start input n) ph)
    (hedge : Edge p (input n) (run p start input n) s')
    (hheld : busy p (input n) (run p start input n) = true →
      SameRequest (input n) (input (n + 1))) :
    ∃ ph', Disciplined p start input (cs ++ presented (n + 1) s') ph' ∧
      PhaseAt p (n + 1) (input (n + 1)) s' ph' := by
  cases hedge with
  | idleRefresh hs due =>
      simp only [PhaseAt, hs.state_eq] at hphase
      subst hphase
      exact ⟨_, .refresh (n + 1) _ h, rfl⟩
  | idleEvict hs early pending dirty =>
      have hsame := hheld pending.busy
      simp only [PhaseAt, hs.state_eq] at hphase
      subst hphase
      refine ⟨_, .evict n h pending dirty, n + 1, Nat.le_refl _, ?_⟩
      rw [wanted_congr hsame]
      exact congrArg (Phase.evicting · _ _) (victim_congr rfl hsame).symm
  | idleFill hs early pending clean =>
      have hsame := hheld pending.busy
      simp only [PhaseAt, hs.state_eq] at hphase
      subst hphase
      refine ⟨_, .fill n h pending clean, n + 1, Nat.le_refl _, ?_⟩
      rw [wanted_congr hsame]
  | idleServe hs early free =>
      simp only [PhaseAt, hs.state_eq] at hphase
      simp only [PhaseAt, hs.state_eq, presented, hs.en]
      exact ⟨ph, by simpa using h, hphase⟩
  | refreshDone hs ack =>
      simp only [PhaseAt, hs.state_eq] at hphase
      exact ⟨ph, by simpa [presented] using h, hphase⟩
  | refreshWait hs ack =>
      simp only [PhaseAt, hs.state_eq] at hphase
      simp only [PhaseAt, hs.state_eq]
      exact ⟨ph, by simpa [presented] using h, hphase⟩
  | write1Done hs ack =>
      have hsame := hheld hs.busy
      simp only [PhaseAt, hs.state_eq] at hphase
      obtain ⟨t, ht, rfl⟩ := hphase
      refine ⟨_, .write (n + 1) h (.of_le ht ack), n + 1, rfl, ?_⟩
      rw [wanted_congr hsame]
  | write1Wait hs ack =>
      have hsame := hheld hs.busy
      simp only [PhaseAt, hs.state_eq] at hphase
      obtain ⟨t, ht, rfl⟩ := hphase
      simp only [PhaseAt, hs.state_eq]
      refine ⟨_, by simpa [presented] using h, t, by omega, ?_⟩
      rw [wanted_congr hsame]
      exact congrArg (Phase.evicting · _ _) (victim_congr rfl hsame).symm
  | write2Next hs more =>
      have hsame := hheld hs.busy
      have hpos := hs.counter_pos
      simp only [PhaseAt, hs.state_eq] at hphase
      obtain ⟨t, ht, rfl⟩ := hphase
      simp only [PhaseAt, hs.state_eq]
      refine ⟨_, by simpa [presented] using h, t, by omega, ?_⟩
      rw [wanted_congr hsame]
  | write2Last hs last =>
      have hsame := hheld hs.busy
      have hpos := hs.counter_pos
      simp only [PhaseAt, hs.state_eq] at hphase
      obtain ⟨t, ht, rfl⟩ := hphase
      refine ⟨_, by simpa [presented] using h, t, by omega, ?_⟩
      rw [wanted_congr hsame]
  | write3Done hs ack =>
      have hsame := hheld hs.busy
      simp only [PhaseAt, hs.state_eq] at hphase
      obtain ⟨t, ht, rfl⟩ := hphase
      refine ⟨_, .fillEvicted (n + 1) h (.of_le ht ack), n + 1, Nat.le_refl _, ?_⟩
      rw [wanted_congr hsame]
  | write3Wait hs ack =>
      have hsame := hheld hs.busy
      simp only [PhaseAt, hs.state_eq] at hphase
      obtain ⟨t, ht, rfl⟩ := hphase
      simp only [PhaseAt, hs.state_eq, presented, hs.en]
      refine ⟨_, by simpa using h, t, by omega, ?_⟩
      rw [wanted_congr hsame]
  | read1Done hs ack =>
      simp only [PhaseAt, hs.state_eq] at hphase
      obtain ⟨t, ht, rfl⟩ := hphase
      exact ⟨_, .read (n + 1) h (.of_le ht ack), rfl⟩
  | read1Wait hs ack =>
      have hsame := hheld hs.busy
      simp only [PhaseAt, hs.state_eq] at hphase
      obtain ⟨t, ht, rfl⟩ := hphase
      simp only [PhaseAt, hs.state_eq]
      refine ⟨_, by simpa [presented] using h, t, by omega, ?_⟩
      rw [wanted_congr hsame]
  | read2Done hs arrived =>
      simp only [PhaseAt, hs.state_eq] at hphase
      exact ⟨ph, by simpa [presented] using h, hphase⟩
  | read2Wait hs early =>
      simp only [PhaseAt, hs.state_eq] at hphase
      simp only [PhaseAt, hs.state_eq]
      exact ⟨ph, by simpa [presented] using h, hphase⟩
  | read3Next hs more =>
      simp only [PhaseAt, hs.state_eq] at hphase
      simp only [PhaseAt, hs.state_eq, presented, hs.en]
      exact ⟨ph, by simpa using h, hphase⟩
  | read3Last hs last =>
      simp only [PhaseAt, hs.state_eq] at hphase
      simp only [PhaseAt, presented, hs.en]
      exact ⟨ph, by simpa using h, hphase⟩
  | read4Done hs =>
      simp only [PhaseAt, hs.state_eq] at hphase
      simp only [PhaseAt, presented, hs.en]
      exact ⟨ph, by simpa using h, hphase⟩

theorem commands_succ (n : ℕ) :
    commands p start input (n + 1) =
      commands p start input n ++ presented (n + 1) (run p start input (n + 1)) := by
  rw [commands, List.range_succ, List.flatMap_append, List.flatMap_singleton, ← commands]

theorem disciplined_of_client (hstart : AfterReset p start) {n : ℕ}
    (hclient : Client p start input n) :
    ∃ ph, Disciplined p start input (commands p start input n) ph ∧
      PhaseAt p n (input n) (run p start input n) ph := by
  induction n with
  | zero =>
      obtain ⟨i, s, hrst, hen, rfl⟩ := hstart
      have hnone : commands p (step p i s) input 0 = [] := by
        simp [commands, presented, step, hrst, reset, hen]
      rw [hnone]
      refine ⟨.ready, .start, ?_⟩
      simp [PhaseAt, step, hrst, reset]
  | succ n ih =>
      have hbefore := hclient.mono (Nat.le_succ n)
      obtain ⟨ph, h, hphase⟩ := ih hbefore
      have hcontrol := control_of_client p hstart hbefore
      have hedge := hcontrol.edge (hclient.running n (Nat.le_succ n))
      rw [commands_succ]
      exact h.edge hphase hedge (hclient.hold n (Nat.lt_succ_self n))

/-! ## The data of an eviction -/

/-- WRITE is on the wires only in the first cycle of `Write2`. -/
theorem Control.of_write {i : Input} {s : Regs} (h : Control p i s)
    (hen : s.iSdrcCmdEn = true) (hcmd : s.iSdrcCmd = cmdWrite) :
    AtWrite2 p i s ∧ s.counter = 1 := by
  cases h with
  | idle h => exact absurd (h.en.symm.trans hen) Bool.false_ne_true
  | refresh h => exact absurd ((h.cmd hen).symm.trans hcmd) (by decide)
  | write1 h => exact absurd ((h.cmd hen).cmd_eq.symm.trans hcmd) (by decide)
  | write2 h =>
      refine ⟨h, ?_⟩
      by_contra hne
      exact Bool.false_ne_true ((h.later hne).symm.trans hen)
  | write3 h => exact absurd (h.en.symm.trans hen) Bool.false_ne_true
  | read1 h => exact absurd ((h.cmd hen).cmd_eq.symm.trans hcmd) (by decide)
  | read2 h =>
      by_cases hzero : s.counter = 0
      · exact absurd ((h.first hzero).1.cmd_eq.symm.trans hcmd) (by decide)
      · exact absurd ((h.later hzero).symm.trans hen) Bool.false_ne_true
  | read3 h => exact absurd (h.en.symm.trans hen) Bool.false_ne_true
  | read4 h => exact absurd (h.en.symm.trans hen) Bool.false_ne_true

/-- `Write2` counts up to the last column and leaves the columns alone. -/
theorem AtWrite2.advance {i : Input} {s : Regs} (h : AtWrite2 p i s) (hrun : i.rstN = true) :
    (step p i s).column = s.column ∧
      (s.counter + 1 < p.columnCount →
        (step p i s).state = .write2 ∧ (step p i s).counter = s.counter + 1) ∧
      (s.counter + 1 = p.columnCount → (step p i s).state = .write3) := by
  obtain ⟨-, hcolumn⟩ := memory_of_miss h.gates h.miss
  rw [step_of_running p s hrun]
  simp only [fsm, h.state_eq, fsmWrite2, hcolumn, true_and]
  constructor
  · intro hmore
    have hlast : s.counter ≠ p.columnCount - 1 := by omega
    exact ⟨if_neg hlast, counterSucc_eq p (hmore.trans_le (columnCount_le_max p))⟩
  · intro hlast
    exact if_pos (by omega)

theorem SameRequest.trans {i j k : Input} (h : SameRequest i j) (h' : SameRequest j k) :
    SameRequest i k :=
  ⟨h'.1.trans h.1, h'.2.1.trans h.2.1, h'.2.2.1.trans h.2.2.1, h'.2.2.2.trans h.2.2.2⟩

/-- Cycle `c` of an eviction. -/
structure Storing (p : Params) (start : Regs) (input : ℕ → Input) (t c : ℕ) : Prop where
  same : SameRequest (input t) (input (t + c))
  column_eq : (run p start input (t + c)).column = (run p start input t).column
  more : c + 1 < p.columnCount →
    AtWrite2 p (input (t + c)) (run p start input (t + c)) ∧
      (run p start input (t + c)).counter = c + 1
  last : c + 1 = p.columnCount → AtWrite3 p (input (t + c)) (run p start input (t + c))

theorem storing_of_write (hstart : AfterReset p start) {n : ℕ} (hclient : Client p start input n)
    {t : ℕ} (hen : (run p start input t).iSdrcCmdEn = true)
    (hcmd : (run p start input t).iSdrcCmd = cmdWrite) (c : ℕ) (hc : c < p.columnCount)
    (hn : t + c ≤ n) : Storing p start input t c := by
  have hcount := two_le_columnCount p
  induction c with
  | zero =>
      have hcontrol := control_of_client p hstart (hclient.mono hn)
      obtain ⟨hwrite, hone⟩ := hcontrol.of_write hen hcmd
      exact ⟨⟨rfl, rfl, rfl, rfl⟩, rfl, fun _ ↦ ⟨hwrite, hone⟩, fun hlast ↦ by omega⟩
  | succ c ih =>
      obtain ⟨hsame, hcolumn, hmore, -⟩ := ih (by omega) (by omega)
      obtain ⟨hwrite, hcounter⟩ := hmore hc
      have hheld := hclient.hold (t + c) (by omega) hwrite.busy
      obtain ⟨hcolumns, hnext, hlast⟩ := hwrite.advance (hclient.running (t + c) (by omega))
      have hcontrol := control_of_client p hstart (hclient.mono hn)
      refine ⟨hsame.trans hheld, hcolumns.trans hcolumn, ?_, ?_⟩
      · intro hlt
        obtain ⟨hstate, hcounter'⟩ := hnext (by omega)
        exact ⟨hcontrol.atState p hstate, hcounter'.trans (by omega)⟩
      · intro heq
        exact hcontrol.atState p (hlast (by omega))

/-- The data wires carry the columns in consecutive cycles from WRITE on. -/
theorem data_of_write (hstart : AfterReset p start) {n : ℕ} (hclient : Client p start input n)
    {t : ℕ} (hen : (run p start input t).iSdrcCmdEn = true)
    (hcmd : (run p start input t).iSdrcCmd = cmdWrite) (c : ℕ) (hc : c < p.columnCount)
    (hn : t + c ≤ n) :
    (run p start input (t + c)).iSdrcData =
      (run p start input t).column c (lineIx p (input t).address) := by
  obtain ⟨hsame, hcolumn, hmore, hlast⟩ := storing_of_write hstart hclient hen hcmd c hc hn
  have hdata : (run p start input (t + c)).iSdrcData =
      columnDataOut p (input (t + c)) (run p start input (t + c)) c := by
    by_cases heq : c + 1 = p.columnCount
    · have hc' : c = p.columnCount - 1 := by omega
      rw [(hlast heq).data, ← hc']
    · obtain ⟨hwrite, hcounter⟩ := hmore (by omega)
      rw [hwrite.data, hcounter, Nat.add_sub_cancel]
  rw [hdata, columnDataOut_congr hcolumn hsame]
  rfl

/-! ## The discipline -/

/-- Every ACTIVE, WRITE and READ addresses a line. -/
theorem PrefixOfWords.isLine {cs : List (BitVec 3 × ℕ)} (h : PrefixOfWords p cs)
    {c : BitVec 3 × ℕ} (hc : c ∈ cs) (hcmd : c.1 ≠ cmdAutoRefresh) : ∃ l, IsLine p l c.2 := by
  obtain ⟨ws, hws, hbegin⟩ := h
  obtain ⟨w, hw, hcw⟩ := List.mem_flatten.mp (hbegin.subset hc)
  cases hws w hw with
  | refresh a =>
      rw [List.mem_singleton.mp hcw] at hcmd
      exact absurd rfl hcmd
  | evict he hr =>
      simp only [List.mem_cons, List.not_mem_nil, or_false] at hcw
      rcases hcw with rfl | rfl | rfl | rfl
      · exact ⟨_, he⟩
      · exact ⟨_, he⟩
      · exact ⟨_, hr⟩
      · exact ⟨_, hr⟩
  | fill hr =>
      simp only [List.mem_cons, List.not_mem_nil, or_false] at hcw
      rcases hcw with rfl | rfl
      · exact ⟨_, hr⟩
      · exact ⟨_, hr⟩

/-- The command discipline: the sequence of commands with the ACKs between
them, the grammar it follows, the lines it addresses and the data it stores. -/
theorem command_discipline (hstart : AfterReset p start) {n : ℕ}
    (hclient : Client p start input n) :
    (∃ ph, Disciplined p start input (commands p start input n) ph) ∧
    PrefixOfWords p ((commands p start input n).map Command.untimed) ∧
    (∀ c ∈ commands p start input n, c.cmd ≠ cmdAutoRefresh →
      2 ^ p.lineToRamAddressLeftShift ∣ c.addr ∧ InOneRow p c.addr) ∧
    ∀ t, (run p start input t).iSdrcCmdEn = true → (run p start input t).iSdrcCmd = cmdWrite →
      ∀ c < p.columnCount, t + c ≤ n →
        (run p start input (t + c)).iSdrcData =
          (run p start input t).column c (lineIx p (input t).address) := by
  obtain ⟨ph, hdisciplined, -⟩ := disciplined_of_client hstart hclient
  have hbegin := hdisciplined.completes.prefixOfWords
  refine ⟨⟨ph, hdisciplined⟩, hbegin, ?_, ?_⟩
  · intro c hc hcmd
    obtain ⟨l, hl⟩ := hbegin.isLine (List.mem_map_of_mem hc) hcmd
    exact ⟨hl.aligned, hl.inOneRow⟩
  · intro t hen hcmd
    exact data_of_write hstart hclient hen hcmd

/-- Write at address 16, then read address 0 of the same line. -/
def evictInput (n : ℕ) : Input where
  rstN := true
  enable := true
  address := if n < 9 then 16 else 0
  dataIn := 0xAABBCCDD
  writeEnable := if n < 9 then 15 else 0
  oSdrcData := 0
  oSdrcCmdAck := true

theorem command_discipline_evict :
    PrefixOfWords smallParams
      [(cmdAutoRefresh, 0), (cmdActive, 4), (cmdRead, 4), (cmdActive, 4), (cmdWrite, 4),
        (cmdActive, 0), (cmdRead, 0)] := by
  have hclient : Client smallParams resetRegs evictInput 18 :=
    ⟨by decide +kernel, by decide +kernel⟩
  have hcommands : (commands smallParams resetRegs evictInput 18).map Command.untimed =
      [(cmdAutoRefresh, 0), (cmdActive, 4), (cmdRead, 4), (cmdActive, 4), (cmdWrite, 4),
        (cmdActive, 0), (cmdRead, 0)] := by decide +kernel
  rw [← hcommands]
  exact (command_discipline afterReset_resetRegs hclient).2.1

end TangNano.Cache
