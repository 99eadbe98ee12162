import TangNano.SdCard.WriteTransfer

/-!
# The clock divider

With a divider `sd_controller` steps in one cycle of `2 ^ ClockDivider`.  The
pulses of the port are one cycle long and the pulses of the controller last
until its next step: a command is seen only if it comes in the right cycle, and
a byte that is announced is stored in every cycle until the controller goes on.
-/

namespace TangNano.SdSystem

open Serial SpiCard SdCardPort SdEngine

section Client

variable {p : Params} {T : ℕ → Timing} {x : System} {d : Contents} {s : Word}

/-- While a sector is transferred the client has no influence. -/
theorem step_busy (h : Busy x) {i : Input} (hrst : i.rstN = true) : step p T i x = idle p T x := by
  have hport : fsm p i x.engine.controller x.port = fsm p noCommand x.engine.controller x.port := by
    unfold fsm
    split
    · rfl
    · next hstate =>
        rw [Busy, busy, hstate] at h
        exact absurd h (by decide)
    · rfl
    · rfl
    · rfl
    · rfl
  have hstep : SdCardPort.step p i x.engine.controller x.port =
      SdCardPort.step p noCommand x.engine.controller x.port := by
    rw [SdCardPort.step, SdCardPort.step, hrst, hport]
    rfl
  have hinput : controllerInput i x.port false = controllerInput noCommand x.port false := by
    rw [controllerInput, hrst]
    rfl
  rw [idle, step, step, hstep, hinput]

/-- The states after the first input. -/
def after (p : Params) (T : ℕ → Timing) (u : ℕ → Input) (x : System) (n : ℕ) : System :=
  Clocked.state (step p T) x u (n + 1)

theorem after_eq {u : ℕ → Input} (hrst : ∀ n, (u n).rstN = true) {n : ℕ}
    (h : ∀ k < n, Busy ((idle p T)^[k] (step p T (u 0) x)) ∨ u (k + 1) = noCommand) :
    after p T u x n = (idle p T)^[n] (step p T (u 0) x) := by
  induction n with
  | zero => rfl
  | succ n ih =>
      have hn := ih fun k hk ↦ h k (hk.trans (Nat.lt_succ_self n))
      have hstep : after p T u x (n + 1) = step p T (u (n + 1)) (after p T u x n) := rfl
      rw [hstep, hn, Function.iterate_succ_apply']
      rcases h n (Nat.lt_succ_self n) with hbusy | hnone
      · exact step_busy hbusy (hrst (n + 1))
      · rw [hnone, idle]

/-- A command is carried out: whatever the client drives, the system is busy
while exactly these events happen and then has these contents. -/
def Transfers (p : Params) (T : ℕ → Timing) (i : Input) (x : System) (l : List Event)
    (d : Contents) : Prop :=
  ∀ u : ℕ → Input, u 0 = i → (∀ n, (u n).rstN = true) →
    ∃ n, (∀ k < n, Busy (after p T u x k)) ∧ Clocked.log events (after p T u x) n = l ∧
      Ready p (after p T u x n) d

theorem Transfers.of_logged {i : Input} {l : List Event} {y : System}
    (hbusy : Busy (step p T i x))
    (h : Clocked.Logged (idle p T) events Busy (step p T i x) l y) (hready : Ready p y d) :
    Transfers p T i x l d := by
  intro u hstart hrst
  obtain ⟨n, hend, hlog, hbetween⟩ := h.iterate
  have hall : ∀ k < n, Busy ((idle p T)^[k] (step p T (u 0) x)) := by
    intro k hk
    rw [hstart]
    rcases Nat.eq_zero_or_pos k with rfl | hpos
    · exact hbusy
    · exact hbetween k hk hpos
  have hafter (k : ℕ) (hk : k ≤ n) :
      after p T u x k = (idle p T)^[k] (step p T i x) := by
    rw [← hstart]
    exact after_eq hrst fun m hm ↦ .inl (hall m (by omega))
  refine ⟨n, ?_, ?_, ?_⟩
  · intro k hk
    have hk' := hall k hk
    rwa [hstart, ← hafter k hk.le] at hk'
  · rw [← hlog]
    exact Clocked.log_congr fun k hk ↦ hafter k hk.le
  · rw [hafter n le_rfl, hend]
    exact hready

/-- One command and nothing else. -/
def single (i : Input) (n : ℕ) : Input := if n = 0 then i else noCommand

theorem single_rstN {i : Input} (h : i.rstN = true) (n : ℕ) : (single i n).rstN = true := by
  unfold single
  split
  · exact h
  · rfl

/-- The transfer when the client drives no other command. -/
theorem Transfers.iterate {i : Input} {l : List Event} (h : Transfers p T i x l d)
    (hrst : i.rstN = true) :
    ∃ n, (∀ k < n, Busy ((idle p T)^[k] (step p T i x))) ∧
      Clocked.log events (fun k ↦ (idle p T)^[k] (step p T i x)) n = l ∧
      ¬ Busy ((idle p T)^[n] (step p T i x)) := by
  have hafter (k : ℕ) : after p T (single i) x k = (idle p T)^[k] (step p T i x) :=
    after_eq (single_rstN hrst) fun k _ ↦ .inr rfl
  obtain ⟨n, hbusy, hlog, hready⟩ := h (single i) rfl (single_rstN hrst)
  refine ⟨n, ?_, ?_, ?_⟩
  · intro k hk
    rw [← hafter k]
    exact hbusy k hk
  · rw [← hlog]
    exact Clocked.log_congr fun k _ ↦ (hafter k).symm
  · rw [← hafter n]
    exact Bool.eq_false_iff.mp hready.not_busy

end Client

/-! ## Commands that are missed -/

section Missed

variable {p : Params} {T : ℕ → Timing} {x : System} {d d' : Contents} {s : Word}

/-- The controller does not step in the cycle after the command, and the port
takes it for ready. -/
theorem Ready.missed (h : Ready p x d) {t u : SdCardPort.Regs} {n : ℕ} (hn : n < period p)
    (hpos : n ≠ 0) (hpre : t.state = .preReadSector ∨ t.state = .preWriteSector)
    (ht : fsm p noCommand x.engine.controller t = u) (hrd : u.rd = false) (hwr : u.wr = false)
    (ht' : fsm p noCommand x.engine.controller u = { u with state := .idle }) :
    ∃ y, Clocked.Logged (SdSystem.idle p T) events Busy ⟨phase n t, x.engine⟩ [] y ∧ ¬ Busy y := by
  have hstate : u.state = .readSector ∨ u.state = .writeSector := by
    rw [← ht, fsm]
    rcases hpre with hpre | hpre
    · rw [hpre]
      exact .inl rfl
    · rw [hpre]
      exact .inr rfl
  have hbusy : busy u = true := by
    rw [busy]
    rcases hstate with hstate | hstate <;> rw [hstate] <;> rfl
  have hnone : portEvents x.engine.controller t = [] := by
    rw [portEvents]
    rcases hpre with hpre | hpre <;> rw [hpre]
  have hnone' : portEvents x.engine.controller u = [] := by
    rw [portEvents]
    rcases hstate with hstate | hstate <;> rw [hstate]
    · rw [h.byteAvailable]
      rfl
    · rw [h.readyForNextByte]
      rfl
  have hfirst := logged_one (p := p) (T := T)
    ⟨phase n t, x.engine⟩
  rw [idle_hold h.line.settled t hn hpos, events_hold t x.engine hpos, ht, hnone] at hfirst
  have hlast := logged_ready (p := p) (T := T) (t := phase ((n + 1) % period p) u)
    (Nat.mod_lt _ period_pos) h.line h.controller hrd hwr (by rw [fsm_phase, ht']; rfl) hnone'
  exact ⟨_, hfirst.trans hbusy hlast, Bool.false_ne_true⟩

theorem Ready.read_missed (h : Ready p x d) (hphase : (x.port.counter + 1) % period p ≠ 0)
    (sector : Word) (v : Byte) :
    ∃ y, Clocked.Logged (SdSystem.idle p T) events Busy (step p T ⟨true, 1, sector, v⟩ x) [] y ∧
      ¬ Busy y := by
  rw [h.step_read rfl]
  refine h.missed (u := taking (sectorAddress p sector) x.port) (Nat.mod_lt _ period_pos) hphase
    (.inl rfl) rfl rfl h.wr ?_
  have hready : SdController.ready x.engine.controller = true := by
    rw [SdController.ready, h.controller]
    rfl
  simp [fsm, taking, readSector, hready, h.byteAvailable]

theorem Ready.write_missed (h : Ready p x d) (hphase : (x.port.counter + 1) % period p ≠ 0)
    (sector : Word) (v : Byte) :
    ∃ y, Clocked.Logged (SdSystem.idle p T) events Busy (step p T ⟨true, 4, sector, v⟩ x) [] y ∧
      ¬ Busy y := by
  rw [h.step_write rfl]
  refine h.missed (u := giving (sectorAddress p sector) x.port) (Nat.mod_lt _ period_pos) hphase
    (.inr rfl) rfl h.rd rfl ?_
  have hready : SdController.ready x.engine.controller = true := by
    rw [SdController.ready, h.controller]
    rfl
  simp [fsm, giving, writeSector, hready, h.readyForNextByte]

/-- A transfer that ends without an event transfers nothing. -/
theorem Transfers.not_missed {i : Input} {l : List Event} (hrst : i.rstN = true)
    (h : Transfers p T i x l d') (hbusy : Busy (step p T i x))
    (hmissed : ∃ y, Clocked.Logged (SdSystem.idle p T) events Busy (step p T i x) [] y ∧ ¬ Busy y) :
    l = [] := by
  obtain ⟨y, hlogged, hy⟩ := hmissed
  obtain ⟨n, hbetween, hlog, hdone⟩ := h.iterate hrst
  exact hlog.symm.trans (hlogged.unique hbusy hy hbetween hdone).2

end Missed

/-! ## Bytes that are stored again -/

section Again

variable {p : Params} {T : ℕ → Timing} {x : System} {d d' : Contents} {s : Word}

/-- The controller holds the first byte for a whole period. -/
theorem Ready.read_again (h : Ready p x d) (hdivider : p.clockDivider ≠ 0)
    (hphase : (x.port.counter + 1) % period p = 0) (sector : Word)
    (hs : sectorAddress p sector = s) (v : Byte) :
    ∃ y, Clocked.Logged (SdSystem.idle p T) events Busy (step p T ⟨true, 1, sector, v⟩ x)
      (readLog d s 1 ++ [.store (d.index + BitVec.ofNat 9 1) (d.sectors s 0)]) y := by
  have hperiod : 1 < period p := Nat.one_lt_two_pow hdivider
  obtain ⟨-, y, hfirst, hreading, hbyte⟩ := read_first (T := T) h hphase sector hs v
  have hannounce := read_announce (p := p) (T := T) (Nat.zero_le 511) hreading hbyte
  obtain ⟨crc, hlistening⟩ := hbyte.listening_handed (d.sectors s (BitVec.ofNat 9 0))
  have hport : fsm p noCommand (handed 0 (d.sectors s (BitVec.ofNat 9 0)) y.engine.controller)
      y.port = SdCardPort.store (d.sectors s (BitVec.ofNat 9 0)) y.port :=
        hreading.step _ (by rintro ⟨⟩)
  have hstored := logged_one (p := p) (T := T)
    ⟨phase 1 y.port, handed 0 (d.sectors s (BitVec.ofNat 9 0)) y.engine.controller,
      y.engine.card⟩
  have hfirstStore : portEvents (handed 0 (d.sectors s (BitVec.ofNat 9 0)) y.engine.controller)
      y.port = [.store (d.index + BitVec.ofNat 9 0) (d.sectors s (BitVec.ofNat 9 0))] := by
    rw [portEvents, hreading.state, hreading.index]
    rfl
  rw [idle_hold hlistening.toLine.settled y.port hperiod one_ne_zero,
    events_hold y.port _ one_ne_zero, hport, hfirstStore,
    phase_eq (hreading.counter.trans (Nat.mod_eq_of_lt hperiod))] at hstored
  have hagain := logged_one (p := p) (T := T)
    ⟨phase ((1 + 1) % period p) (SdCardPort.store (d.sectors s (BitVec.ofNat 9 0)) y.port),
      handed 0 (d.sectors s (BitVec.ofNat 9 0)) y.engine.controller, y.engine.card⟩
  have hnext := hreading.store
  have hsecondStore : events ⟨phase ((1 + 1) % period p)
        (SdCardPort.store (d.sectors s (BitVec.ofNat 9 0)) y.port),
      handed 0 (d.sectors s (BitVec.ofNat 9 0)) y.engine.controller, y.engine.card⟩ =
      [.store (d.index + BitVec.ofNat 9 1) (d.sectors s (BitVec.ofNat 9 0))] := by
    have hport' : portEvents (handed 0 (d.sectors s (BitVec.ofNat 9 0)) y.engine.controller)
        (SdCardPort.store (d.sectors s (BitVec.ofNat 9 0)) y.port) =
        [.store (d.index + BitVec.ofNat 9 1) (d.sectors s (BitVec.ofNat 9 0))] := by
      rw [portEvents, hnext.state, hnext.index]
      rfl
    rw [events, controllerEvents_between _ (show Between .receiveByte by decide)]
    exact hport'
  rw [hsecondStore] at hagain
  exact ⟨_, ((hfirst.trans hreading.busy hannounce).trans hreading.busy hstored).trans
    hnext.busy hagain⟩

/-- A byte that is stored again is no part of a read. -/
theorem readLog_not_begins (d : Contents) (s : Word) (slot : BitVec 9) (v : Byte) :
    ¬ readLog d s 1 ++ [.store slot v] <+: readLog d s 512 := by
  rw [show 512 = 1 + 511 from rfl, readLog_add, List.prefix_append_right_inj,
    List.range_succ_eq_map, List.flatMap_cons]
  intro h
  simp [byteLog] at h

end Again

/-! ## Transfers -/

/-- A read transfers its sector exactly once if and only if there is no divider,
a write if and only if the controller steps in the cycle after the command. -/
theorem transfers_once {p : Params} {T : ℕ → Timing} {x : System} {d : Contents}
    (h : Ready p x d) (sector : Word) (v : Byte) :
    (Transfers p T ⟨true, 1, sector, v⟩ x (readLog d (sectorAddress p sector) 512)
        (d.read (sectorAddress p sector)) ↔ p.clockDivider = 0) ∧
      (Transfers p T ⟨true, 4, sector, v⟩ x (writeLog d (sectorAddress p sector) 513)
        (d.write (sectorAddress p sector)) ↔
          (x.port.counter + 1) % 2 ^ p.clockDivider = 0) := by
  refine ⟨⟨fun htransfers ↦ ?_, fun hdivider ↦ ?_⟩, fun htransfers ↦ ?_, fun hphase ↦ ?_⟩
  · by_contra hdivider
    by_cases hphase : (x.port.counter + 1) % period p = 0
    · obtain ⟨y, hagain⟩ := h.read_again (T := T) hdivider hphase sector rfl v
      obtain ⟨n, -, hlog, hdone⟩ := htransfers.iterate rfl
      obtain ⟨hbusy, -⟩ := read_first (T := T) h hphase sector rfl v
      have hbegins := hagain.begins hbusy hdone
      rw [hlog] at hbegins
      exact readLog_not_begins _ _ _ _ hbegins
    · have hbusy : Busy (step p T ⟨true, 1, sector, v⟩ x) := by
        rw [h.step_read rfl]
        rfl
      have hnil := htransfers.not_missed rfl hbusy (h.read_missed hphase sector v)
      exact List.cons_ne_nil _ _ hnil
  · obtain ⟨hbusy, y, hlogged, hready⟩ := h.read (T := T) hdivider sector rfl v
    exact .of_logged hbusy hlogged hready
  · by_contra hphase
    have hbusy : Busy (step p T ⟨true, 4, sector, v⟩ x) := by
      rw [h.step_write rfl]
      rfl
    have hnil := htransfers.not_missed rfl hbusy (h.write_missed hphase sector v)
    exact List.cons_ne_nil _ _ hnil
  · obtain ⟨hbusy, y, hlogged, hready⟩ := h.write (T := T) hphase sector rfl v
    exact .of_logged hbusy hlogged hready

theorem transfers_once_rested :
    Transfers ⟨0, 0⟩ prompt ⟨true, 1, 7, 0⟩ rested (readLog restedContents 7 512)
        (restedContents.read 7) ∧
      ¬ Transfers ⟨4, 0⟩ prompt ⟨true, 4, 7, 0⟩ rested (writeLog restedContents 7 513)
        (restedContents.write 7) :=
  ⟨(transfers_once (rested_ready ⟨0, 0⟩) 7 0).1.mpr rfl,
    (transfers_once (rested_ready ⟨4, 0⟩) 7 0).2.not.mpr (by decide)⟩

/-- With the default divider a read is missed. -/
theorem not_transfers_once :
    ¬ ∀ (p : Params) (T : ℕ → Timing) (x : System) (d : Contents), Ready p x d →
      ∀ (sector : Word) (v : Byte),
        Transfers p T ⟨true, 1, sector, v⟩ x (readLog d (sectorAddress p sector) 512)
            (d.read (sectorAddress p sector)) ∧
          Transfers p T ⟨true, 4, sector, v⟩ x (writeLog d (sectorAddress p sector) 513)
            (d.write (sectorAddress p sector)) := by
  intro h
  have hready := rested_ready ⟨4, 0⟩
  have hphase : (rested.port.counter + 1) % period ⟨4, 0⟩ ≠ 0 := by decide
  have hbusy : Busy (step ⟨4, 0⟩ prompt ⟨true, 1, 7, 0⟩ rested) := rfl
  have hnil := (h ⟨4, 0⟩ prompt rested restedContents hready 7 0).1.not_missed rfl hbusy
    (hready.read_missed hphase 7 0)
  exact List.cons_ne_nil _ _ hnil

end TangNano.SdSystem
