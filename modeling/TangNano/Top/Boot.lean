import TangNano.Core.BootRun
import TangNano.SdCard.System
import TangNano.Top.Program

/-!
# From reset to the program

After a reset the boot loader copies the image from the flash to RAM, through
the cache to the SDRAM.  Then the core executes it as the emulated CPU does, and
so as the instruction set says.
-/

namespace TangNano.Top.Board

open Rv32i RamPath Emulator

variable {bitTime : ℕ} {p : Params} {memory : BitVec 24 → Byte} {e : Surroundings}
  {start b : Board bitTime} {k : ℕ}

/-! ## What the boot loader leaves alone -/

section Cores

variable {q : Core.Params} {i : Core.Input} {s : Core.Regs}

structure SameWriteBack (s t : Core.Regs) : Prop where
  led : t.led = s.led
  ir : t.ir = s.ir
  rdDataIn : t.rdDataIn = s.rdDataIn
  rdWriteEnable : t.rdWriteEnable = s.rdWriteEnable

theorem sameWriteBack_of_boot (hboot : ¬ Computes s) : SameWriteBack s (Core.fsm q i s) := by
  unfold Computes at hboot
  unfold Core.fsm
  cases hstate : s.state with
  | bootInit =>
      simp only [Core.bootInit]
      split <;> exact ⟨rfl, rfl, rfl, rfl⟩
  | bootLoadCommandToSend => exact ⟨rfl, rfl, rfl, rfl⟩
  | bootSend =>
      simp only [Core.bootSend]
      split <;> exact ⟨rfl, rfl, rfl, rfl⟩
  | bootLoadAddressToSend => exact ⟨rfl, rfl, rfl, rfl⟩
  | bootReadData =>
      simp only [Core.bootReadData]
      split_ifs <;> exact ⟨rfl, rfl, rfl, rfl⟩
  | bootStartWrite =>
      simp only [Core.bootStartWrite]
      split <;> exact ⟨rfl, rfl, rfl, rfl⟩
  | bootWrite =>
      simp only [Core.bootWrite]
      split_ifs <;> exact ⟨rfl, rfl, rfl, rfl⟩
  | cpuFetch => exact absurd (.inl hstate) hboot
  | cpuExecute => exact absurd (.inr (.inl hstate)) hboot
  | cpuStore => exact absurd (.inr (.inr (.inl hstate))) hboot
  | cpuLoad => exact absurd (.inr (.inr (.inr hstate))) hboot

end Cores

theorem stage_boots {x : Boot.State} (h : Boot.Stage p.core memory x k) : ¬ Computes x.core := by
  intro hcpu
  have hne (t : Core.StateE) (hstate : x.core.state = t)
      (ht : t ≠ .cpuFetch ∧ t ≠ .cpuExecute ∧ t ≠ .cpuStore ∧ t ≠ .cpuLoad) : False := by
    rcases hcpu with h | h | h | h
    · exact ht.1 (hstate.symm.trans h)
    · exact ht.2.1 (hstate.symm.trans h)
    · exact ht.2.2.1 (hstate.symm.trans h)
    · exact ht.2.2.2 (hstate.symm.trans h)
  cases h with
  | init _ _ hstate => exact hne _ hstate (by decide)
  | loadCommand _ _ hstate => exact hne _ hstate (by decide)
  | sendHigh _ _ _ _ _ hstate => exact hne _ hstate (by decide)
  | sendLow _ _ _ _ _ hstate => exact hne _ hstate (by decide)
  | loadAddress _ _ hstate => exact hne _ hstate (by decide)
  | high _ _ hstate => exact hne _ hstate (by decide)
  | low _ _ hstate => exact hne _ hstate (by decide)
  | startWrite _ hstate => exact hne _ hstate (by decide)
  | write _ hstate => exact hne _ hstate (by decide)

/-- The boot loader asks for nothing but the write of word `k`. -/
theorem stage_request {x : Boot.State} (h : Boot.Stage p.core memory x k) :
    x.core.ramioEnable = false ∨
      x.core.ramioEnable = true ∧ Boot.write x = Boot.wordWrite p.core memory k := by
  cases h with
  | init _ hquiet => exact .inl hquiet.enable
  | loadCommand _ hquiet => exact .inl hquiet.enable
  | sendHigh _ _ _ _ hasked => exact .inl hasked.enable
  | sendLow _ _ _ _ hasked => exact .inl hasked.enable
  | loadAddress _ hasked => exact .inl hasked.enable
  | high _ _ _ hstored => exact .inl hstored.enable
  | low _ _ _ hstored => exact .inl hstored.enable
  | startWrite _ _ hstored => exact .inl hstored.enable
  | write _ _ henable hwrite => exact .inr ⟨henable, hwrite⟩

/-- The write back that was on its way before the reset is made once more in
every cycle. -/
theorem registers_of_sameWriteBack {q : Core.Params} {i : Core.Input}
    (h : SameWriteBack b.chip.core (Core.step q i b.chip.core)) :
    Registers.step (Core.rd (Core.step q i b.chip.core).ir)
        (Core.step q i b.chip.core).rdWriteEnable (Core.step q i b.chip.core).rdDataIn
        (Core.step q i b.chip.core).data = b.registers := by
  have hdata : (Core.step q i b.chip.core).data = b.registers := rfl
  rw [h.ir, h.rdDataIn, h.rdWriteEnable, hdata]
  unfold registers Registers.step
  split
  · exact Function.update_idem ..
  · rfl

/-! ## The transfer -/

/-- RAM with the first `k` words of the image. -/
def loaded (p : Params) (memory : BitVec 24 → Byte) (V : WordMemory) (k : ℕ) : WordMemory := fun a ↦
  if a < k then Bytes.ofBytes fun i ↦ Boot.flashByte p.core memory (4 * a + i) else V a

theorem loaded_succ (V : WordMemory) (k : ℕ) :
    (loaded p memory V k).write
        ⟨k, 15, Bytes.ofBytes fun i ↦ Boot.flashByte p.core memory (4 * k + i)⟩ =
      loaded p memory V (k + 1) := by
  funext a
  by_cases ha : a = k
  · subst ha
    refine (WordMemory.write_same _ _).trans ((Bytes.mergeBytes_allOnes _ _).trans ?_)
    rw [loaded, if_pos (Nat.lt_succ_self a)]
  · have hlt : a < k ↔ a < k + 1 := by omega
    rw [WordMemory.write_of_ne _ _ ha]
    simp only [loaded, hlt]

/-- The first `k` words are in RAM, and the CPU is as the reset left it. -/
structure Carries (p : Params) (memory : BitVec 24 → Byte) (start b : Board bitTime) (k : ℕ) :
    Prop where
  sound : Sound p b (loaded p memory (Cache.view p.cache start.system) k)
  led : b.chip.core.led = true
  registers : b.registers = start.registers

/-- The words before `k` have been transferred. -/
def Transfers (p : Params) (memory : BitVec 24 → Byte) (start b : Board bitTime) : Prop :=
  ∃ k, 4 * k < p.core.flashTransferByteCount.toNat ∧ Boot.Stage p.core memory b.loader k ∧
    Carries p memory start b k

/-- All words have been transferred. -/
def Transferred (p : Params) (memory : BitVec 24 → Byte) (start b : Board bitTime) : Prop :=
  Boot.Booted b.loader ∧ Carries p memory start b (Boot.wordCount p.core)

theorem loader_step :
    (b.step p memory e).loader =
      Boot.step p.core memory (b.chip.coreInput p (b.pins p e)) b.loader := rfl

section Steps

variable (hp : Configured p) (hfits : Fits p) (hrun : Running e)

theorem Carries.step (h : Carries p memory start b k) (hboot : ¬ Computes b.chip.core)
    (hrun : Running e) {l : ℕ}
    (hsound : Sound p (b.step p memory e) (loaded p memory (Cache.view p.cache start.system) l)) :
    Carries p memory start (b.step p memory e) l := by
  have hrst : (b.chip.coreInput p (b.pins p e)).rstN = true := hrun.rstN
  have hsame : SameWriteBack b.chip.core (b.step p memory e).chip.core := by
    have hfsm := sameWriteBack_of_boot (q := p.core) (i := b.chip.coreInput p (b.pins p e)) hboot
    change SameWriteBack b.chip.core (Core.step p.core _ b.chip.core)
    simp only [Core.step, hrst, if_true]
    exact ⟨hfsm.led, hfsm.ir, hfsm.rdDataIn, hfsm.rdWriteEnable⟩
  exact ⟨hsound, hsame.led.trans h.led, (registers_of_sameWriteBack hsame).trans h.registers⟩

include hp hfits hrun

omit hp hfits hrun in
theorem readType_of_boot (hshape : Soc.Shape b.chip.core) (hboot : ¬ Computes b.chip.core)
    (henable : b.chip.core.ramioEnable = true) : b.chip.core.ramioReadType = 0 := by
  cases hshape with
  | boot h => exact absurd (h.enable.symm.trans henable) Bool.false_ne_true
  | send h => exact absurd (h.enable.symm.trans henable) Bool.false_ne_true
  | write _ _ hread => exact hread
  | fetch hstate => exact absurd (.inl hstate) hboot
  | execute hstate => exact absurd (.inr (.inl hstate)) hboot
  | store hstate => exact absurd (.inr (.inr (.inl hstate))) hboot
  | load hstate => exact absurd (.inr (.inr (.inr hstate))) hboot

omit hp hrun in
/-- Word `k` is written to RAM. -/
theorem writes_of_wordWrite (hshape : Soc.Shape b.chip.core) (hboot : ¬ Computes b.chip.core)
    (hk : 4 * k < p.core.flashTransferByteCount.toNat)
    (henable : b.chip.core.ramioEnable = true)
    (hwrite : Boot.write b.loader = Boot.wordWrite p.core memory k) :
    Writes b ∧ b.chip.core.ramioAddress.toNat = 4 * k := by
  have htype : b.chip.core.ramioWriteType = 0b11 := congrArg Prod.fst hwrite
  have haddress : b.chip.core.ramioAddress = BitVec.ofNat 32 (4 * k) :=
    congrArg (fun w ↦ w.2.1) hwrite
  unfold Fits memoryEnd at hfits
  have hplace : b.chip.core.ramioAddress.toNat = 4 * k := by
    rw [haddress, BitVec.toNat_ofNat, Nat.mod_eq_of_lt (by omega)]
  refine ⟨⟨henable, readType_of_boot hshape hboot henable, by rw [htype]; decide, ?_⟩, hplace⟩
  rw [hplace]
  unfold memoryEnd
  omega

/-- One cycle of the transfer. -/
theorem Transfers.step (h : Transfers p memory start b) :
    Transfers p memory start (b.step p memory e) ∨
      Transferred p memory start (b.step p memory e) := by
  obtain ⟨k, hk, hstage, hcarries⟩ := h
  have hboot : ¬ Computes b.chip.core := stage_boots hstage
  have hrst : (b.chip.coreInput p (b.pins p e)).rstN = true := hrun.rstN
  have hcount : p.core.flashTransferByteCount.toNat ≤ 2 ^ 24 := hfits.trans (by decide)
  have hfetch : b.chip.core.state = .cpuFetch → Ramio.isPort b.chip.core.ramioAddress = false :=
    fun hstate ↦ absurd (.inl hstate) hboot
  have hshape := hcarries.sound.shape
  rcases hstage.step hrst hk hcount with ⟨hrejects, hnext⟩ | ⟨haccepts, hwrite, hnext⟩
  · refine .inl ⟨k, hk, hnext, hcarries.step hboot hrun ?_⟩
    refine hcarries.sound.keep hp hfits hrun hfetch ?_
    rcases stage_request hstage with hdisabled | ⟨henable, hwrite⟩
    · exact accepted_of_disabled hdisabled
    · obtain ⟨hwrites, -⟩ := writes_of_wordWrite hfits hshape hboot hk henable hwrite
      apply Cache.accepted_of_busy
      rw [← hwrites.input]
      have henable : b.loader.core.ramioEnable = true := henable
      have htype : b.loader.core.ramioWriteType = 0b11 := congrArg Prod.fst hwrite
      simpa [Boot.accepts, henable, htype] using hrejects
  · have henable : b.chip.core.ramioEnable = true := by
      simp only [Boot.accepts, Bool.and_eq_true] at haccepts
      exact haccepts.1.1
    obtain ⟨hwrites, hplace⟩ := writes_of_wordWrite hfits hshape hboot hk henable hwrite
    have hfree : Cache.busy p.cache (b.cacheInput p e) b.chip.cache = false := by
      simp only [Boot.accepts, Bool.and_eq_true, Bool.not_eq_true'] at haccepts
      rw [← hwrites.input]
      exact haccepts.2
    have htype : b.chip.core.ramioWriteType = 0b11 := congrArg Prod.fst hwrite
    have hdata : b.chip.core.ramioDataIn =
        Bytes.ofBytes fun i ↦ Boot.flashByte p.core memory (4 * k + i) :=
      congrArg (fun w ↦ w.2.2) hwrite
    have hsound : Sound p (b.step p memory e)
        ((loaded p memory (Cache.view p.cache start.system) k).writeAll
          (Cache.accepted p.cache (b.cacheInput p e) b.chip.cache)) :=
      hcarries.sound.step hp hfits hrun hfetch
    rw [hwrites.written hp hfree, hplace, htype, hdata,
      Nat.mul_div_cancel_left k (by decide)] at hsound
    have hword : Sound p (b.step p memory e)
        (loaded p memory (Cache.view p.cache start.system) (k + 1)) := by
      rw [← loaded_succ]
      exact hsound
    have hcarries' := hcarries.step hboot hrun hword
    split at hnext
    · next hmore => exact .inl ⟨k + 1, hmore, hnext, hcarries'⟩
    · next hend =>
        have hlast : Boot.wordCount p.core = k + 1 := by
          unfold Boot.wordCount
          omega
        refine .inr ⟨hnext, ?_⟩
        rw [hlast]
        exact hcarries'

end Steps

/-! ## Runs -/

/-- A board that has just been reset, with what the cache and the SDRAM may hold
when it was switched on. -/
structure PowersUp (p : Params) (memory : BitVec 24 → Byte) (start : Board bitTime) : Prop where
  reset : ∃ (e : Surroundings) (b : Board bitTime), ¬ Running e ∧ start = b.step p memory e
  powerUp : Cache.PowerUp p.cache start.system
  clean : Cache.CleanLines p.cache start.system

/-- RAM when the CPU starts: the bytes of the flash, and above them what was there before. -/
def image (p : Params) (memory : BitVec 24 → Byte) (start : Board bitTime) (a : ℕ) : Byte :=
  if a < 4 * Boot.wordCount p.core then Boot.flashByte p.core memory a
  else Bytes.byte (Cache.view p.cache start.system (a / 4)) (a % 4)

theorem sameBytes_image :
    SameBytes (loaded p memory (Cache.view p.cache start.system) (Boot.wordCount p.core))
      (image p memory start) := by
  intro a _
  have hword : a / 4 < Boot.wordCount p.core ↔ a < 4 * Boot.wordCount p.core := by omega
  unfold image loaded
  by_cases ha : a < 4 * Boot.wordCount p.core
  · rw [if_pos ha, if_pos (hword.mpr ha), Bytes.byte_ofBytes _ (by omega), Nat.div_add_mod]
  · rw [if_neg ha, if_neg (mt hword.mp ha)]

section Runs

variable {env : ℕ → Surroundings} (hp : Configured p) (hfits : Fits p)
  (hpos : 0 < p.core.flashTransferByteCount.toNat) (hstart : PowersUp p memory start)
  (hrun : ∀ n, Running (env n))

include hp hpos hstart in
theorem transfers_start : Transfers p memory start start := by
  obtain ⟨e, b, hrst, hreset⟩ := hstart.reset
  have hinput : (b.chip.coreInput p (b.pins p e)).rstN = false := rstN_of_not_running hrst
  refine ⟨0, hpos, ?_, ⟨⟨?_, ?_⟩, ?_, rfl⟩⟩
  · rw [hreset, loader_step]
    exact Boot.stage_reset hinput
  · rw [hreset]
    exact Soc.shape_reset hinput
  · intro e'
    have hnone : loaded p memory (Cache.view p.cache start.system) 0 =
        Cache.view p.cache start.system := by
      funext a
      exact if_neg (Nat.not_lt_zero a)
    have hcontrol := Cache.Control.of_afterReset p.cache hstart.powerUp.reset
      (start.cacheInput p e')
    have hidle : start.chip.cache.state = .idle := by
      obtain ⟨i, s, hi, -, heq⟩ := hstart.powerUp.reset
      have heq : start.chip.cache = Cache.step p.cache i s := heq
      simp [heq, Cache.step, hi, Cache.reset]
    refine ⟨hcontrol, ?_⟩
    rw [hnone]
    simp only [Cache.Agrees, hidle]
    exact ⟨hstart.powerUp.quiet,
      Cache.System.coherentLines_view hp.mode hstart.powerUp hstart.clean⟩
  · rw [hreset]
    change (Core.step p.core (b.chip.coreInput p (b.pins p e)) b.chip.core).led = true
    simp [Core.step, hinput, Core.reset]

include hp hfits hpos hstart hrun

theorem transfers_of_boot (n : ℕ)
    (hboot : ∀ m < n, (run p memory start env m).chip.core.state ≠ .cpuFetch) :
    Transfers p memory start (run p memory start env n) ∨
      Transferred p memory start (run p memory start env n) := by
  induction n with
  | zero => exact .inl (transfers_start hp hpos hstart)
  | succ n ih =>
      rcases ih fun m hm ↦ hboot m (Nat.lt_succ_of_lt hm) with htransfers | htransferred
      · exact htransfers.step hp hfits (hrun n)
      · exact absurd htransferred.1.state (hboot n (Nat.lt_succ_self n))

/-- A controller that keeps acknowledging lets the transfer end. -/
theorem exists_transferred (hfair : ∀ n, ∃ u ≥ n, (env u).ack = true) :
    ∃ n, Transferred p memory start (run p memory start env n) := by
  by_contra hnever
  have htransfers (n : ℕ) : Transfers p memory start (run p memory start env n) := by
    induction n with
    | zero => exact transfers_start hp hpos hstart
    | succ n ih =>
        rcases ih.step hp hfits (hrun n) with hnext | hend
        · exact hnext
        · exact absurd ⟨n + 1, hend⟩ hnever
  have hcount : p.core.flashTransferByteCount.toNat ≤ 2 ^ 24 := hfits.trans (by decide)
  refine Clocked.not_always_decreasing
    (Q := fun n ↦ ((run p memory start env n).chip.coreInput p
      ((run p memory start env n).pins p (env n))).ramioBusy = false)
    (μ := fun n ↦ Boot.remaining p.core (run p memory start env n).chip.core) ?_ ?_
  · intro n
    obtain ⟨k, hk, hstage, -⟩ := htransfers n
    have hrst : ((run p memory start env n).chip.coreInput p
      ((run p memory start env n).pins p (env n))).rstN = true := (hrun n).rstN
    rcases hstage.remaining hrst hk hcount with hless | ⟨hbusy, hsame⟩
    · exact .inl hless
    · exact .inr ⟨by rw [hbusy]; decide, hsame⟩
  · intro n
    obtain ⟨k, -, -, hcarries⟩ := htransfers n
    obtain ⟨u, hu, -, hfree⟩ := Sound.served hp hfits hrun hfair hcarries.sound
    refine ⟨u, hu, ?_⟩
    change Ramio.busy (Soc.request _) _ = false
    unfold Ramio.busy
    split
    · rfl
    · exact hfree

/-- When the CPU starts the image is in RAM. -/
theorem exists_booted (hfair : ∀ n, ∃ u ≥ n, (env u).ack = true) :
    ∃ n, (run p memory start env n).chip.core.state = .cpuFetch ∧
      (∀ t < n, (run p memory start env t).chip.core.state ≠ .cpuFetch) ∧
      Transferred p memory start (run p memory start env n) := by
  classical
  have hfetch : ∃ n, (run p memory start env n).chip.core.state = .cpuFetch := by
    obtain ⟨n, htransferred⟩ := exists_transferred hp hfits hpos hstart hrun hfair
    exact ⟨n, htransferred.1.state⟩
  refine ⟨Nat.find hfetch, Nat.find_spec hfetch, fun t ht ↦ Nat.find_min hfetch ht, ?_⟩
  rcases transfers_of_boot hp hfits hpos hstart hrun (Nat.find hfetch)
    fun t ht ↦ Nat.find_min hfetch ht with ⟨k, -, hstage, -⟩ | htransferred
  · exact absurd (Nat.find_spec hfetch) hstage.booting
  · exact htransferred

omit hp hfits hpos hstart hrun in
theorem Transferred.fetching (h : Transferred p memory start b) {m : Machine} :
    Refinement.Fetching ⟨0, start.registers, false⟩ ⟨m, []⟩ ⟨b.chip.core, ⟨m, []⟩⟩ where
  state := h.1.state
  enable := h.1.enable
  readType := h.1.readType
  writeType := h.1.writeType
  address := h.1.address
  pc := h.1.pc
  led := h.2.led
  regs := fun r _ _ ↦ congrFun h.2.registers r
  traced := rfl

omit hp hfits hpos hstart hrun in
theorem run_add (n t : ℕ) : run p memory start env (n + t) =
    run p memory (run p memory start env n) (fun u ↦ env (n + u)) t :=
  Clocked.state_add ..

/-- After the transfer the board executes what the emulated CPU executes in RAM. -/
theorem exists_executed (hfair : ∀ n, ∃ u ≥ n, (env u).ack = true) :
    ∃ n₀, (run p memory start env n₀).chip.core.state = .cpuFetch ∧
      (∀ t < n₀, (run p memory start env t).chip.core.state ≠ .cpuFetch) ∧
      ∀ (m m' : Machine) (n : ℕ) (c' : Cpu), m.ram = image p memory start →
        Ticks ramBus n ⟨0, start.registers, false⟩ m c' m' →
        (∀ t, retired p memory (run p memory start env n₀) (fun u ↦ env (n₀ + u)) t = n →
          (run p memory start env (n₀ + t)).chip.core.state = .cpuFetch →
          Holds p (run p memory start env (n₀ + t)) c' m') ∧
        ∃ t, retired p memory (run p memory start env n₀) (fun u ↦ env (n₀ + u)) t = n ∧
          Holds p (run p memory start env (n₀ + t)) c' m' ∧
          Rests (run p memory start env (n₀ + t)) := by
  obtain ⟨n₀, hfetch, hfirst, htransferred⟩ := exists_booted hp hfits hpos hstart hrun hfair
  refine ⟨n₀, hfetch, hfirst, ?_⟩
  intro m m' n c' hram hticks
  have hsame : SameBytes (loaded p memory (Cache.view p.cache start.system)
      (Boot.wordCount p.core)) m.ram := by
    rw [hram]
    exact sameBytes_image
  have hacks (n : ℕ) : ∃ u ≥ n, (env (n₀ + u)).ack = true := by
    obtain ⟨u, hu, hack⟩ := hfair (n₀ + n)
    exact ⟨u - n₀, by omega, by rwa [Nat.add_sub_cancel' (by omega)]⟩
  simp only [run_add n₀]
  exact holds_of_ticks hp hfits (fun n ↦ hrun (n₀ + n)) htransferred.2.sound hacks hticks
    htransferred.fetching hsame

/-- From power-up to any instruction: the board holds what the emulated CPU, started
at address 0 on the image of the flash, holds after as many ticks, if these succeed in
RAM without halting.  RAM is compared outside bursts.  Every instruction is reached,
since the controller of the SDRAM keeps acknowledging. -/
theorem boots_and_executes (hfair : ∀ n, ∃ u ≥ n, (env u).ack = true) :
    ∃ n₀, (run p memory start env n₀).chip.core.state = .cpuFetch ∧
      (∀ t < n₀, (run p memory start env t).chip.core.state ≠ .cpuFetch) ∧
      ∀ (m m' : Machine) (n : ℕ) (c' : Cpu), m.ram = image p memory start →
        Ticks ramBus n ⟨0, start.registers, false⟩ m c' m' →
        Ticks bus n ⟨0, start.registers, false⟩ m c' m' ∧
        (∀ t, retired p memory (run p memory start env n₀) (fun u ↦ env (n₀ + u)) t = n →
          (run p memory start env (n₀ + t)).chip.core.state = .cpuFetch →
          Holds p (run p memory start env (n₀ + t)) c' m') ∧
        ∃ t, retired p memory (run p memory start env n₀) (fun u ↦ env (n₀ + u)) t = n ∧
          Holds p (run p memory start env (n₀ + t)) c' m' ∧
          Rests (run p memory start env (n₀ + t)) := by
  obtain ⟨n₀, hfetch, hfirst, hexecutes⟩ :=
    exists_executed hp hfits hpos hstart hrun hfair
  refine ⟨n₀, hfetch, hfirst, fun m m' n c' hram hticks ↦ ⟨?_, hexecutes m m' n c' hram hticks⟩⟩
  obtain ⟨k, hbus, rfl⟩ := bus_serves.ticks rfl hticks
  exact hbus

/-- The state of the instruction set in which the board starts the program. -/
def programState (p : Params) (memory : BitVec 24 → Byte) (start : Board bitTime) : Isa.State where
  pc := 0
  x := fun r ↦ start.registers r.toNat
  mem := fun a ↦ image p memory start a.toNat

/-- The board implements RV32I from power-up on: the image of the flash is executed as
the instruction set says, as long as it stays in RAM at aligned addresses and jumps with
JALR to even targets only.  The controller of the SDRAM keeps acknowledging. -/
theorem implements_rv32i (hfair : ∀ n, ∃ u ≥ n, (env u).ack = true) {instrs : List Isa.Instr}
    {s : Isa.State} (h : Executed (programState p memory start) instrs s) :
    ∃ t, (run p memory start env t).chip.core.state = .cpuFetch ∧
      (run p memory start env t).chip.core.pc = s.pc ∧
      (∀ r : BitVec 5, r ≠ 0 → (run p memory start env t).registers r.toNat = s.x r) ∧
      ∀ a : Word, a.toNat < memoryEnd →
        Bytes.byte (Cache.view p.cache (run p memory start env t).system (a.toNat / 4))
          (a.toNat % 4) = s.mem a := by
  obtain ⟨n₀, -, -, hexecutes⟩ := exists_executed hp hfits hpos hstart hrun hfair
  let m : Machine := ⟨image p memory start, ⟨fun _ ↦ 0, 0, fun _ ↦ 0, 0⟩, [], []⟩
  have hrepresents : Represents (programState p memory start) ⟨0, start.registers, false⟩ m :=
    ⟨rfl, fun _ _ ↦ rfl, fun _ _ ↦ rfl⟩
  obtain ⟨c', m', hticks, hstate, -⟩ := ramTicks_conform h hrepresents rfl
  obtain ⟨-, t, -, hholds, hrests⟩ := hexecutes m m' instrs.length c' rfl hticks
  refine ⟨n₀ + t, hholds.state, hholds.pc.trans hstate.pc, ?_, ?_⟩
  · intro r hr
    have hne : r.toNat ≠ 0 := fun hzero ↦ hr (BitVec.eq_of_toNat_eq hzero)
    rw [hholds.regs r.toNat r.isLt hne, hstate.regs r hr]
  · intro a ha
    rw [← hholds.ram hrests a.toNat ha]
    exact hstate.mem a ha

end Runs

/-! ## A program of two instructions -/

/-- `configuration` with a transfer of eight bytes from address 0. -/
def twoWords : Params := { configuration with core := ⟨0, 0, 8⟩ }

/-- A flash with `addi x1, x0, 5` and `sw x1, 64(x0)`. -/
def storeImage (address : BitVec 24) : Byte :=
  Bytes.byte (if address < 4 then 0x00500093 else 0x04102023) (address.toNat % 4)

/-- A board that has been switched on. -/
def poweredBoard : Board 4 where
  chip :=
    { core := Core.powerUp
      ramio := RamPath.idleRegs
      cache := Cache.blankRegs
      uarttx := ⟨.idle, 0, 0⟩
      uartrx := ⟨.idle, 0, false, 0, 0⟩
      sdcard := SdSystem.rested.port
      sdController := SdSystem.rested.engine.controller }
  sdram := Cache.System.quietSdram fun _ ↦ 0
  flash := ⟨false, 0, 0, 0, false⟩

/-- Nothing on the lines; the SDRAM controller acknowledges in every third cycle. -/
def quietLines (rst : Bool) (n : ℕ) : Surroundings :=
  ⟨rst, true, true, true, n % 3 == 0, 0, Cache.System.quietSdram fun _ ↦ 0⟩

def resetBoard : Board 4 := poweredBoard.step twoWords storeImage (quietLines true 0)

/-- Nothing is cached after the reset. -/
theorem tag_resetBoard : resetBoard.chip.cache.tag = fun _ ↦ 0 := by
  have hdisabled : Cache.tagWriteEnable twoWords.cache
      (poweredBoard.cacheInput twoWords (quietLines true 0)) Cache.blankRegs = false := rfl
  change Cache.tagNext twoWords.cache (poweredBoard.cacheInput twoWords (quietLines true 0))
    Cache.blankRegs = _
  rw [Cache.tagNext, hdisabled]
  exact Bram.step_zero _ _ _

theorem powersUp_resetBoard : PowersUp twoWords storeImage resetBoard := by
  refine ⟨⟨quietLines true 0, poweredBoard, fun h ↦ absurd h.1 (by decide), rfl⟩,
    ⟨⟨_, Cache.blankRegs, rfl, rfl, rfl⟩, ⟨⟨rfl, rfl⟩, rfl, rfl⟩, ?_⟩, ?_⟩
  · intro l _ hdirty
    simp [Cache.lineDirty, system, tag_resetBoard] at hdirty
  · intro l _ hvalid
    simp [Cache.lineValid, system, tag_resetBoard] at hvalid

theorem boots_and_executes_store :
    ∃ t, (run twoWords storeImage resetBoard (quietLines false) t).chip.core.pc = 8 ∧
      (run twoWords storeImage resetBoard (quietLines false) t).registers 1 = 5 ∧
      Bytes.byte (Cache.view twoWords.cache
        (run twoWords storeImage resetBoard (quietLines false) t).system 16) 0 = 5 := by
  have hfair (n : ℕ) : ∃ u ≥ n, (quietLines false u).ack = true :=
    ⟨3 * n, by omega, by simp [quietLines]⟩
  obtain ⟨n₀, -, -, hexecutes⟩ := boots_and_executes ⟨rfl, rfl⟩ (by unfold Fits; decide)
    (by decide) powersUp_resetBoard (fun _ ↦ ⟨rfl, rfl⟩) hfair
  let m : Machine := ⟨image twoWords storeImage resetBoard, ⟨fun _ ↦ 0, 0, fun _ ↦ 0, 0⟩, [], []⟩
  have hzero : Ticks ramBus 0 ⟨0, resetBoard.registers, false⟩ m
      ⟨0, resetBoard.registers, false⟩ m :=
    .zero _ _
  have hticks := (hzero.succ (by decide +kernel) (by decide +kernel)).succ (by decide +kernel)
    (by decide +kernel)
  obtain ⟨-, -, t, -, hholds, hrests⟩ := hexecutes m _ 2 _ rfl hticks
  refine ⟨n₀ + t, hholds.pc.trans (by decide +kernel), ?_, ?_⟩
  · exact (hholds.regs 1 (by decide) (by decide)).trans (by decide +kernel)
  · exact (hholds.ram hrests 64 (by decide)).symm.trans (by decide +kernel)

theorem implements_rv32i_store :
    ∃ t, (run twoWords storeImage resetBoard (quietLines false) t).chip.core.pc = 8 ∧
      (run twoWords storeImage resetBoard (quietLines false) t).registers 1 = 5 ∧
      Bytes.byte (Cache.view twoWords.cache
        (run twoWords storeImage resetBoard (quietLines false) t).system 16) 0 = 5 := by
  have hfair (n : ℕ) : ∃ u ≥ n, (quietLines false u).ack = true :=
    ⟨3 * n, by omega, by simp [quietLines]⟩
  have haddi : Executes (.opImm .addi 1 0 5) (programState twoWords storeImage resetBoard) := by
    refine ⟨⟨by decide, by decide⟩, by decide +kernel, ?_, ?_⟩
    · rintro a n ⟨⟩
    · rintro a ⟨⟩
  have hstore : Executes (.store .sw 0 1 64)
      (Isa.exec (.opImm .addi 1 0 5) (programState twoWords storeImage resetBoard)) := by
    refine ⟨⟨by decide, by decide⟩, by decide +kernel, ?_, ?_⟩
    · rintro a n ⟨⟩
      exact ⟨by decide, by decide⟩
    · rintro a ⟨⟩
  obtain ⟨t, -, hpc, hregs, hmem⟩ := implements_rv32i ⟨rfl, rfl⟩ (by unfold Fits; decide)
    (by decide) powersUp_resetBoard (fun _ ↦ ⟨rfl, rfl⟩) hfair
      ((Executed.nil.snoc haddi).snoc hstore)
  refine ⟨t, hpc.trans (by decide +kernel), ?_, ?_⟩
  · exact (hregs 1 (by decide)).trans (by decide +kernel)
  · exact (hmem 64 (by decide)).trans (by decide +kernel)

end TangNano.Top.Board
