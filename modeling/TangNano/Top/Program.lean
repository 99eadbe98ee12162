import TangNano.Emulator.Ram
import TangNano.Top.Memory

/-!
# The board executes programs

The core of the board with the cache and the SDRAM is the core of `Refinement`
with the RAM of the emulator as its memory.  So the board executes a program in
RAM instruction by instruction as the emulated CPU does.
-/

namespace TangNano.Top.Board

open Rv32i Refinement RamPath Emulator

variable {bitTime : ℕ} {p : Params} {memory : BitVec 24 → Byte} {e : Surroundings}
  {b : Board bitTime} {M : WordMemory} {x : Refinement.System Machine} {c : Cpu}
  {k : Traced Machine}

/-! ## The CPU states of the core -/

/-- The core executes instructions. -/
def Computes (s : Core.Regs) : Prop :=
  s.state = .cpuFetch ∨ s.state = .cpuExecute ∨ s.state = .cpuStore ∨ s.state = .cpuLoad

section Cores

variable {q : Core.Params} {i i' : Core.Input} {s : Core.Regs}

/-- What the core does depends on the wires that its state looks at. -/
theorem coreStep_congr (hrst : i.rstN = true) (hrst' : i'.rstN = true) (hcpu : Computes s)
    (hread : s.state = .cpuFetch ∨ s.state = .cpuLoad →
      i.ramioDataOutReady = i'.ramioDataOutReady ∧
        (i'.ramioDataOutReady = true → i.ramioDataOut = i'.ramioDataOut))
    (hwrite : s.state = .cpuStore → i.ramioBusy = i'.ramioBusy) :
    Core.step q i s = Core.step q i' s := by
  simp only [Core.step, hrst, hrst', if_true]
  rcases hcpu with hstate | hstate | hstate | hstate
  · obtain ⟨hready, hdata⟩ := hread (.inl hstate)
    simp only [Core.fsm, hstate, Core.cpuFetch, hready]
    cases hanswer : i'.ramioDataOutReady with
    | false => rfl
    | true => rw [hdata hanswer]
  · simp only [Core.fsm, hstate]
  · simp only [Core.fsm, hstate, Core.cpuStore, hwrite hstate]
  · obtain ⟨hready, hdata⟩ := hread (.inr hstate)
    simp only [Core.fsm, hstate, Core.cpuLoad, hready]
    cases hanswer : i'.ramioDataOutReady with
    | false => rfl
    | true => rw [hdata hanswer]

theorem state_of_fetch (hrst : i.rstN = true) (hstate : s.state = .cpuFetch)
    (hready : i.ramioDataOutReady = true) : (Core.step q i s).state = .cpuExecute := by
  simp [Core.step, hrst, Core.fsm, hstate, Core.cpuFetch, hready]

/-- A load asks for what one of the load instructions reads. -/
def Loads (s : Core.Regs) : Prop :=
  s.state = .cpuLoad → ∃ l : Load, Core.loadType l.funct3 = some s.ramioReadType

theorem exists_load (f : BitVec 3) :
    ∃ l : Load, Core.loadType l.funct3 = some ((Core.loadType f).getD 0b111) := by
  rcases Core.funct3_cases f with rfl | rfl | rfl | rfl | rfl | rfl | rfl | rfl
  · exact ⟨.lb, rfl⟩
  · exact ⟨.lh, rfl⟩
  · exact ⟨.lw, rfl⟩
  · exact ⟨.lw, rfl⟩
  · exact ⟨.lbu, rfl⟩
  · exact ⟨.lhu, rfl⟩
  · exact ⟨.lw, rfl⟩
  · exact ⟨.lw, rfl⟩

theorem fetch_ne_load : Core.StateE.cpuFetch ≠ .cpuLoad := by decide

theorem execute_ne_load : Core.StateE.cpuExecute ≠ .cpuLoad := by decide

theorem store_ne_load : Core.StateE.cpuStore ≠ .cpuLoad := by decide

theorem loads_cpuExecute : Loads (Core.cpuExecute s) := by
  intro hnext
  have hexecuted := Core.executed_cpuExecute s
  generalize hs : Core.cpuExecute s = s' at hexecuted hnext
  cases hexecuted with
  | next => exact absurd hnext fetch_ne_load
  | store => exact absurd hnext store_ne_load
  | load hopcode readType address led =>
      rw [Core.cpuExecute_load s hopcode] at hs
      have hread := congrArg Core.Regs.ramioReadType hs
      change (Core.loadType (Core.funct3 s.ir)).getD 0b111 = readType at hread
      obtain ⟨l, hl⟩ := exists_load (Core.funct3 s.ir)
      rw [hread] at hl
      exact ⟨l, hl⟩

theorem Loads.step (h : Loads s) (hrst : i.rstN = true) (hcpu : Computes s) :
    Loads (Core.step q i s) := by
  simp only [Core.step, hrst, if_true]
  rcases hcpu with hstate | hstate | hstate | hstate
  · intro hnext
    simp only [Core.fsm, hstate, Core.cpuFetch] at hnext
    split at hnext
    · exact absurd hnext execute_ne_load
    · exact absurd hnext fetch_ne_load
  · simp only [Core.fsm, hstate]
    exact loads_cpuExecute (s := s)
  · intro hnext
    simp only [Core.fsm, hstate, Core.cpuStore] at hnext
    split at hnext
    · exact absurd (hstate.symm.trans hnext) store_ne_load
    · exact absurd hnext fetch_ne_load
  · intro hnext
    simp only [Core.fsm, hstate, Core.cpuLoad] at hnext ⊢
    split
    · next hready =>
        rw [if_pos hready] at hnext
        exact absurd hnext fetch_ne_load
    · exact h hstate

end Cores

/-! ## Words and bytes -/

theorem extend_moved (l : Load) {r : BitVec 3} (hr : Core.loadType l.funct3 = some r) (v : Word) :
    Decode.extend r (Decode.moved (Decode.readWidth r) v) = Decode.extend r v := by
  cases l <;> obtain rfl := Option.some.inj hr <;>
    simp [Decode.extend, Decode.readWidth, Decode.moved]

/-- What `ramio` makes of a word is what the memory of bytes returns. -/
theorem loadData_of_sameBytes {ram : ℕ → Byte} (h : SameBytes M ram) {address : Word}
    (ha : address.toNat < memoryEnd) (l : Load) {r : BitVec 3}
    (hr : Core.loadType l.funct3 = some r) :
    Ramio.loadData r address (M (address.toNat / 4)) =
      Decode.extend r (loadRam address (Decode.readWidth r) ram) := by
  rw [loadData_eq l hr, h.loadRam_eq ha]
  split
  · exact (extend_zero r).symm
  · exact (extend_moved l hr _).symm

/-! ## The core and its memory -/

open Classical in
/-- The cache makes the core wait. -/
noncomputable def answer (p : Params) (e : Surroundings) (b : Board bitTime) : Answer where
  ready := !decide ((∃ M, Sound p b M) ∧
    Cache.busy p.cache (b.cacheInput p e) b.chip.cache = true)
  idleData := 0
  flashMiso := false

theorem answer_ready (h : Sound p b M) :
    (answer p e b).ready = !Cache.busy p.cache (b.cacheInput p e) b.chip.cache := by
  have hexists : ∃ M, Sound p b M := ⟨M, h⟩
  simp [answer, hexists]

/-- The board does what the core does with the RAM of the emulator. -/
structure Matches (p : Params) (b : Board bitTime) (x : Refinement.System Machine)
    (M : WordMemory) : Prop where
  core : x.core = b.chip.core
  sound : Sound p b M
  same : SameBytes M x.traced.memory.ram
  loads : Loads b.chip.core

section Cycles

variable (h : Matches p b x M) (hp : Configured p) (hfits : Fits p) (hrun : Running e)

/-- A cycle in which both cores are given the same answer. -/
theorem Matches.next (h : Matches p b x M) (hrun : Running e) (hcpu : Computes b.chip.core)
    {a : Answer} {M' : WordMemory}
    (hread : b.chip.core.state = .cpuFetch ∨ b.chip.core.state = .cpuLoad →
      (x.input ramMemory a).ramioDataOutReady =
          (b.chip.coreInput p (b.pins p e)).ramioDataOutReady ∧
        ((b.chip.coreInput p (b.pins p e)).ramioDataOutReady = true →
          (x.input ramMemory a).ramioDataOut = (b.chip.coreInput p (b.pins p e)).ramioDataOut))
    (hwrite : b.chip.core.state = .cpuStore →
      (x.input ramMemory a).ramioBusy = (b.chip.coreInput p (b.pins p e)).ramioBusy)
    (hsound : Sound p (b.step p memory e) M')
    (hsame : SameBytes M' (x.step ramMemory p.core a).traced.memory.ram) :
    Matches p (b.step p memory e) (x.step ramMemory p.core a) M' where
  core := by
    have hx : (x.step ramMemory p.core a).core =
        Core.step p.core (x.input ramMemory a) b.chip.core := by
      rw [← h.core]
      rfl
    rw [hx]
    exact coreStep_congr rfl hrun.rstN hcpu hread hwrite
  sound := hsound
  same := hsame
  loads := h.loads.step hrun.rstN hcpu

include h hp hfits hrun

theorem Matches.wait (hcpu : Computes b.chip.core)
    (hbusy : Cache.busy p.cache (b.cacheInput p e) b.chip.cache = true) :
    Matches p (b.step p memory e) (x.step ramMemory p.core (answer p e b)) M := by
  obtain ⟨henable, -, hwaits, hready⟩ := waits hbusy
  have hanswer : (answer p e b).ready = false := by rw [answer_ready h.sound, hbusy]; rfl
  have hcompletes : x.completes (answer p e b) = false := by
    simp [Refinement.System.completes, hanswer]
  refine h.next hrun hcpu ?_ ?_ (h.sound.wait hp hfits hrun hbusy) ?_
  · intro _
    refine ⟨?_, fun hdata ↦ ?_⟩
    · rw [hready]
      simp [Refinement.System.input, hcompletes]
    · rw [hready] at hdata
      exact absurd hdata Bool.false_ne_true
  · intro _
    rw [hwaits]
    simp [Refinement.System.input, hanswer, h.core, henable]
  · simp only [Refinement.System.step, hcompletes]
    exact h.same

theorem Matches.execute (hstate : b.chip.core.state = .cpuExecute)
    (hdisabled : b.chip.core.ramioEnable = false) :
    Matches p (b.step p memory e) (x.step ramMemory p.core (answer p e b)) M := by
  have hcompletes : x.completes (answer p e b) = false := by
    simp [Refinement.System.completes, h.core, hdisabled]
  have hfetch (h : b.chip.core.state = .cpuFetch) : Ramio.isPort b.chip.core.ramioAddress = false :=
    absurd (hstate.symm.trans h) (by decide)
  refine h.next hrun (.inr (.inl hstate)) ?_ ?_
    (h.sound.keep hp hfits hrun hfetch (accepted_of_disabled hdisabled)) ?_
  · rintro (hfetch | hload)
    · exact absurd (hstate.symm.trans hfetch) (by decide)
    · exact absurd (hstate.symm.trans hload) (by decide)
  · intro hstore
    exact absurd (hstate.symm.trans hstore) (by decide)
  · simp only [Refinement.System.step, hcompletes]
    exact h.same

variable (hfree : Cache.busy p.cache (b.cacheInput p e) b.chip.cache = false)

include hfree

theorem Matches.read (hstate : b.chip.core.state = .cpuFetch ∨ b.chip.core.state = .cpuLoad)
    (ha : b.chip.core.ramioAddress.toNat < memoryEnd) {l : Load}
    (hl : Core.loadType l.funct3 = some b.chip.core.ramioReadType) :
    Matches p (b.step p memory e) (x.step ramMemory p.core (answer p e b)) M := by
  have hreads : Reads b := reads_of_shape h.sound.shape hstate (not_port ha)
  have hanswer : (answer p e b).ready = true := by rw [answer_ready h.sound, hfree]; rfl
  have hcompletes : x.completes (answer p e b) = true := by
    simp [Refinement.System.completes, hanswer, h.core, hreads.enable]
  have hmemory : ramMemory.answer x.core x.traced =
      (Decode.extend b.chip.core.ramioReadType (loadRam b.chip.core.ramioAddress
          (Decode.readWidth b.chip.core.ramioReadType) x.traced.memory.ram),
        (ramMemory.read x.traced b.chip.core.ramioAddress
          (Decode.readWidth b.chip.core.ramioReadType)).2) := by
    rw [Refinement.Memory.answer, h.core, if_neg (not_not.mpr hreads.writeType)]
    rfl
  obtain ⟨hready, hnone⟩ := hreads.input (p := p) (e := e)
  have hcpu : Computes b.chip.core := by
    rcases hstate with hstate | hstate
    · exact .inl hstate
    · exact .inr (.inr (.inr hstate))
  refine h.next hrun hcpu ?_ ?_
    (h.sound.keep hp hfits hrun (fun _ ↦ hreads.address) hnone) ?_
  · intro _
    refine ⟨?_, fun _ ↦ ?_⟩
    · rw [hready, hfree]
      simp [Refinement.System.input, hcompletes, h.core, hreads.writeType]
    · rw [hreads.dataOut h.sound.coherent hp ha hfree, loadData_of_sameBytes h.same ha l hl]
      simp [Refinement.System.input, hcompletes, hmemory]
  · intro hstore
    rcases hstate with hstate | hstate
    · exact absurd (hstate.symm.trans hstore) (by decide)
    · exact absurd (hstate.symm.trans hstore) (by decide)
  · simp only [Refinement.System.step, hcompletes, if_true, hmemory]
    exact h.same

theorem Matches.write (hstate : b.chip.core.state = .cpuStore) (hwrites : Writes b)
    {width : BusOpWidth} (hwidth : b.chip.core.ramioWriteType = Decode.writeType width) :
    ∃ M', Matches p (b.step p memory e) (x.step ramMemory p.core (answer p e b)) M' := by
  have hanswer : (answer p e b).ready = true := by rw [answer_ready h.sound, hfree]; rfl
  have hcompletes : x.completes (answer p e b) = true := by
    simp [Refinement.System.completes, hanswer, h.core, hwrites.enable]
  have htype : writeWidth (Decode.writeType width) = width := by cases width <;> rfl
  have hmemory : (ramMemory.answer x.core x.traced).2 =
      ramMemory.write x.traced b.chip.core.ramioAddress width b.chip.core.ramioDataIn := by
    rw [Refinement.Memory.answer, h.core, if_pos hwrites.writeType, hwidth, htype]
  have hsound : Sound p (b.step p memory e)
      (M.writeAll (Cache.accepted p.cache (b.cacheInput p e) b.chip.cache)) :=
    h.sound.step hp hfits hrun fun hfetch ↦ absurd (hstate.symm.trans hfetch) (by decide)
  rw [hwrites.written hp hfree, hwidth] at hsound
  refine ⟨_, h.next hrun (.inr (.inr (.inl hstate))) ?_ ?_ hsound ?_⟩
  · rintro (hfetch | hload)
    · exact absurd (hstate.symm.trans hfetch) (by decide)
    · exact absurd (hstate.symm.trans hload) (by decide)
  · intro _
    rw [hwrites.input, hfree]
    simp [Refinement.System.input, hanswer]
  · simp only [Refinement.System.step, hcompletes, if_true, hmemory]
    have hstored := h.same.store b.chip.core.ramioAddress width b.chip.core.ramioDataIn
    rw [← storeRam_moved] at hstored
    exact hstored

end Cycles

/-! ## One cycle of an instruction -/

theorem below_of_bus {address data : Word} {width : BusOpWidth} {isStore : Bool}
    (h : (ramMemory.bus k address width isStore data).status = 0) :
    address.toNat < memoryEnd := by
  by_contra hout
  have hstatus : ramMemory.status k.memory address width isStore = 1 := if_neg hout
  unfold Refinement.Memory.bus at h
  dsimp only at h
  rw [hstatus, if_pos Nat.one_ne_zero] at h
  exact Nat.one_ne_zero h

theorem Matches.fetching (h : Matches p b x M) (hfetching : Fetching c k x)
    (hok : (tick ramMemory.bus c k).status = 0) :
    b.chip.core.ramioAddress.toNat < memoryEnd := by
  rw [← h.core, hfetching.address]
  exact below_of_bus (tick_fetched hok)

theorem Matches.storing (h : Matches p b x M) {width : BusOpWidth}
    (hstoring : Storing ramMemory c k width x) (hinside : InMemory k) : Writes b where
  enable := by rw [← h.core]; exact hstoring.enable
  readType := by
    have hstate := hstoring.state
    rw [h.core] at hstate
    exact (h.sound.shape.of_store hstate).2
  writeType := by
    rw [← h.core, hstoring.writeType]
    cases width <;> decide
  address := by
    have hall : InMemory (tick ramMemory.bus c k).state := tick_keeps inMemory_bus hinside
    rw [hstoring.rest] at hall
    rw [← h.core]
    exact hall _ (List.mem_append_right _ (List.mem_singleton_self _))

theorem Matches.loading (h : Matches p b x M) (hloading : Loading ramMemory c k x)
    (hinside : InMemory k) : b.chip.core.ramioAddress.toNat < memoryEnd := by
  have hall : InMemory (tick ramMemory.bus c k).state := tick_keeps inMemory_bus hinside
  rw [hloading.rest, Refinement.Memory.answer, if_neg (not_not.mpr hloading.writeType)] at hall
  rw [← h.core]
  exact hall _ (List.mem_append_right _ (List.mem_singleton_self _))

/-- The board goes on with the core while the emulated CPU succeeds in RAM. -/
theorem Matches.step (h : Matches p b x M) (hp : Configured p) (hfits : Fits p)
    (hrun : Running e) (hphase : Fetching c k x ∨ InFlight ramMemory c k x) (hinside : InMemory k)
    (hok : (tick ramMemory.bus c k).status = 0) :
    ∃ M', Matches p (b.step p memory e) (x.step ramMemory p.core (answer p e b)) M' := by
  cases hbusy : Cache.busy p.cache (b.cacheInput p e) b.chip.cache with
  | true =>
      have hcpu : Computes b.chip.core := by
        unfold Computes
        rw [← h.core]
        rcases hphase with hphase | hphase | ⟨width, hphase⟩ | hphase
        · exact .inl hphase.state
        · exact .inr (.inl hphase.state)
        · exact .inr (.inr (.inl hphase.state))
        · exact .inr (.inr (.inr hphase.state))
      exact ⟨M, h.wait hp hfits hrun hcpu hbusy⟩
  | false =>
      rcases hphase with hphase | hphase | ⟨width, hphase⟩ | hphase
      · have hstate := hphase.state
        have hread := hphase.readType
        rw [h.core] at hstate hread
        exact ⟨M, h.read hp hfits hrun hbusy (.inl hstate) (h.fetching hphase hok)
          (l := .lw) (by rw [hread]; rfl)⟩
      · have hstate := hphase.state
        have henable := hphase.enable
        rw [h.core] at hstate henable
        exact ⟨M, h.execute hp hfits hrun hstate henable⟩
      · have hstate := hphase.state
        have hwidth := hphase.writeType
        rw [h.core] at hstate hwidth
        exact h.write hp hfits hrun hbusy hstate (h.storing hphase hinside) hwidth
      · have hstate := hphase.state
        rw [h.core] at hstate
        obtain ⟨l, hl⟩ := h.loads hstate
        exact ⟨M, h.read hp hfits hrun hbusy (.inr hstate) (h.loading hphase hinside) hl⟩

/-! ## Runs -/

section Runs

variable (p memory) (start : Board bitTime) (env : ℕ → Surroundings)

/-- The core alone, whose instructions are counted. -/
def processor (b : Board bitTime) : Refinement.System Unit := ⟨b.chip.core, ⟨(), []⟩⟩

/-- The instructions retired in the first `t` cycles. -/
def retired (t : ℕ) : ℕ := Refinement.retired (fun u ↦ (run p memory start env u).processor) t

/-- The core with the RAM of the emulator, which makes it wait as the cache does. -/
noncomputable def paced (m : Machine) : ℕ → Refinement.System Machine :=
  Refinement.System.run ramMemory p.core ⟨start.chip.core, ⟨m, []⟩⟩
    fun t ↦ answer p (env t) (run p memory start env t)

/-- The register file once the result on its way into it is written. -/
def registers (b : Board bitTime) : RegisterFile :=
  Registers.step (Core.rd b.chip.core.ir) b.chip.core.rdWriteEnable b.chip.core.rdDataIn
    b.chip.core.data

/-- The core is about to fetch in the state of the emulated CPU, and RAM is what
the cache and the SDRAM show outside bursts. -/
structure Holds (b : Board bitTime) (c : Cpu) (m : Machine) : Prop where
  state : b.chip.core.state = .cpuFetch
  pc : b.chip.core.pc = c.pc
  regs : ∀ r < 32, r ≠ 0 → b.registers r = c.regs r
  led : b.chip.core.led = true
  ram : Rests b → SameBytes (Cache.view p.cache b.system) m.ram

/-- Up to cycle `t` no instruction after the first `n` has been fetched. -/
def Before {σ : Type*} (xs : ℕ → Refinement.System σ) (n t : ℕ) : Prop :=
  Refinement.retired xs t < n ∨
    Refinement.retired xs t = n ∧ (xs t).core.state = .cpuFetch

variable {p memory} {start} {env} {m m' : Machine} {c' : Cpu} {n t : ℕ}

theorem Before.of_succ {σ : Type*} {xs : ℕ → Refinement.System σ} (h : Before xs n (t + 1)) :
    Before xs n t := by
  by_cases hstate : (xs t).core.state = .cpuFetch
  · have hsame := retired_fetching hstate
    rcases h with hless | ⟨heq, -⟩
    · exact .inl (by omega)
    · exact .inr ⟨by omega, hstate⟩
  · by_cases hnext : (xs (t + 1)).core.state = .cpuFetch
    · have hmore := retired_retires hstate hnext
      rcases h with hless | ⟨heq, -⟩
      · exact .inl (by omega)
      · exact .inl (by omega)
    · have hsame := retired_inFlight hnext
      rcases h with hless | ⟨-, hfetch⟩
      · exact .inl (by omega)
      · exact absurd hfetch hnext

/-- After the last instruction the core goes on fetching. -/
theorem Before.last {σ : Type*} {xs : ℕ → Refinement.System σ} (h : Before xs n (t + 1))
    (hmore : ¬ Refinement.retired xs t < n) :
    (Refinement.retired xs t = n ∧ (xs t).core.state = .cpuFetch) ∧
      (xs (t + 1)).core.state = .cpuFetch := by
  rcases h.of_succ with hless | ⟨heq, hstate⟩
  · exact absurd hless hmore
  · have hsame := retired_fetching hstate
    rcases h with hless | ⟨-, hnext⟩
    · omega
    · exact ⟨⟨heq, hstate⟩, hnext⟩

theorem paced_succ : paced p memory start env m (t + 1) =
    (paced p memory start env m t).step ramMemory p.core
      (answer p (env t) (run p memory start env t)) := rfl

theorem reached_paced (hticks : Ticks ramMemory.bus n c ⟨m, []⟩ c' k)
    (hstart : Fetching c ⟨m, []⟩ ⟨start.chip.core, ⟨m, []⟩⟩)
    (hretired : Refinement.retired (paced p memory start env m) t = n) :
    Reached ramMemory c' k (paced p memory start env m t) :=
  reached_of_ticks hstart t hticks hretired

/-- Before the end of the program the core is in a phase of an instruction. -/
theorem phase_of_ticks (hticks : Ticks ramMemory.bus n c ⟨m, []⟩ c' k)
    (hstart : Fetching c ⟨m, []⟩ ⟨start.chip.core, ⟨m, []⟩⟩)
    (ht : Refinement.retired (paced p memory start env m) t < n) :
    ∃ d l, (Fetching d l (paced p memory start env m t) ∨
        InFlight ramMemory d l (paced p memory start env m t)) ∧ InMemory l ∧
      (tick ramMemory.bus d l).status = 0 := by
  obtain ⟨d, l, hbefore, hok, hrunning⟩ := hticks.next ht
  have hinside : InMemory l := hbefore.keeps inMemory_bus fun a ha ↦ absurd ha List.not_mem_nil
  refine ⟨d, l, ?_, hinside, hok⟩
  rcases reached_paced hbefore hstart rfl with hfetching | ⟨-, hflight⟩
  · exact .inl hfetching
  · exact .inr (hflight hok hrunning)

/-- Cores in the same states retire the same instructions. -/
theorem retired_step (hretired : retired p memory start env t =
      Refinement.retired (paced p memory start env m) t)
    (hnow : (paced p memory start env m t).core = (run p memory start env t).chip.core)
    (hnext : (paced p memory start env m (t + 1)).core =
      (run p memory start env (t + 1)).chip.core) :
    retired p memory start env (t + 1) =
      Refinement.retired (paced p memory start env m) (t + 1) := by
  unfold retired at hretired ⊢
  rw [Refinement.retired, Refinement.retired, hretired, hnow, hnext]
  rfl

section Programs

variable (hp : Configured p) (hfits : Fits p) (hrun : ∀ n, Running (env n))

include hp hfits hrun

theorem exists_ready (hfair : ∀ n, ∃ u ≥ n, (env u).ack = true) (t : ℕ) :
    ∃ u ≥ t, (answer p (env u) (run p memory start env u)).ready = true := by
  cases hready : (answer p (env t) (run p memory start env t)).ready with
  | true => exact ⟨t, le_rfl, hready⟩
  | false =>
      simp only [answer, Bool.not_eq_false', decide_eq_true_eq] at hready
      obtain ⟨⟨M', hsound⟩, -⟩ := hready
      obtain ⟨u, hu, hserved, hfree⟩ := Sound.served hp hfits hrun hfair hsound
      exact ⟨u, hu, by rw [answer_ready hserved, hfree]; rfl⟩

variable (hsound : Sound p start M)

include hsound

/-- Up to the end of the program the board does what the core does with the RAM
of the emulator. -/
theorem matches_of_ticks (hticks : Ticks ramMemory.bus n c ⟨m, []⟩ c' k)
    (hstart : Fetching c ⟨m, []⟩ ⟨start.chip.core, ⟨m, []⟩⟩) (hsame : SameBytes M m.ram) (t : ℕ)
    (ht : Before (paced p memory start env m) n t ∨
      Before (fun u ↦ (run p memory start env u).processor) n t) :
    retired p memory start env t = Refinement.retired (paced p memory start env m) t ∧
      ∃ M', Matches p (run p memory start env t) (paced p memory start env m t) M' := by
  induction t with
  | zero =>
      have hfetch : start.chip.core.state = .cpuFetch := hstart.state
      exact ⟨rfl, M, rfl, hsound, hsame, fun hload ↦ absurd (hfetch.symm.trans hload) fetch_ne_load⟩
  | succ t ih =>
      obtain ⟨hretired, M', hmatches⟩ := ih (ht.imp Before.of_succ Before.of_succ)
      suffices hnext : ∃ M'', Matches p (run p memory start env (t + 1))
          (paced p memory start env m (t + 1)) M'' by
        obtain ⟨M'', hnext⟩ := hnext
        exact ⟨retired_step hretired hmatches.core hnext.core, M'', hnext⟩
      rw [paced_succ]
      by_cases hmore : Refinement.retired (paced p memory start env m) t < n
      · obtain ⟨d, l, hphase, hinside, hok⟩ := phase_of_ticks hticks hstart hmore
        exact hmatches.step hp hfits (hrun t) hphase hinside hok
      · -- the last instruction has retired: the fetch of the next one waits
        have hstate : (run p memory start env t).chip.core.state = .cpuFetch := by
          rcases ht with ht | ht
          · rw [← hmatches.core]
            exact (ht.last hmore).1.2
          · exact (ht.last (by rw [← retired, hretired]; exact hmore)).1.2
        refine ⟨M', hmatches.wait hp hfits (hrun t) (.inl hstate) ?_⟩
        rw [← Bool.not_eq_false]
        intro hfree
        rcases ht with ht | ht
        · obtain ⟨⟨hlast, -⟩, hfetch⟩ := ht.last hmore
          rcases reached_paced hticks hstart hlast with hfetching | ⟨hne, -⟩
          · have hready : (answer p (env t) (run p memory start env t)).ready = true := by
              rw [answer_ready hmatches.sound, hfree]
              rfl
            rw [paced_succ, hfetching.state_receive hready] at hfetch
            exact absurd hfetch (by decide)
          · rw [← hmatches.core] at hstate
            exact absurd hstate hne
        · have hfetch := (ht.last (by rw [← retired, hretired]; exact hmore)).2
          have hready := fetch_ready hmatches.sound.shape hstate hfree
          have hnext : (run p memory start env (t + 1)).chip.core.state = .cpuExecute := by
            rw [← state_of_fetch (hrun t).rstN hstate hready]
            rfl
          exact absurd (hnext.symm.trans hfetch) (by decide)

/-- A program that the emulated CPU executes in RAM is executed by the board. -/
theorem holds_of_ticks (hfair : ∀ n, ∃ u ≥ n, (env u).ack = true)
    (hticks : Ticks ramBus n c m c' m')
    (hstart : Fetching c ⟨m, []⟩ ⟨start.chip.core, ⟨m, []⟩⟩) (hsame : SameBytes M m.ram) :
    (∀ t, retired p memory start env t = n →
      (run p memory start env t).chip.core.state = .cpuFetch →
      Holds p (run p memory start env t) c' m') ∧
    ∃ t, retired p memory start env t = n ∧ Holds p (run p memory start env t) c' m' ∧
      Rests (run p memory start env t) := by
  have hm : (⟨m, []⟩ : Traced Machine).memory = m := rfl
  obtain ⟨k, hmemory, rfl⟩ := ramMemory_serves.ticks hm hticks
  have hholds (t : ℕ) (ht : Before (paced p memory start env m) n t ∨
        Before (fun u ↦ (run p memory start env u).processor) n t)
      (hretired : Refinement.retired (paced p memory start env m) t = n)
      (hfetch : (run p memory start env t).chip.core.state = .cpuFetch) :
      Holds p (run p memory start env t) c' k.memory := by
    obtain ⟨-, M', hmatches⟩ := matches_of_ticks hp hfits hrun hsound hmemory hstart hsame t ht
    rw [← hmatches.core] at hfetch
    rcases reached_paced hmemory hstart hretired with hfetching | ⟨hne, -⟩
    · refine ⟨hmatches.core ▸ hfetch, ?_, ?_, ?_, ?_⟩
      · rw [← hmatches.core]
        exact hfetching.pc
      · unfold registers
        rw [← hmatches.core]
        exact hfetching.regs
      · rw [← hmatches.core]
        exact hfetching.led
      · intro hrests a ha
        have hword : a / 4 < 2 ^ p.cache.ramAddressBitwidth := by
          rw [hp.bitwidth]
          unfold memoryEnd at ha
          omega
        rw [hmatches.sound.coherent.view_eq hp.mode hrests hword, ← hmatches.same a ha]
        exact congrArg (fun l ↦ l.memory.ram a) hfetching.traced.symm
    · exact absurd hfetch hne
  refine ⟨fun t hretired hfetch ↦ ?_, ?_⟩
  · have ht : Before (fun u ↦ (run p memory start env u).processor) n t := .inr ⟨hretired, hfetch⟩
    obtain ⟨hsame', -⟩ := matches_of_ticks hp hfits hrun hsound hmemory hstart hsame t (.inr ht)
    exact hholds t (.inr ht) (hsame'.symm.trans hretired) hfetch
  · have hready : ∀ t, ∃ u ≥ t, (answer p (env u) (run p memory start env u)).ready = true :=
      exists_ready hp hfits hrun hfair
    obtain ⟨t, hlast⟩ := exists_retired hstart hready hmemory
    have hwait : ∀ u ≥ t, (Refinement.retired (paced p memory start env m) u = n ∧
          (paced p memory start env m u).core.state = .cpuFetch) →
        ¬ (answer p (env u) (run p memory start env u)).ready = true →
        Refinement.retired (paced p memory start env m) (u + 1) = n ∧
          (paced p memory start env m (u + 1)).core.state = .cpuFetch := by
      rintro u - ⟨hretired, hstate⟩ hbusy
      rcases reached_paced hmemory hstart hretired with hfetching | ⟨hne, -⟩
      · refine ⟨(retired_fetching hstate).trans hretired, ?_⟩
        rw [paced_succ]
        exact (hfetching.wait (Bool.eq_false_iff.mpr hbusy)).state
      · exact absurd hstate hne
    obtain ⟨u, -, ⟨hretired, hstate⟩, hanswer⟩ := Clocked.exists_event hlast hwait hready
    have ht : Before (paced p memory start env m) n u := .inr ⟨hretired, hstate⟩
    obtain ⟨hsame', M', hmatches⟩ :=
      matches_of_ticks hp hfits hrun hsound hmemory hstart hsame u (.inl ht)
    have hfetch := hstate
    rw [hmatches.core] at hfetch
    refine ⟨u, hsame'.trans hretired, hholds u (.inl ht) hretired hfetch, ?_⟩
    rw [answer_ready hmatches.sound, Bool.not_eq_true'] at hanswer
    exact hmatches.sound.coherent.rests hanswer

end Programs

end Runs

end TangNano.Top.Board
