import TangNano.Cache.Model
import TangNano.Ramio.Handshake

/-!
# Every load and store is accepted once

The handshake along a run.  An access waits with an unchanged request and is
gone in the cycle after its acceptance, so the devices are touched once by each
instruction that touches them and never between.
-/

namespace TangNano.Soc

open Ramio

/-- The registers after `n` cycles. -/
def run (p : Core.Params) (start : State) (input : ℕ → Input) (n : ℕ) : State :=
  Clocked.state (step p) start input n

/-- A run without a reset, from one on: any program and any latencies, with
fetches and boot writes off the ports. -/
structure Running (p : Core.Params) (start : State) (input : ℕ → Input) : Prop where
  bytes : p.flashTransferByteCount.toNat ≤ 0xffffffe0
  reset : ∃ i s, i.rstN = false ∧ start = step p i s
  running : ∀ n, (input n).rstN = true
  cache : ∀ n, CacheAnswers (input n) (run p start input n)
  fetches : ∀ n, (run p start input n).core.state = .cpuFetch →
    isPort (run p start input n).core.ramioAddress = false

/-- A store or a load is being executed. -/
def isAccess (x : State) : Prop :=
  x.core.state = .cpuExecute ∧
    (Core.opcode x.core.ir = 0b01000 ∨ Core.opcode x.core.ir = 0b00000)

/-- The request of the instruction executed in cycle `a` has been on the wires
since and is in cycle `u`. -/
def Pending (p : Core.Params) (start : State) (input : ℕ → Input) (a u : ℕ) : Prop :=
  a < u ∧ ∀ v, a < v → v ≤ u →
    request (run p start input v).core = request (run p start input (a + 1)).core ∧
      (run p start input v).core.state = (run p start input (a + 1)).core.state

/-- The request of the instruction executed in cycle `a` completes in cycle `u`. -/
def AcceptedAt (p : Core.Params) (start : State) (input : ℕ → Input) (a u : ℕ) : Prop :=
  Pending p start input a u ∧ accepted (input u) (run p start input u) = true

/-- `cache` answers as a run expects it to. -/
theorem cacheAnswers_of_cache {i : Input} {x : State} {q : Cache.Params} {j : Cache.Input}
    {c : Cache.Regs} (henable : j.enable = (wires i x).cacheEnable)
    (hwrite : j.writeEnable = (wires i x).cacheWriteEnable)
    (hbusy : i.parts.cacheBusy = Cache.busy q j c)
    (hready : i.parts.cacheDataOutReady = Cache.dataOutReady q j c) : CacheAnswers i x := by
  refine ⟨Cache.cacheLineHit q j c, ?_, ?_⟩
  · rw [hbusy, Cache.busy, henable]
  · rw [hready, Cache.dataOutReady, henable, hwrite]
    by_cases h : (wires i x).cacheWriteEnable = 0
    · simp [h]
    · rw [if_pos h, beq_eq_false_iff_ne.mpr h, Bool.false_and]

/-- What a store or load puts on the wires. -/
theorem isAccess.request {p : Core.Params} {i : Input} {x : State} (h : isAccess x)
    (hrst : i.rstN = true) :
    Accessing (step p i x) ∧
      (Core.opcode x.core.ir = 0b01000 →
        (step p i x).core.state = .cpuStore ∧
          Soc.request (step p i x).core =
            ⟨true, 0, (Core.storeType (Core.funct3 x.core.ir)).getD 0,
              Core.rs1DataOut x.core + Core.sImm12 x.core.ir, Core.rs2DataOut x.core⟩) ∧
      (Core.opcode x.core.ir = 0b00000 →
        (step p i x).core.state = .cpuLoad ∧
          Soc.request (step p i x).core =
            ⟨true, (Core.loadType (Core.funct3 x.core.ir)).getD 0b111, 0,
              Core.rs1DataOut x.core + Core.iImm12 x.core.ir, x.core.ramioDataIn⟩) := by
  obtain ⟨hstate, hopcode⟩ := h
  have hcore : (step p i x).core = Core.step p (coreInput i x) x.core := rfl
  have hrun : (coreInput i x).rstN = true := hrst
  rw [Accessing, hcore]
  simp only [Core.step, hrun, if_true, Core.fsm, hstate]
  rcases hopcode with hstore | hload
  · rw [Core.cpuExecute_store x.core hstore]
    exact ⟨.inr rfl, fun _ ↦ ⟨rfl, rfl⟩, fun hload ↦ absurd (hstore.symm.trans hload) (by decide)⟩
  · rw [Core.cpuExecute_load x.core hload]
    exact ⟨.inl rfl, fun hstore ↦ absurd (hload.symm.trans hstore) (by decide), fun _ ↦ ⟨rfl, rfl⟩⟩

theorem isAccess_of_accessing {p : Core.Params} {i : Input} {x : State} (hrst : i.rstN = true)
    (hstate : x.core.state = .cpuExecute) (hnext : Accessing (step p i x)) : isAccess x := by
  have hcore : (step p i x).core = Core.step p (coreInput i x) x.core := rfl
  have hrun : (coreInput i x).rstN = true := hrst
  rw [Accessing, hcore] at hnext
  simp only [Core.step, hrun, if_true, Core.fsm, hstate] at hnext
  refine ⟨hstate, ?_⟩
  have hexecuted := Core.executed_cpuExecute x.core
  generalize Core.cpuExecute x.core = t at hexecuted hnext
  cases hexecuted with
  | next => simp [Core.fetchNext] at hnext
  | store hopcode => exact .inl hopcode
  | load hopcode => exact .inr hopcode

section Runs

variable {p : Core.Params} {start : State} {input : ℕ → Input}

theorem Running.shape (h : Running p start input) (n : ℕ) :
    Shape (run p start input n).core := by
  induction n with
  | zero =>
      obtain ⟨i, s, hrst, hstart⟩ := h.reset
      change Shape start.core
      rw [hstart]
      exact shape_reset (i := coreInput i s) hrst
  | succ n ih => exact Shape.step (i := coreInput _ _) ih (h.running n) h.bytes (h.fetches n)

/-- While the cache is busy its request stays. -/
theorem Running.cacheRequest_held (h : Running p start input) {n : ℕ}
    (hbusy : (input n).parts.cacheBusy = true) :
    cacheRequest (wires (input (n + 1)) (run p start input (n + 1))) =
      cacheRequest (wires (input n) (run p start input n)) := by
  obtain ⟨hit, hcacheBusy, hcacheReady⟩ := h.cache n
  rw [hbusy, eq_comm, Bool.and_eq_true, Bool.not_eq_true'] at hcacheBusy
  obtain ⟨henable, hmiss⟩ := hcacheBusy
  rw [hmiss, Bool.and_false, Bool.and_false] at hcacheReady
  obtain ⟨hrequest, hport⟩ := of_cacheEnable henable
  have hheld : request (run p start input (n + 1)).core = request (run p start input n).core :=
    ((h.shape n).held (p := p) (i := coreInput (input n) (run p start input n)) (h.running n)
      hrequest ((busy_of_ram hport).trans hbusy)
      ((dataOutReady_of_ram hport).trans hcacheReady)).1
  unfold wires
  rw [hheld]
  exact cacheRequest_congr

theorem Pending.accessing {a u : ℕ} (h : Pending p start input a u)
    (ha : Accessing (run p start input (a + 1))) : Accessing (run p start input u) := by
  have hstate := (h.2 u h.1 le_rfl).2
  unfold Accessing at ha ⊢
  rw [hstate]
  exact ha

theorem Pending.next (h : Running p start input) {a u : ℕ} (hpending : Pending p start input a u)
    (ha : Accessing (run p start input (a + 1)))
    (hwait : accepted (input u) (run p start input u) = false) :
    Pending p start input a (u + 1) := by
  refine ⟨Nat.lt_succ_of_lt hpending.1, ?_⟩
  intro v hav hv
  rcases Nat.le_succ_iff.mp hv with hle | rfl
  · exact hpending.2 v hav hle
  · have hheld := (hpending.accessing ha).wait (p := p) (h.shape u) (h.running u) hwait
    have hlast := hpending.2 u hpending.1 le_rfl
    exact ⟨hheld.1.trans hlast.1, hheld.2.trans hlast.2⟩

/-- What is accepted is gone in the next cycle. -/
theorem AcceptedAt.gone (h : Running p start input) {a u : ℕ}
    (haccepted : AcceptedAt p start input a u) (ha : Accessing (run p start input (a + 1))) :
    ¬ Accessing (run p start input (u + 1)) := by
  have hstate : (run p start input (u + 1)).core.state = .cpuFetch :=
    (haccepted.1.accessing ha).finish (p := p) (h.shape u) (h.running u) haccepted.2
  rintro (hload | hstore)
  · exact absurd (hstate.symm.trans hload) (by decide)
  · exact absurd (hstate.symm.trans hstore) (by decide)

theorem AcceptedAt.unique (h : Running p start input) {a u v : ℕ}
    (ha : Accessing (run p start input (a + 1))) (hu : AcceptedAt p start input a u)
    (hv : AcceptedAt p start input a v) : u = v := by
  have hle {s t : ℕ} (hs : AcceptedAt p start input a s) (ht : AcceptedAt p start input a t) :
      t ≤ s := by
    by_contra hlt
    have hpending : Pending p start input a (s + 1) := by
      refine ⟨Nat.lt_succ_of_lt hs.1.1, ?_⟩
      intro w haw hw
      exact ht.1.2 w haw (by omega)
    exact hs.gone h ha (hpending.accessing ha)
  exact le_antisymm (hle hv hu) (hle hu hv)

/-- A request is accepted at the latest when the cache gets free. -/
theorem Running.exists_acceptedAt (h : Running p start input) {a : ℕ}
    (hfair : ∀ n, ∃ u ≥ n, (input u).parts.cacheBusy = false)
    (ha : Accessing (run p start input (a + 1))) : ∃ u, AcceptedAt p start input a u := by
  have hstart : Pending p start input a (a + 1) := by
    refine ⟨Nat.lt_succ_self a, ?_⟩
    intro v hav hv
    obtain rfl : v = a + 1 := by omega
    exact ⟨rfl, rfl⟩
  have hwait : ∀ u ≥ a + 1, Pending p start input a u →
      ¬ accepted (input u) (run p start input u) = true → Pending p start input a (u + 1) :=
    fun u _ hpending hnot ↦ hpending.next h ha (Bool.eq_false_iff.mpr hnot)
  by_contra hnever
  have hnot : ∀ u, Pending p start input a u →
      ¬ accepted (input u) (run p start input u) = true :=
    fun u hpending haccepted ↦ hnever ⟨u, hpending, haccepted⟩
  obtain ⟨u, -, hpending, hfree⟩ :=
    Clocked.exists_event hstart (fun u hu hpending _ ↦ hwait u hu hpending (hnot u hpending)) hfair
  exact hnot u hpending ((hpending.accessing ha).accepted_of_free (h.shape u) (h.cache u) hfree)

/-- Every access on the wires comes from an executed instruction. -/
theorem Running.origin (h : Running p start input) (t : ℕ)
    (hnow : Accessing (run p start input t)) :
    ∃ a, isAccess (run p start input a) ∧ Pending p start input a t := by
  induction t with
  | zero =>
      exfalso
      obtain ⟨i, s, hrst, hstart⟩ := h.reset
      have hstate : (run p start input 0).core.state = .bootInit := by
        change start.core.state = _
        rw [hstart]
        change (Core.step p (coreInput i s) s.core).state = _
        have hrst : (coreInput i s).rstN = false := hrst
        simp [Core.step, Core.reset, hrst]
      rcases hnow with hload | hstore
      · exact absurd (hstate.symm.trans hload) (by decide)
      · exact absurd (hstate.symm.trans hstore) (by decide)
  | succ t ih =>
      rcases (h.shape t).origin (p := p) (h.running t) hnow with hexecute | hbefore
      · refine ⟨t, isAccess_of_accessing (p := p) (h.running t) hexecute hnow, Nat.lt_succ_self t,
          ?_⟩
        intro v htv hv
        obtain rfl : v = t + 1 := by omega
        exact ⟨rfl, rfl⟩
      · obtain ⟨a, haccess, hpending⟩ := ih hbefore
        have ha : Accessing (run p start input (a + 1)) :=
          (haccess.request (p := p) (h.running a)).1
        refine ⟨a, haccess, hpending.next h ha ?_⟩
        by_contra hdone
        exact AcceptedAt.gone h ⟨hpending, Bool.not_eq_false _ ▸ hdone⟩ ha hnow

/-- The devices are touched when an instruction that touches them is accepted,
and in no other cycle. -/
theorem Running.sideEffect_iff (h : Running p start input) (t : ℕ) :
    sideEffect (input t) (run p start input t) ↔
      ∃ a, isAccess (run p start input a) ∧ AcceptedAt p start input a t ∧
        ((Core.opcode (run p start input a).core.ir = 0b00000 ∧
            deviceRead (request (run p start input (a + 1)).core)) ∨
          (Core.opcode (run p start input a).core.ir = 0b01000 ∧
            deviceWrite (request (run p start input (a + 1)).core))) := by
  rw [(h.shape t).sideEffect_iff (h.fetches t)]
  constructor
  · rintro ⟨haccepted, hdevice⟩
    have hnow : Accessing (run p start input t) := by
      rcases hdevice with ⟨hstate, -⟩ | ⟨hstate, -⟩
      · exact .inl hstate
      · exact .inr hstate
    obtain ⟨a, haccess, hpending⟩ := h.origin t hnow
    refine ⟨a, haccess, ⟨hpending, haccepted⟩, ?_⟩
    have hsame := hpending.2 t hpending.1 le_rfl
    have hrequest := haccess.request (p := p) (h.running a)
    rw [hsame.1, hsame.2] at hdevice
    rcases haccess.2 with hopcode | hopcode
    · have hstore : (run p start input (a + 1)).core.state = .cpuStore := (hrequest.2.1 hopcode).1
      rcases hdevice with ⟨hload, -⟩ | ⟨-, hwrite⟩
      · exact absurd (hstore.symm.trans hload) (by decide)
      · exact .inr ⟨hopcode, hwrite⟩
    · have hload : (run p start input (a + 1)).core.state = .cpuLoad := (hrequest.2.2 hopcode).1
      rcases hdevice with ⟨-, hread⟩ | ⟨hstore, -⟩
      · exact .inl ⟨hopcode, hread⟩
      · exact absurd (hload.symm.trans hstore) (by decide)
  · rintro ⟨a, haccess, haccepted, hdevice⟩
    have hsame := haccepted.1.2 t haccepted.1.1 le_rfl
    have hrequest := haccess.request (p := p) (h.running a)
    refine ⟨haccepted.2, ?_⟩
    rw [hsame.1, hsame.2]
    rcases hdevice with ⟨hopcode, hread⟩ | ⟨hopcode, hwrite⟩
    · exact .inl ⟨(hrequest.2.2 hopcode).1, hread⟩
    · exact .inr ⟨(hrequest.2.1 hopcode).1, hwrite⟩

/-- The handshake in a run of any program: the cache sees a request until it
answers, every store and load is accepted in one cycle and the devices are
touched in those cycles only. -/
theorem handshake (h : Running p start input) :
    (∀ n, (input n).parts.cacheBusy = true →
      cacheRequest (wires (input (n + 1)) (run p start input (n + 1))) =
        cacheRequest (wires (input n) (run p start input n))) ∧
    (∀ a, isAccess (run p start input a) →
      (Core.opcode (run p start input a).core.ir = 0b01000 →
        request (run p start input (a + 1)).core =
          ⟨true, 0, (Core.storeType (Core.funct3 (run p start input a).core.ir)).getD 0,
            Core.rs1DataOut (run p start input a).core + Core.sImm12 (run p start input a).core.ir,
            Core.rs2DataOut (run p start input a).core⟩) ∧
      (Core.opcode (run p start input a).core.ir = 0b00000 →
        request (run p start input (a + 1)).core =
          ⟨true, (Core.loadType (Core.funct3 (run p start input a).core.ir)).getD 0b111, 0,
            Core.rs1DataOut (run p start input a).core + Core.iImm12 (run p start input a).core.ir,
            (run p start input a).core.ramioDataIn⟩)) ∧
    (∀ a, isAccess (run p start input a) → ∀ u v, AcceptedAt p start input a u →
      AcceptedAt p start input a v → u = v) ∧
    ((∀ n, ∃ u ≥ n, (input u).parts.cacheBusy = false) →
      ∀ a, isAccess (run p start input a) → ∃! u, AcceptedAt p start input a u) ∧
    ∀ t, sideEffect (input t) (run p start input t) ↔
      ∃ a, isAccess (run p start input a) ∧ AcceptedAt p start input a t ∧
        ((Core.opcode (run p start input a).core.ir = 0b00000 ∧
            deviceRead (request (run p start input (a + 1)).core)) ∨
          (Core.opcode (run p start input a).core.ir = 0b01000 ∧
            deviceWrite (request (run p start input (a + 1)).core))) := by
  have haccessing {a : ℕ} (ha : isAccess (run p start input a)) :
      Accessing (run p start input (a + 1)) := (ha.request (p := p) (h.running a)).1
  refine ⟨fun n hbusy ↦ h.cacheRequest_held hbusy, ?_, ?_, ?_, h.sideEffect_iff⟩
  · intro a ha
    obtain ⟨-, hstore, hload⟩ := ha.request (p := p) (h.running a)
    exact ⟨fun hopcode ↦ (hstore hopcode).2, fun hopcode ↦ (hload hopcode).2⟩
  · intro a ha u v hu hv
    exact hu.unique h (haccessing ha) hv
  · intro hfair a ha
    obtain ⟨u, hu⟩ := h.exists_acceptedAt hfair (haccessing ha)
    exact ⟨u, hu, fun v hv ↦ hv.unique h (haccessing ha) hu⟩

end Runs


/-! ## A program that polls the UART -/

/-- `lw x1, -12(x0)` at 0 and `jal x0, -4` at 4, in a cache without misses. -/
def pollingInput (x : State) : Input where
  rstN := true
  flashMiso := false
  parts :=
    let quiet : Parts := ⟨0, false, false, 0, false, 0, false, false, 0⟩
    let w := Ramio.wires (request x.core) quiet x.ramio
    { quiet with
      cacheDataOut := if x.core.ramioAddress = 0 then 0xff402083 else 0xffdff06f
      cacheDataOutReady := w.cacheWriteEnable == 0 && w.cacheEnable }

def pollingParams : Core.Params := ⟨0, 0, 4⟩

def pollingReset : Input := ⟨false, ⟨0, false, false, 0, false, 0, false, false, 0⟩, false⟩

def pollingStart : State :=
  step pollingParams pollingReset
    ⟨Core.powerUp, ⟨0b1111, BitVec.allOnes 32, false, BitVec.allOnes 32, true⟩⟩

def pollingRun : ℕ → State
  | 0 => pollingStart
  | n + 1 => step pollingParams (pollingInput (pollingRun n)) (pollingRun n)

theorem run_polling (n : ℕ) :
    run pollingParams pollingStart (fun n ↦ pollingInput (pollingRun n)) n = pollingRun n := by
  induction n with
  | zero => rfl
  | succ n ih =>
      change step pollingParams (pollingInput (pollingRun n)) (run _ _ _ n) = _
      rw [ih]
      rfl

theorem cacheAnswers_polling (x : State) : CacheAnswers (pollingInput x) x := by
  have hsame : cacheRequest (wires (pollingInput x) x) =
      cacheRequest (Ramio.wires (request x.core) ⟨0, false, false, 0, false, 0, false, false, 0⟩
        x.ramio) := cacheRequest_congr
  refine ⟨true, ?_, ?_⟩
  · simp [pollingInput]
  · have henable := congrArg Prod.fst hsame
    have hwrite := congrArg (fun w ↦ w.2.2.2) hsame
    simp only [cacheRequest] at henable hwrite
    rw [henable, hwrite]
    simp [pollingInput]

/-- The two instructions take turns. -/
structure Polling (s : Core.Regs) : Prop where
  fetch : s.state = .cpuFetch → (s.pc = 0 ∨ s.pc = 4) ∧ s.ramioAddress = s.pc
  execute : s.state = .cpuExecute →
    s.pc = 0 ∧ s.ir = 0xff402083 ∨ s.pc = 4 ∧ s.ir = 0xffdff06f
  load : s.state = .cpuLoad → s.pc = 4
  store : s.state ≠ .cpuStore

theorem Polling.of_other {s : Core.Regs} (hfetch : s.state ≠ .cpuFetch)
    (hexecute : s.state ≠ .cpuExecute) (hload : s.state ≠ .cpuLoad) (hstore : s.state ≠ .cpuStore) :
    Polling s where
  fetch h := absurd h hfetch
  execute h := absurd h hexecute
  load h := absurd h hload
  store := hstore

theorem Polling.of_fetch {s : Core.Regs} (hstate : s.state = .cpuFetch)
    (hpc : s.pc = 0 ∨ s.pc = 4) (haddress : s.ramioAddress = s.pc) : Polling s where
  fetch _ := ⟨hpc, haddress⟩
  execute h := absurd (hstate.symm.trans h) (by decide)
  load h := absurd (hstate.symm.trans h) (by decide)
  store h := absurd (hstate.symm.trans h) (by decide)

/-- What is fetched. -/
theorem fetched_polling {x : State} (henable : x.core.ramioEnable = true)
    (hread : x.core.ramioReadType = 7) (hwrite : x.core.ramioWriteType = 0)
    (hport : isPort x.core.ramioAddress = false) :
    (coreInput (pollingInput x) x).ramioDataOut =
      loadData 7 x.core.ramioAddress
        (if x.core.ramioAddress = 0 then 0xff402083 else 0xffdff06f) := by
  have hreading : (request x.core).readType ≠ 0 := by
    change x.core.ramioReadType ≠ 0
    rw [hread]
    decide
  change (Ramio.wires (request x.core) (pollingInput x).parts x.ramio).dataOut = _
  rw [wires_of_read (r := request x.core) henable hreading hwrite,
    readWires_ram (r := request x.core) hport]
  change loadData x.core.ramioReadType x.core.ramioAddress _ = _
  rw [hread]
  rfl

theorem Polling.step {x : State} (h : Polling x.core) (hshape : Shape x.core) :
    Polling (Soc.step pollingParams (pollingInput x) x).core := by
  have hcore : (Soc.step pollingParams (pollingInput x) x).core =
      Core.step pollingParams (coreInput (pollingInput x) x) x.core := rfl
  have hrun : (coreInput (pollingInput x) x).rstN = true := rfl
  rw [hcore]
  simp only [Core.step, hrun, if_true]
  cases hshape with
  | boot hboot hstate =>
      obtain ⟨hfetch, hexecute, hload, hstore⟩ := booting_next (p := pollingParams)
        (i := coreInput (pollingInput x) x) (s := x.core) (by tauto)
      exact .of_other hfetch hexecute hload hstore
  | send hboot hstate hreturn =>
      obtain ⟨hfetch, hexecute, hload, hstore⟩ := booting_next (p := pollingParams)
        (i := coreInput (pollingInput x) x) (s := x.core) (by tauto)
      exact .of_other hfetch hexecute hload hstore
  | write hstate =>
      simp only [Core.fsm, hstate, Core.bootWrite]
      split_ifs
      · apply Polling.of_other <;> simp [hstate]
      · apply Polling.of_other <;> simp
      · exact .of_fetch rfl (.inl rfl) rfl
  | fetch hstate enable readType writeType =>
      obtain ⟨hpc, haddress⟩ := h.fetch hstate
      have hport : isPort x.core.ramioAddress = false := by
        rw [haddress]
        rcases hpc with hpc | hpc <;> rw [hpc] <;> rfl
      have hfetched := fetched_polling enable readType writeType hport
      simp only [Core.fsm, hstate, Core.cpuFetch]
      split
      · refine ⟨by rintro ⟨⟩, ?_, by rintro ⟨⟩, by rintro ⟨⟩⟩
        intro _
        rcases hpc with hpc | hpc
        · refine .inl ⟨hpc, hfetched.trans ?_⟩
          rw [haddress, hpc]
          rfl
        · refine .inr ⟨hpc, hfetched.trans ?_⟩
          rw [haddress, hpc]
          rfl
      · exact .of_fetch rfl hpc haddress
  | execute hstate =>
      simp only [Core.fsm, hstate]
      rcases h.execute hstate with ⟨hpc, hir⟩ | ⟨hpc, hir⟩
      · have hload : Core.opcode x.core.ir = 0b00000 := by
          rw [hir]
          decide
        rw [Core.cpuExecute_load x.core hload]
        refine ⟨by rintro ⟨⟩, by rintro ⟨⟩, ?_, by rintro ⟨⟩⟩
        intro _
        change x.core.pc + 4 = 4
        rw [hpc]
        rfl
      · have hjump : Core.cpuExecute x.core = Core.writeBack (some (x.core.pc + 4))
            (Core.fetchNext (x.core.pc + Core.jImm20 x.core.ir) x.core) := by
          have hopcode : Core.opcode x.core.ir = 0b11011 := by
            rw [hir]
            decide
          unfold Core.cpuExecute
          rw [hopcode]
          rfl
        have hzero : x.core.pc + Core.jImm20 x.core.ir = 0 := by
          rw [hpc, hir]
          decide
        rw [hjump, hzero]
        exact .of_fetch rfl (.inl rfl) rfl
  | store hstate => exact absurd hstate h.store
  | load hstate =>
      have hpc := h.load hstate
      simp only [Core.fsm, hstate, Core.cpuLoad]
      split
      · exact .of_fetch rfl (.inr hpc) rfl
      · exact ⟨fun hother ↦ absurd (hstate.symm.trans hother) (by decide),
          fun hother ↦ absurd (hstate.symm.trans hother) (by decide), fun _ ↦ hpc, h.store⟩

theorem pollingRun_polling (n : ℕ) :
    Shape (pollingRun n).core ∧ Polling (pollingRun n).core := by
  induction n with
  | zero =>
      refine ⟨shape_reset rfl, ?_⟩
      apply Polling.of_other <;> rintro ⟨⟩
  | succ n ih =>
      obtain ⟨hshape, hpolling⟩ := ih
      refine ⟨hshape.step rfl (by decide) ?_, hpolling.step hshape⟩
      intro hstate
      obtain ⟨hpc, haddress⟩ := hpolling.fetch hstate
      rw [haddress]
      rcases hpc with hpc | hpc <;> rw [hpc] <;> rfl

/-- The first poll is executed in cycle 135 and accepted in the next one, which touches the
UART.  Each poll is accepted once, and no other cycle touches it. -/
theorem handshake_polling :
    isAccess (pollingRun 135) ∧
    (∀ u, AcceptedAt pollingParams pollingStart (fun n ↦ pollingInput (pollingRun n)) 135 u ↔
      u = 136) ∧
    sideEffect (pollingInput (pollingRun 136)) (pollingRun 136) ∧
    (∀ a, isAccess (pollingRun a) →
      ∃! u, AcceptedAt pollingParams pollingStart (fun n ↦ pollingInput (pollingRun n)) a u) ∧
    ∀ t, sideEffect (pollingInput (pollingRun t)) (pollingRun t) →
      ∃ a, isAccess (pollingRun a) ∧
        AcceptedAt pollingParams pollingStart (fun n ↦ pollingInput (pollingRun n)) a t := by
  have hrunning : Running pollingParams pollingStart (fun n ↦ pollingInput (pollingRun n)) := by
    refine ⟨by decide, ⟨pollingReset, _, rfl, rfl⟩, fun _ ↦ rfl, ?_, ?_⟩
    · intro n
      rw [run_polling]
      exact cacheAnswers_polling _
    · intro n
      rw [run_polling]
      intro hstate
      obtain ⟨hpc, haddress⟩ := (pollingRun_polling n).2.fetch hstate
      rw [haddress]
      rcases hpc with hpc | hpc <;> rw [hpc] <;> rfl
  obtain ⟨-, -, honce, hunique, heffect⟩ := handshake hrunning
  simp only [run_polling] at honce hunique heffect
  have hopcode : Core.opcode (pollingRun 135).core.ir = 0b00000 := by decide +kernel
  have hload : isAccess (pollingRun 135) := ⟨by decide +kernel, .inr hopcode⟩
  have haccepted : AcceptedAt pollingParams pollingStart (fun n ↦ pollingInput (pollingRun n))
      135 136 := by
    refine ⟨⟨by decide, fun v hv hle ↦ ?_⟩, ?_⟩
    · obtain rfl : v = 136 := by omega
      exact ⟨rfl, rfl⟩
    · rw [run_polling]
      decide +kernel
  have hport : deviceRead (request (pollingRun 136).core) := by
    rw [deviceRead]
    decide +kernel
  refine ⟨hload, fun u ↦ ⟨fun hu ↦ honce 135 hload u 136 hu haccepted, fun hu ↦ hu ▸ haccepted⟩,
    (heffect 136).mpr ⟨135, hload, haccepted, .inl ⟨hopcode, hport⟩⟩,
    hunique fun n ↦ ⟨n, le_rfl, rfl⟩, fun t ht ↦ ?_⟩
  obtain ⟨a, haccess, hat, -⟩ := (heffect t).mp ht
  exact ⟨a, haccess, hat⟩

end TangNano.Soc
