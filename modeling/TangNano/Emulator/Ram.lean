import TangNano.Core.Refinement
import TangNano.Emulator.Conformance

/-!
# Programs that stay in RAM

A tick over a bus is followed by the tick over another bus that serves the same
calls.  The bus of the emulator without its ports is followed by the bus with
them, and by the memory of bytes that the core is compared with.
-/

namespace TangNano.Rv32i

section Buses

variable {σ τ : Type*}

/-- What one tick does successfully the other one does too. -/
def Follows (R : σ → τ → Prop) (t : Tick σ) (t' : Tick τ) : Prop :=
  t.status = 0 → t'.status = 0 ∧ t'.cpu = t.cpu ∧ R t.state t'.state

/-- Related states answer the calls that the first bus serves in the same way. -/
def Serves (bus : Bus σ) (bus' : Bus τ) (R : σ → τ → Prop) : Prop :=
  ∀ m m' address width isStore data, R m m' → (bus m address width isStore data).status = 0 →
    (bus' m' address width isStore data).status = 0 ∧
      (bus' m' address width isStore data).data = (bus m address width isStore data).data ∧
      R (bus m address width isStore data).state (bus' m' address width isStore data).state

variable {bus : Bus σ} {bus' : Bus τ} {R : σ → τ → Prop} {c : Cpu} {m : σ} {m' : τ}

theorem follows_ite {P : Prop} [Decidable P] {t u : Tick σ} {t' u' : Tick τ}
    (hpos : P → Follows R t t') (hneg : ¬ P → Follows R u u') :
    Follows R (if P then t else u) (if P then t' else u') := by
  split
  · next h => exact hpos h
  · next h => exact hneg h

theorem follows_fail (status : ℕ) (hstatus : status ≠ 0) :
    Follows R (fail status c m) (fail status c m') := fun h ↦ absurd h hstatus

/-- An access that was refused fails the tick. -/
theorem follows_access {r : BusResult σ} {r' : BusResult τ} {base : ℕ} {t : Tick σ} {t' : Tick τ}
    (hserved : r.status = 0 → r'.status = 0 ∧ Follows R t t') :
    Follows R (if r.status ≠ 0 then fail (base + r.status) c r.state else t)
      (if r'.status ≠ 0 then fail (base + r'.status) c r'.state else t') := by
  by_cases hstatus : r.status = 0
  · obtain ⟨hstatus', hfollows⟩ := hserved hstatus
    rw [if_neg (not_not.mpr hstatus), if_neg (not_not.mpr hstatus')]
    exact hfollows
  · rw [if_pos hstatus]
    exact fun h ↦ absurd (Nat.add_eq_zero_iff.mp h).2 hstatus

theorem Serves.execute (h : Serves bus bus' R) (hm : R m m') (w : Word) :
    Follows R (execute bus c m w) (execute bus' c m' w) := by
  have hretire (rd value nextPc : Word) :
      Follows R (retire c m rd value nextPc) (retire c m' rd value nextPc) :=
    fun _ ↦ ⟨rfl, rfl, hm⟩
  have hjump (nextPc : Word) : Follows R (jump c m nextPc) (jump c m' nextPc) :=
    fun _ ↦ ⟨rfl, rfl, hm⟩
  unfold Rv32i.execute
  dsimp only
  refine follows_ite (fun _ ↦ hretire _ _ _) fun _ ↦ ?_
  refine follows_ite (fun _ ↦ ?_) fun _ ↦ ?_
  · cases hvalue : logicalImm c.regs w with
    | ok value => exact hretire _ _ _
    | error status => exact follows_fail status (logicalImm_status hvalue)
  refine follows_ite (fun _ ↦ ?_) fun _ ↦ ?_
  · cases hvalue : logical c.regs w with
    | ok value => exact hretire _ _ _
    | error status => exact follows_fail status (logical_status hvalue)
  refine follows_ite (fun _ ↦ ?_) fun _ ↦ ?_
  · cases storeWidth (funct3From w) with
    | none => exact follows_fail 6 (by decide)
    | some access =>
        apply follows_access
        intro hstatus
        obtain ⟨hstatus', -, hnext⟩ := h m m' _ _ _ _ hm hstatus
        exact ⟨hstatus', fun _ ↦ ⟨rfl, rfl, hnext⟩⟩
  refine follows_ite (fun _ ↦ ?_) fun _ ↦ ?_
  · cases loadWidth (funct3From w) with
    | none => exact follows_fail 7 (by decide)
    | some access =>
        apply follows_access
        intro hstatus
        obtain ⟨hstatus', hdata, hnext⟩ := h m m' _ _ _ _ hm hstatus
        refine ⟨hstatus', fun _ ↦ ⟨rfl, ?_, hnext⟩⟩
        rw [hdata]
        rfl
  refine follows_ite (fun _ ↦ hretire _ _ _) fun _ ↦ ?_
  refine follows_ite (fun _ ↦ hretire _ _ _) fun _ ↦ ?_
  refine follows_ite (fun _ ↦ hretire _ _ _) fun _ ↦ ?_
  refine follows_ite (fun _ ↦ ?_) fun _ ↦ ?_
  · cases htaken : branchTaken c.regs w with
    | ok taken => exact hjump _
    | error status => exact follows_fail status (branchTaken_status htaken)
  refine follows_ite (fun _ ↦ hjump _) fun _ ↦ ?_
  refine follows_ite (fun _ ↦ ?_) fun _ ↦ follows_fail 9 (by decide)
  exact follows_ite (fun _ ↦ follows_fail 10 (by decide)) fun _ ↦ fun _ ↦ ⟨rfl, rfl, hm⟩

theorem Serves.tick (h : Serves bus bus' R) (hm : R m m') :
    Follows R (tick bus c m) (tick bus' c m') := by
  unfold Rv32i.tick
  dsimp only
  apply follows_access
  intro hstatus
  obtain ⟨hstatus', hdata, hnext⟩ := h m m' _ _ _ _ hm hstatus
  refine ⟨hstatus', ?_⟩
  rw [hdata]
  exact h.execute hnext _

theorem Serves.ticks (h : Serves bus bus' R) (hm : R m m') {n : ℕ} {c' : Cpu} {k : σ}
    (hticks : Ticks bus n c m c' k) : ∃ k', Ticks bus' n c m' c' k' ∧ R k k' := by
  induction hticks with
  | zero c m => exact ⟨m', .zero c m', hm⟩
  | succ hticks hstatus hrunning ih =>
      obtain ⟨k, hticks', hk⟩ := ih hm
      obtain ⟨hstatus', hcpu, hnext⟩ := h.tick hk hstatus
      refine ⟨_, ?_, hnext⟩
      rw [← hcpu] at hrunning ⊢
      exact hticks'.succ hstatus' hrunning

/-- What no call of the bus breaks no tick breaks. -/
theorem tick_keeps {I : σ → Prop}
    (h : ∀ m address width isStore data, I m → I (bus m address width isStore data).state)
    (hm : I m) : I (tick bus c m).state := by
  unfold tick
  dsimp only
  split
  · exact h _ _ _ _ _ hm
  · have hfetched := h m (cleared c).pc .word false 0 hm
    have hexecution := execution_execute bus (cleared c)
      (bus m (cleared c).pc .word false 0).state (bus m (cleared c).pc .word false 0).data
    generalize execute bus (cleared c) (bus m (cleared c).pc .word false 0).state
      (bus m (cleared c).pc .word false 0).data = t at hexecution ⊢
    cases hexecution with
    | lui => exact hfetched
    | logicalImm => exact hfetched
    | logical => exact hfetched
    | store => exact h _ _ _ _ _ hfetched
    | load => exact h _ _ _ _ _ hfetched
    | auipc => exact hfetched
    | jal => exact hfetched
    | jalr => exact hfetched
    | branch => exact hfetched
    | fence => exact hfetched
    | ebreak => exact hfetched
    | fails => exact hfetched
    | refused => exact h _ _ _ _ _ hfetched

theorem Ticks.keeps {I : σ → Prop}
    (h : ∀ m address width isStore data, I m → I (bus m address width isStore data).state)
    (hm : I m) {n : ℕ} {c' : Cpu} {k : σ} (hticks : Ticks bus n c m c' k) : I k := by
  induction hticks with
  | zero => exact hm
  | succ _ _ _ ih => exact tick_keeps h (ih hm)

/-- Before the end of a run the next tick succeeds. -/
theorem Ticks.next {n k : ℕ} {c' : Cpu} {l : σ} (hticks : Ticks bus n c m c' l) (hk : k < n) :
    ∃ d l', Ticks bus k c m d l' ∧ (tick bus d l').status = 0 ∧
      (tick bus d l').cpu.isHalted = false := by
  induction hticks with
  | zero => exact absurd hk (Nat.not_lt_zero k)
  | @succ n c d m l hticks hstatus hrunning ih =>
      rcases Nat.lt_succ_iff_lt_or_eq.mp hk with hless | rfl
      · exact ih hless
      · exact ⟨d, l, hticks, hstatus, hrunning⟩

end Buses

end TangNano.Rv32i

namespace TangNano.Emulator

open Rv32i Refinement Decode RamPath

/-- The bus of an emulator without ports: it refuses what is not in RAM. -/
def ramBus : Bus Machine := fun m address width isStore data ↦
  if address.toNat < memoryEnd then bus m address width isStore data else ⟨1, data, m⟩

/-- The RAM of the emulator as a memory of the core. -/
def ramMemory : Refinement.Memory Machine where
  status _ address _ _ := if address.toNat < memoryEnd then 0 else 1
  load m address width := (loadRam address width m.ram, m)
  store m address width data := { m with ram := storeRam address width data m.ram }

section Accesses

variable {m : Machine} {address data : Word} {width : BusOpWidth} {isStore : Bool}

theorem below_of_ramBus (h : (ramBus m address width isStore data).status = 0) :
    address.toNat < memoryEnd := by
  by_contra hout
  rw [ramBus, if_neg hout] at h
  exact absurd h Nat.one_ne_zero

theorem ramBus_load (h : address.toNat < memoryEnd) :
    ramBus m address width false data = ⟨0, loadRam address width m.ram, m⟩ :=
  (if_pos h).trans (RamPath.bus_load h width data)

theorem ramBus_store (h : address.toNat < memoryEnd) :
    ramBus m address width true data =
      ⟨0, data, { m with ram := storeRam address width data m.ram }⟩ :=
  (if_pos h).trans (RamPath.bus_store h width data)

/-- The bus with its ports serves what the bus without them serves. -/
theorem bus_serves : Serves ramBus bus Eq := by
  rintro m m' address width isStore data rfl hstatus
  have hbus : ramBus m address width isStore data = bus m address width isStore data :=
    if_pos (below_of_ramBus hstatus)
  rw [← hbus]
  exact ⟨hstatus, rfl, rfl⟩

/-! ## Values and their bytes -/

theorem moved_loadRam (address : Word) (width : BusOpWidth) (ram : ℕ → Byte) :
    moved width (loadRam address width ram) = loadRam address width ram := by
  unfold loadRam
  split
  · exact moved_zero width
  · cases width with
    | byte => simp [moved, BusOpWidth.bytes]
    | halfWord =>
        apply BitVec.eq_of_getLsbD_eq
        intro i hi
        simp only [moved, BusOpWidth.bytes, List.range_succ, List.range_zero, List.nil_append,
          List.cons_append, List.foldl_cons, List.foldl_nil, BitVec.getLsbD_setWidth,
          BitVec.getLsbD_or, BitVec.getLsbD_shiftLeft]
        by_cases h16 : i < 16
        · simp [h16, hi]
        · have hlow (b : Byte) : b.getLsbD i = false := BitVec.getLsbD_of_ge b i (by omega)
          have hhigh (b : Byte) : b.getLsbD (i - 8) = false :=
            BitVec.getLsbD_of_ge b (i - 8) (by omega)
          simp [h16, hlow, hhigh]
    | word => rfl

theorem getLsbD_moved (width : BusOpWidth) (v : Word) {k : ℕ} (hk : k < 8 * width.bytes) :
    (moved width v).getLsbD k = v.getLsbD k := by
  cases width with
  | byte =>
      change k < 8 at hk
      simp [moved, hk, show k < 32 by omega]
  | halfWord =>
      change k < 16 at hk
      simp [moved, hk, show k < 32 by omega]
  | word => rfl

theorem byte_moved (width : BusOpWidth) (v : Word) {i : ℕ} (hi : i < width.bytes) :
    Bytes.byte (moved width v) i = Bytes.byte v i := by
  apply BitVec.eq_of_getLsbD_eq
  intro j hj
  rw [Bytes.getLsbD_byte, Bytes.getLsbD_byte, getLsbD_moved width v (by omega)]

theorem storeRam_moved (address : Word) (width : BusOpWidth) (data : Word) (ram : ℕ → Byte) :
    storeRam address width (moved width data) ram = storeRam address width data ram := by
  unfold storeRam
  split
  · rfl
  · apply List.foldl_ext
    intro ram i hi
    rw [byte_moved width data (List.mem_range.mp hi)]

/-- The memory of the core serves what the bus without ports serves. -/
theorem ramMemory_serves : Serves ramBus ramMemory.bus fun m k ↦ k.memory = m := by
  rintro m k address width isStore data rfl hstatus
  have hbelow := below_of_ramBus hstatus
  have hmemory : ramMemory.status k.memory address width isStore = 0 := if_pos hbelow
  unfold Refinement.Memory.bus
  dsimp only
  rw [hmemory]
  cases isStore with
  | true =>
      rw [ramBus_store hbelow]
      refine ⟨rfl, rfl, ?_⟩
      change { k.memory with ram := storeRam address width (moved width data) k.memory.ram } = _
      rw [storeRam_moved]
  | false =>
      rw [ramBus_load hbelow]
      exact ⟨rfl, moved_loadRam address width k.memory.ram, rfl⟩

end Accesses

/-! ## The accesses of a run -/

/-- Every access so far was in RAM. -/
def InMemory (k : Traced Machine) : Prop := ∀ a ∈ k.accesses, a.address.toNat < memoryEnd

theorem inMemory_bus (k : Traced Machine) (address : Word) (width : BusOpWidth) (isStore : Bool)
    (data : Word) (h : InMemory k) :
    InMemory (ramMemory.bus k address width isStore data).state := by
  unfold Refinement.Memory.bus
  dsimp only
  split_ifs with hrefused
  · exact h
  all_goals
    have hbelow : address.toNat < memoryEnd := by
      by_contra hout
      have hstatus : ramMemory.status k.memory address width isStore = 1 := if_neg hout
      exact hrefused (by rw [hstatus]; exact Nat.one_ne_zero)
    intro a ha
    rcases List.mem_append.mp ha with hbefore | hlast
    · exact h a hbefore
    · rw [List.mem_singleton.mp hlast]
      exact hbelow

/-! ## The instruction set without ports -/

theorem execute_ramBus {c : Cpu} {m : Machine} {w : Word}
    (hstore : opcodeFrom w = opcodeStore →
      (reg c.regs (rs1From w) + sImm12From w).toNat < memoryEnd)
    (hload : opcodeFrom w = opcodeLoad →
      (reg c.regs (rs1From w) + iImm12From w).toNat < memoryEnd) :
    execute ramBus c m w = execute bus c m w := by
  unfold execute
  dsimp only
  refine ite_congr rfl (fun _ ↦ rfl) fun _ ↦ ?_
  refine ite_congr rfl (fun _ ↦ rfl) fun _ ↦ ?_
  refine ite_congr rfl (fun _ ↦ rfl) fun _ ↦ ?_
  refine ite_congr rfl (fun hcode ↦ ?_) fun _ ↦ ?_
  · cases storeWidth (funct3From w) with
    | none => rfl
    | some access =>
        dsimp only
        rw [ramBus_store (hstore hcode), RamPath.bus_store (hstore hcode)]
  refine ite_congr rfl (fun hcode ↦ ?_) fun _ ↦ rfl
  cases loadWidth (funct3From w) with
  | none => rfl
  | some access =>
      dsimp only
      rw [ramBus_load (hload hcode), RamPath.bus_load (hload hcode)]

theorem isaOpcode_of_opcodeFrom {w : Word} (k : BitVec 7) (h : opcodeFrom w = k.setWidth 32) :
    Isa.opcode w = k := by
  rw [opcodeFrom_eq] at h
  have hback := congrArg (BitVec.setWidth 7) h
  simp at hback
  exact hback

section Conformance

variable {s : Isa.State} {c : Cpu} {m : Machine} {i : Isa.Instr}

theorem InRam.below {a : Word} {n : ℕ} (h : InRam a n) (hn : 0 < n) : a.toNat < memoryEnd := by
  have hbound := h.bound
  omega

/-- An instruction that the instruction set executes in RAM needs no ports. -/
theorem Executes.tick_ramBus (hexecutes : Executes i s) (h : Represents s c m) :
    tick ramBus c m = tick bus c m := by
  have hfetch := h.fetch hexecutes.pc
  have hpc : c.pc.toNat < memoryEnd := by
    rw [h.pc]
    exact hexecutes.pc.below (by decide)
  have hram : ramBus m c.pc .word false 0 = ⟨0, Isa.fetch s, m⟩ := (if_pos hpc).trans hfetch
  rw [tick_of_fetch hfetch, tick_of_fetch hram]
  have hdecode := hexecutes.decode
  apply execute_ramBus
  · intro hcode
    have hopcode := isaOpcode_of_opcodeFrom 0b0100011 hcode
    simp only [Isa.decode, hopcode, BitVec.reduceEq, if_false, if_true] at hdecode
    obtain ⟨op, -, rfl⟩ := Option.map_eq_some_iff.mp hdecode
    rw [h.rs1, immS_eq]
    exact (hexecutes.access _ _ rfl).below (by cases op <;> decide)
  · intro hcode
    have hopcode := isaOpcode_of_opcodeFrom 0b0000011 hcode
    simp only [Isa.decode, hopcode, BitVec.reduceEq, if_false, if_true] at hdecode
    obtain ⟨op, -, rfl⟩ := Option.map_eq_some_iff.mp hdecode
    rw [h.rs1, immI_eq]
    exact (hexecutes.access _ _ rfl).below (by cases op <;> decide)

theorem Represents.tick (h : Represents s c m) (hexecutes : Executes i s) :
    Conforms (Isa.exec i s) c m (tick ramBus c m) := by
  rw [hexecutes.tick_ramBus h, tick_of_fetch (h.fetch hexecutes.pc)]
  exact h.execute hexecutes.decode hexecutes.access hexecutes.target

theorem ramTicks_conform {s' : Isa.State} {instrs : List Isa.Instr} (h : Executed s instrs s')
    (hstart : Represents s c m) (hrunning : c.isHalted = false) :
    ∃ c' m', Ticks ramBus instrs.length c m c' m' ∧ Represents s' c' m' ∧ c'.isHalted = false := by
  induction h with
  | nil => exact ⟨c, m, .zero c m, hstart, hrunning⟩
  | snoc _ hexecutes ih =>
      obtain ⟨c', m', hticks, hstate, hrunning'⟩ := ih
      have htick := hstate.tick hexecutes
      have hstill : (Rv32i.tick ramBus c' m').cpu.isHalted = false :=
        htick.isHalted.trans hrunning'
      rw [List.length_append]
      exact ⟨_, _, .succ hticks htick.status hstill, htick.represents, hstill⟩

end Conformance

end TangNano.Emulator
