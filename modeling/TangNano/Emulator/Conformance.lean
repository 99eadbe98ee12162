import TangNano.Library.Isa
import TangNano.Ramio.RamPath

/-!
# The emulated CPU implements RV32I

A tick of the emulated CPU over the bus of the emulator does what the
instruction set says, for instructions, loads and stores in RAM.
-/

namespace TangNano.Emulator

open Bytes Rv32i Decode RamPath

/-- CPU and RAM hold the state of the instruction set. -/
structure Represents (s : Isa.State) (c : Cpu) (m : Machine) : Prop where
  pc : c.pc = s.pc
  regs : ∀ r : BitVec 5, r ≠ 0 → c.regs r.toNat = s.x r
  mem : ∀ a : Word, a.toNat < memoryEnd → m.ram a.toNat = s.mem a

/-- `n` bytes in RAM at a multiple of `n`. -/
structure InRam (a : Word) (n : ℕ) : Prop where
  aligned : a.toNat % n = 0
  bound : a.toNat + n ≤ memoryEnd

/-- A tick that succeeds and leaves a state of the instruction set; the SD card
and the terminal stay as they are. -/
structure Conforms (s : Isa.State) (c : Cpu) (m : Machine) (t : Tick Machine) : Prop where
  status : t.status = 0
  represents : Represents s t.cpu t.state
  isHalted : t.cpu.isHalted = c.isHalted
  sdcard : t.state.sdcard = m.sdcard
  input : t.state.input = m.input
  output : t.state.output = m.output

section Fields

variable {w : Word}

/-! ## Fields and immediates -/

theorem opcodeFrom_of_opcode {k : BitVec 7} (h : Isa.opcode w = k) :
    opcodeFrom w = k.setWidth 32 := by
  rw [opcodeFrom_eq, ← h]
  rfl

theorem funct3From_of_funct3 {k : BitVec 3} (h : Isa.funct3 w = k) :
    funct3From w = k.setWidth 32 := by
  rw [funct3From_eq, ← h]
  rfl

theorem funct7From_of_funct7 {k : BitVec 7} (h : Isa.funct7 w = k) :
    funct7From w = k.setWidth 32 := by
  rw [funct7From_eq, ← h]
  rfl

theorem immI_eq : iImm12From w = Isa.immI w := by
  rw [iImm12From_eq]
  apply BitVec.eq_of_getLsbD_eq
  intro i hi
  rw [Core.iImm12, Isa.immI, BitVec.getLsbD_append, BitVec.getLsbD_signExtend,
    BitVec.msb_eq_getLsbD_last]
  simp only [BitVec.getLsbD_extractLsb']
  interval_cases i <;> simp [getElem_signBits]

theorem immS_eq : sImm12From w = Isa.immS w := by
  rw [sImm12From_eq]
  apply BitVec.eq_of_getLsbD_eq
  intro i hi
  rw [Core.sImm12, Isa.immS, BitVec.getLsbD_signExtend, BitVec.msb_eq_getLsbD_last]
  simp only [BitVec.getLsbD_append, BitVec.getLsbD_extractLsb']
  interval_cases i <;> simp [getElem_signBits]

theorem immB_eq : bImm12From w = Isa.immB w := by
  rw [bImm12From_eq]
  apply BitVec.eq_of_getLsbD_eq
  intro i hi
  rw [Core.bImm12, Isa.immB, BitVec.getLsbD_signExtend, BitVec.msb_eq_getLsbD_last]
  simp only [BitVec.getLsbD_append, BitVec.getLsbD_extractLsb']
  interval_cases i <;> simp [getElem_signBits]

theorem immJ_eq : jImm20From w = Isa.immJ w := by
  rw [jImm20From_eq]
  apply BitVec.eq_of_getLsbD_eq
  intro i hi
  rw [Core.jImm20, Isa.immJ, BitVec.getLsbD_signExtend, BitVec.msb_eq_getLsbD_last]
  simp only [BitVec.getLsbD_append, BitVec.getLsbD_extractLsb']
  interval_cases i <;> simp [getElem_signBits]

end Fields

/-! ## Memory -/

section Memory

variable {ram : ℕ → Byte} {a : Word} {width : BusOpWidth}

/-- An aligned access begins at its address and is not ignored. -/
theorem InRam.aligned_access (h : InRam a width.bytes) :
    ¬ Misaligned a width ∧ 4 * (a.toNat / 4) + start a width = a.toNat := by
  have haligned := h.aligned
  unfold Misaligned start
  cases width with
  | byte => exact ⟨fun hmis ↦ absurd hmis.1 (by decide), Nat.div_add_mod a.toNat 4⟩
  | halfWord =>
      change a.toNat % 2 = 0 at haligned
      exact ⟨fun hmis ↦ by omega, Nat.div_add_mod a.toNat 4⟩
  | word =>
      change a.toNat % 4 = 0 at haligned
      exact ⟨fun hmis ↦ absurd hmis.1 (by decide), by rw [if_pos rfl]; omega⟩

theorem InRam.lt (h : InRam a width.bytes) : a.toNat < memoryEnd := by
  have hbound := h.bound
  have hpos : 0 < width.bytes := by cases width <;> decide
  omega

/-- An aligned load assembles its bytes. -/
theorem loadRam_aligned (h : InRam a width.bytes) (ram : ℕ → Byte) :
    loadRam a width ram = moved width (ofBytes fun i ↦ ram (a.toNat + i)) := by
  obtain ⟨hmis, hstart⟩ := h.aligned_access
  have hfold := moved_shift (ofBytes fun i ↦ ram (a.toNat + i)) width 0
  rw [Nat.mul_zero, BitVec.ushiftRight_zero] at hfold
  rw [loadRam, if_neg (mt (isIgnored_iff a width).mp hmis), ← hfold]
  apply List.foldl_ext
  intro data i hi
  have hlt := start_add_lt hmis (List.mem_range.mp hi)
  rw [ramIndex_eq hlt, ← Nat.add_assoc, hstart, Nat.zero_add, byte_ofBytes _ (by omega)]

theorem setWidth_ofBytes_byte (f : ℕ → Byte) : (ofBytes f).setWidth 8 = f 0 := by
  apply BitVec.eq_of_getLsbD_eq
  intro i hi
  rw [BitVec.getLsbD_setWidth, getLsbD_ofBytes f (by omega), Nat.div_eq_of_lt hi,
    Nat.mod_eq_of_lt hi, decide_eq_true hi, Bool.true_and]

theorem setWidth_ofBytes_halfWord (f : ℕ → Byte) : (ofBytes f).setWidth 16 = f 1 ++ f 0 := by
  apply BitVec.eq_of_getLsbD_eq
  intro i hi
  rw [BitVec.getLsbD_setWidth, getLsbD_ofBytes f (by omega), decide_eq_true hi, Bool.true_and,
    BitVec.getLsbD_append]
  by_cases h8 : i < 8
  · rw [if_pos h8, Nat.div_eq_of_lt h8, Nat.mod_eq_of_lt h8]
  · have hdiv : i / 8 = 1 := by omega
    have hmod : i % 8 = i - 8 := by omega
    rw [if_neg h8, hdiv, hmod]

end Memory

/-! ## Instructions -/

section Instructions

variable {s : Isa.State} {c : Cpu} {m : Machine} {w a : Word}

theorem Represents.get (h : Represents s c m) (r : BitVec 5) :
    (cleared c).regs r.toNat = s.get r := by
  unfold Isa.State.get
  by_cases hr : r = 0
  · rw [hr, if_pos rfl]
    rfl
  · have hne : r.toNat ≠ 0 := fun hzero ↦ hr (BitVec.eq_of_toNat_eq hzero)
    rw [if_neg hr, ← h.regs r hr]
    exact Function.update_of_ne hne _ _

theorem Represents.rs1 (h : Represents s c m) :
    reg (cleared c).regs (rs1From w) = s.get (Isa.rs1 w) := by
  rw [reg, rs1From_toNat]
  exact h.get _

theorem Represents.rs2 (h : Represents s c m) :
    reg (cleared c).regs (rs2From w) = s.get (Isa.rs2 w) := by
  rw [reg, rs2From_toNat]
  exact h.get _

theorem Represents.jump (h : Represents s c m) (pc : Word) :
    Conforms (s.goto pc) c m (jump (cleared c) m pc) := by
  refine ⟨rfl, ⟨rfl, ?_, h.mem⟩, rfl, rfl, rfl, rfl⟩
  intro r hr
  exact (h.get r).trans (if_neg hr)

theorem Represents.retire (h : Represents s c m) (w v pc : Word) :
    Conforms ((s.set (Isa.rd w) v).goto pc) c m (retire (cleared c) m (rdFrom w) v pc) := by
  refine ⟨rfl, ⟨rfl, ?_, h.mem⟩, rfl, rfl, rfl, rfl⟩
  intro r hr
  change Function.update (cleared c).regs (rdFrom w).toNat v r.toNat =
    Function.update s.x (Isa.rd w) v r
  rw [rdFrom_toNat]
  by_cases hrd : r = Isa.rd w
  · rw [hrd, Function.update_self]
    exact Function.update_self ..
  · have hne : r.toNat ≠ (Core.rd w).toNat := fun heq ↦ hrd (BitVec.eq_of_toNat_eq heq)
    rw [Function.update_of_ne hrd, Function.update_of_ne hne]
    exact (h.get r).trans (if_neg hr)

theorem Represents.byte (h : Represents s c m) {i : ℕ} (hi : a.toNat + i < memoryEnd) :
    m.ram (a.toNat + i) = s.mem (a + BitVec.ofNat 32 i) := by
  have hplace : (a + BitVec.ofNat 32 i).toNat = a.toNat + i := by
    unfold memoryEnd at hi
    rw [BitVec.toNat_add, BitVec.toNat_ofNat]
    omega
  rw [← h.mem _ (by omega), hplace]

theorem Represents.bus_load (h : Represents s c m) {width : BusOpWidth}
    (hram : InRam a width.bytes) :
    ∃ f : ℕ → Byte, (∀ i < width.bytes, f i = s.mem (a + BitVec.ofNat 32 i)) ∧
      bus m a width false 0 = ⟨0, moved width (ofBytes f), m⟩ := by
  refine ⟨fun i ↦ m.ram (a.toNat + i), ?_, ?_⟩
  · intro i hi
    have hbound := hram.bound
    exact h.byte (by omega)
  · rw [RamPath.bus_load hram.lt, loadRam_aligned hram]

theorem Represents.fetch (h : Represents s c m) (hpc : InRam s.pc 4) :
    bus m c.pc .word false 0 = ⟨0, Isa.fetch s, m⟩ := by
  have hword : InRam s.pc BusOpWidth.word.bytes := hpc
  obtain ⟨f, hf, hbus⟩ := h.bus_load hword
  rw [h.pc, hbus]
  congr 1
  have h0 := hf 0 (by decide)
  have h1 := hf 1 (by decide)
  have h2 := hf 2 (by decide)
  have h3 := hf 3 (by decide)
  rw [BitVec.add_zero] at h0
  rw [moved, ofBytes, h0, h1, h2, h3]
  rfl

/-- What a load finds and does with it. -/
theorem Represents.load (h : Represents s c m) {op : Isa.LoadOp} (hop : Isa.decodeLoad w = some op)
    (hram : InRam a op.bytes) :
    ∃ width base extend v, loadWidth (funct3From w) = some (width, base, extend) ∧
      bus m a width false 0 = ⟨0, v, m⟩ ∧ extend v = op.eval s.mem a := by
  have hfunct3 := funct3From_of_funct3 (w := w) rfl
  have hcases := Core.funct3_cases (Isa.funct3 w)
  unfold Isa.decodeLoad at hop
  rw [hfunct3]
  rcases hcases with hf | hf | hf | hf | hf | hf | hf | hf <;> rw [hf] at hop ⊢ <;>
    simp at hop <;> subst hop
  · have hbyte : InRam a BusOpWidth.byte.bytes := hram
    obtain ⟨f, hf, hbus⟩ := h.bus_load hbyte
    refine ⟨_, _, _, _, rfl, hbus, (signExtend_byte _).trans ?_⟩
    rw [setWidth_ofBytes_byte, hf 0 (by decide), BitVec.add_zero]
    rfl
  · have hhalf : InRam a BusOpWidth.halfWord.bytes := hram
    obtain ⟨f, hf, hbus⟩ := h.bus_load hhalf
    refine ⟨_, _, _, _, rfl, hbus, (signExtend_halfWord _).trans ?_⟩
    rw [setWidth_ofBytes_halfWord, hf 0 (by decide), hf 1 (by decide), BitVec.add_zero]
    rfl
  · have hword : InRam a BusOpWidth.word.bytes := hram
    obtain ⟨f, hf, hbus⟩ := h.bus_load hword
    refine ⟨_, _, _, _, rfl, hbus, ?_⟩
    have h0 := hf 0 (by decide)
    rw [BitVec.add_zero] at h0
    rw [moved, ofBytes, h0, hf 1 (by decide), hf 2 (by decide), hf 3 (by decide)]
    rfl
  · have hbyte : InRam a BusOpWidth.byte.bytes := hram
    obtain ⟨f, hf, hbus⟩ := h.bus_load hbyte
    refine ⟨_, _, _, _, rfl, hbus, ?_⟩
    rw [moved, setWidth_ofBytes_byte, hf 0 (by decide), BitVec.add_zero]
    rfl
  · have hhalf : InRam a BusOpWidth.halfWord.bytes := hram
    obtain ⟨f, hf, hbus⟩ := h.bus_load hhalf
    refine ⟨_, _, _, _, rfl, hbus, ?_⟩
    rw [moved, setWidth_ofBytes_halfWord, hf 0 (by decide), hf 1 (by decide), BitVec.add_zero]
    rfl

theorem storeWidth_of_decodeStore {op : Isa.StoreOp} (hop : Isa.decodeStore w = some op) :
    ∃ width base, storeWidth (funct3From w) = some (width, base) ∧ op.bytes = width.bytes := by
  have hfunct3 := funct3From_of_funct3 (w := w) rfl
  have hcases := Core.funct3_cases (Isa.funct3 w)
  unfold Isa.decodeStore at hop
  rw [hfunct3]
  rcases hcases with hf | hf | hf | hf | hf | hf | hf | hf <;> rw [hf] at hop ⊢ <;>
    simp at hop <;> subst hop
  · exact ⟨.byte, 1100, rfl, rfl⟩
  · exact ⟨.halfWord, 1200, rfl, rfl⟩
  · exact ⟨.word, 1300, rfl, rfl⟩

/-- A store replaces its bytes. -/
theorem Represents.store (h : Represents s c m) {width : BusOpWidth} (hram : InRam a width.bytes)
    (data pc : Word) :
    Conforms (Isa.State.goto { s with mem := Isa.storeBytes a width.bytes data s.mem } pc) c m
      (Rv32i.jump (cleared c) { m with ram := storeRam a width data m.ram } pc) := by
  refine ⟨rfl, ⟨rfl, fun r hr ↦ (h.get r).trans (if_neg hr), ?_⟩, rfl, rfl, rfl, rfl⟩
  intro b hb
  obtain ⟨hmis, hstart⟩ := hram.aligned_access
  have hbound := hram.bound
  change storeRam a width data m.ram b.toNat = Isa.storeBytes a width.bytes data s.mem b
  rw [storeRam_apply, Isa.storeBytes, hstart, ← h.mem b hb]
  unfold memoryEnd at hbound hb
  have hdistance : a.toNat ≤ b.toNat → (b - a).toNat = b.toNat - a.toNat := by
    intro hle
    exact BitVec.toNat_sub_of_le hle
  by_cases hin : a.toNat ≤ b.toNat ∧ b.toNat < a.toNat + width.bytes
  · rw [if_pos ⟨hmis, hin⟩, hdistance hin.1, if_pos (by omega)]
  · have hout : ¬ (b - a).toNat < width.bytes := by
      have hlt := a.isLt
      rw [BitVec.toNat_sub]
      omega
    rw [if_neg fun hall ↦ hin hall.2, if_neg hout]

/-! ## Results -/

theorem shiftRight_of_decode {op : Isa.ShiftOp} (hop : Isa.decodeShiftRight w = some op) (v : Word)
    (k : BitVec 5) (status : ℕ) :
    (if funct7From w = 0b0000000 then Except.ok (v >>> k.toNat)
      else if funct7From w = 0b0100000 then .ok (v.sshiftRight k.toNat) else .error status) =
        .ok (op.eval v k) := by
  unfold Isa.decodeShiftRight at hop
  by_cases hsrl : Isa.funct7 w = 0b0000000
  · rw [if_pos hsrl] at hop
    obtain rfl := Option.some.inj hop
    have hzero : funct7From w = 0b0000000 := funct7From_of_funct7 hsrl
    rw [if_pos hzero]
    rfl
  · rw [if_neg hsrl] at hop
    by_cases hsra : Isa.funct7 w = 0b0100000
    · rw [if_pos hsra] at hop
      obtain rfl := Option.some.inj hop
      have hone : funct7From w = 0b0100000 := funct7From_of_funct7 hsra
      rw [hone]
      rfl
    · rw [if_neg hsra] at hop
      exact absurd hop.symm (Option.some_ne_none op)

theorem Represents.logicalImm (h : Represents s c m) {i : Isa.Instr}
    (hi : Isa.decodeOpImm w = some i) :
    ∃ v, Rv32i.logicalImm (cleared c).regs w = .ok v ∧
      Isa.exec i s = (s.set (Isa.rd w) v).next := by
  have hfunct3 := funct3From_of_funct3 (w := w) rfl
  have hshift : (rs2From w).toNat = (Isa.rs2 w).toNat := rs2From_toNat w
  unfold Isa.decodeOpImm at hi
  unfold Rv32i.logicalImm
  rw [h.rs1, immI_eq, hshift, hfunct3]
  rcases Core.funct3_cases (Isa.funct3 w) with hf | hf | hf | hf | hf | hf | hf | hf <;>
    rw [hf] at hi ⊢ <;> simp at hi
  · subst hi
    exact ⟨_, rfl, rfl⟩
  · obtain ⟨-, rfl⟩ := hi
    exact ⟨_, rfl, rfl⟩
  · subst hi
    exact ⟨_, rfl, rfl⟩
  · subst hi
    exact ⟨_, rfl, rfl⟩
  · subst hi
    exact ⟨_, rfl, rfl⟩
  · obtain ⟨op, hop, rfl⟩ := hi
    exact ⟨_, shiftRight_of_decode hop (s.get (Isa.rs1 w)) (Isa.rs2 w) 1, rfl⟩
  · subst hi
    exact ⟨_, rfl, rfl⟩
  · subst hi
    exact ⟨_, rfl, rfl⟩

theorem Represents.logical (h : Represents s c m) {op : Isa.RegOp}
    (hop : Isa.decodeOp w = some op) :
    Rv32i.logical (cleared c).regs w =
      .ok (op.eval (s.get (Isa.rs1 w)) (s.get (Isa.rs2 w))) := by
  have hfunct3 := funct3From_of_funct3 (w := w) rfl
  unfold Isa.decodeOp at hop
  unfold Rv32i.logical
  dsimp only
  rw [h.rs1, h.rs2, hfunct3]
  have hshift : (s.get (Isa.rs2 w) &&& 0x1f).toNat = ((s.get (Isa.rs2 w)).setWidth 5).toNat := by
    rw [shiftAmount_eq, BitVec.extractLsb'_toNat]
    rfl
  rw [hshift]
  rcases Core.funct3_cases (Isa.funct3 w) with hf | hf | hf | hf | hf | hf | hf | hf <;>
    rw [hf] at hop ⊢ <;> simp at hop
  · by_cases hsub : Isa.funct7 w = 0b0100000#7
    · rw [if_pos hsub] at hop
      obtain rfl := Option.some.inj hop
      have hone : funct7From w = 0b0100000 := funct7From_of_funct7 hsub
      rw [hone]
      rfl
    · rw [if_neg hsub] at hop
      by_cases hadd : Isa.funct7 w = 0b0000000#7
      · have hzero : funct7From w = 0b0000000 := funct7From_of_funct7 hadd
        rw [hzero]
        rw [if_pos hadd] at hop
        obtain rfl := Option.some.inj hop
        rfl
      · rw [if_neg hadd] at hop
        exact absurd hop.symm (Option.some_ne_none op)
  · obtain ⟨-, rfl⟩ := hop
    rfl
  · obtain ⟨-, rfl⟩ := hop
    rfl
  · obtain ⟨-, rfl⟩ := hop
    rfl
  · obtain ⟨-, rfl⟩ := hop
    rfl
  · obtain ⟨op, hop, rfl⟩ := hop
    exact shiftRight_of_decode hop _ _ 4
  · obtain ⟨-, rfl⟩ := hop
    rfl
  · obtain ⟨-, rfl⟩ := hop
    rfl

theorem Represents.branch (h : Represents s c m) {op : Isa.BranchOp}
    (hop : Isa.decodeBranch w = some op) :
    Rv32i.branchTaken (cleared c).regs w =
      .ok (op.taken (s.get (Isa.rs1 w)) (s.get (Isa.rs2 w))) := by
  have hfunct3 := funct3From_of_funct3 (w := w) rfl
  unfold Isa.decodeBranch at hop
  unfold Rv32i.branchTaken
  rw [h.rs1, h.rs2, hfunct3]
  rcases Core.funct3_cases (Isa.funct3 w) with hf | hf | hf | hf | hf | hf | hf | hf <;>
    rw [hf] at hop ⊢ <;> simp at hop <;> subst hop
  · rfl
  · rfl
  · rfl
  · rfl
  · rfl
  · rfl

/-! ## Ticks -/

theorem and_not_one_of_even {v : Word} (h : 2 ∣ v.toNat) : v &&& ~~~1 = v := by
  have hlow : v.getLsbD 0 = false := by
    rw [← BitVec.testBit_toNat, Nat.testBit_zero]
    simpa using Nat.mod_eq_zero_of_dvd h
  apply BitVec.eq_of_getLsbD_eq
  intro i hi
  rw [BitVec.getLsbD_and, BitVec.getLsbD_not, decide_eq_true hi]
  cases i with
  | zero => rw [hlow, Bool.false_and]
  | succ i => simp

/-- An instruction is executed as the instruction set says. -/
theorem Represents.execute (h : Represents s c m) {i : Isa.Instr} (hi : Isa.decode w = some i)
    (haccess : ∀ a n, Isa.access i s = some (a, n) → InRam a n)
    (htarget : ∀ a, Isa.target i s = some a → 2 ∣ a.toNat) :
    Conforms (Isa.exec i s) c m (execute bus (cleared c) m w) := by
  unfold Isa.decode at hi
  unfold Rv32i.execute
  dsimp only
  rw [cleared_pc, h.pc]
  by_cases hlui : Isa.opcode w = 0b0110111
  · rw [if_pos hlui] at hi
    obtain rfl := Option.some.inj hi
    rw [opcodeFrom_of_opcode hlui]
    have himm : uImm20From w = Isa.immU w := uImm20From_eq w
    rw [himm]
    exact h.retire w (Isa.immU w) (s.pc + 4)
  rw [if_neg hlui] at hi
  by_cases hauipc : Isa.opcode w = 0b0010111
  · rw [if_pos hauipc] at hi
    obtain rfl := Option.some.inj hi
    rw [opcodeFrom_of_opcode hauipc]
    have himm : uImm20From w = Isa.immU w := uImm20From_eq w
    rw [himm]
    exact h.retire w (s.pc + Isa.immU w) (s.pc + 4)
  rw [if_neg hauipc] at hi
  by_cases hjal : Isa.opcode w = 0b1101111
  · rw [if_pos hjal] at hi
    obtain rfl := Option.some.inj hi
    rw [opcodeFrom_of_opcode hjal, immJ_eq]
    exact h.retire w (s.pc + 4) (s.pc + Isa.immJ w)
  rw [if_neg hjal] at hi
  by_cases hjalr : Isa.opcode w = 0b1100111
  · rw [if_pos hjalr] at hi
    by_cases hfunct3 : Isa.funct3 w = 0b000
    · rw [if_pos hfunct3] at hi
      obtain rfl := Option.some.inj hi
      rw [opcodeFrom_of_opcode hjalr, h.rs1, immI_eq]
      have htargetEven := and_not_one_of_even (htarget _ rfl)
      rw [Isa.exec, htargetEven]
      exact h.retire w (s.pc + 4) (s.get (Isa.rs1 w) + Isa.immI w)
    · rw [if_neg hfunct3] at hi
      exact absurd hi.symm (Option.some_ne_none i)
  rw [if_neg hjalr] at hi
  by_cases hbranch : Isa.opcode w = 0b1100011
  · rw [if_pos hbranch] at hi
    obtain ⟨op, hop, rfl⟩ := Option.map_eq_some_iff.mp hi
    rw [opcodeFrom_of_opcode hbranch, h.branch hop, immB_eq]
    rw [Isa.exec]
    cases op.taken (s.get (Isa.rs1 w)) (s.get (Isa.rs2 w)) with
    | false => exact h.jump (s.pc + 4)
    | true => exact h.jump (s.pc + Isa.immB w)
  rw [if_neg hbranch] at hi
  by_cases hload : Isa.opcode w = 0b0000011
  · rw [if_pos hload] at hi
    obtain ⟨op, hop, rfl⟩ := Option.map_eq_some_iff.mp hi
    obtain ⟨width, base, extend, v, hwidth, hbus, hv⟩ := h.load hop (haccess _ _ rfl)
    rw [opcodeFrom_of_opcode hload, hwidth, h.rs1, immI_eq]
    have hretire := h.retire w (extend v) (s.pc + 4)
    rw [hv] at hretire
    dsimp only
    rw [hbus, hv]
    exact hretire
  rw [if_neg hload] at hi
  by_cases hstore : Isa.opcode w = 0b0100011
  · rw [if_pos hstore] at hi
    obtain ⟨op, hop, rfl⟩ := Option.map_eq_some_iff.mp hi
    obtain ⟨width, base, hwidth, hbytes⟩ := storeWidth_of_decodeStore hop
    have hram := haccess _ _ rfl
    rw [hbytes] at hram
    rw [opcodeFrom_of_opcode hstore, hwidth, h.rs1, h.rs2, immS_eq]
    have hconforms := h.store hram (s.get (Isa.rs2 w)) (s.pc + 4)
    rw [← hbytes] at hconforms
    dsimp only
    rw [RamPath.bus_store hram.lt]
    exact hconforms
  rw [if_neg hstore] at hi
  by_cases himm : Isa.opcode w = 0b0010011
  · rw [if_pos himm] at hi
    obtain ⟨v, hv, hexec⟩ := h.logicalImm hi
    rw [opcodeFrom_of_opcode himm, hv, hexec]
    exact h.retire w v (s.pc + 4)
  rw [if_neg himm] at hi
  by_cases hlogical : Isa.opcode w = 0b0110011
  · rw [if_pos hlogical] at hi
    obtain ⟨op, hop, rfl⟩ := Option.map_eq_some_iff.mp hi
    rw [opcodeFrom_of_opcode hlogical, h.logical hop]
    exact h.retire w _ (s.pc + 4)
  rw [if_neg hlogical] at hi
  by_cases hfence : Isa.opcode w = 0b0001111
  · rw [if_pos hfence] at hi
    by_cases hfunct3 : Isa.funct3 w = 0b000
    · rw [if_pos hfunct3] at hi
      obtain rfl := Option.some.inj hi
      rw [opcodeFrom_of_opcode hfence]
      exact h.jump (s.pc + 4)
    · rw [if_neg hfunct3] at hi
      exact absurd hi.symm (Option.some_ne_none i)
  · rw [if_neg hfence] at hi
    exact absurd hi.symm (Option.some_ne_none i)

/-- The emulated CPU implements RV32I. -/
theorem tick_conforms (h : Represents s c m) (hpc : InRam s.pc 4) {i : Isa.Instr}
    (hi : Isa.decode (Isa.fetch s) = some i)
    (haccess : ∀ a n, Isa.access i s = some (a, n) → InRam a n)
    (htarget : ∀ a, Isa.target i s = some a → 2 ∣ a.toNat) :
    Conforms (Isa.exec i s) c m (tick bus c m) := by
  rw [tick_of_fetch (h.fetch hpc)]
  exact h.execute hi haccess htarget

end Instructions

/-! ## Runs -/

/-- The next instruction lies in RAM, and so does what it loads or stores, both at aligned
addresses.  The target of a JALR is even before its bit 0 is cleared. -/
structure Executes (i : Isa.Instr) (s : Isa.State) : Prop where
  pc : InRam s.pc 4
  decode : Isa.decode (Isa.fetch s) = some i
  access : ∀ a n, Isa.access i s = some (a, n) → InRam a n
  target : ∀ a, Isa.target i s = some a → 2 ∣ a.toNat

/-- The instruction set executes these instructions one after the other. -/
inductive Executed (s : Isa.State) : List Isa.Instr → Isa.State → Prop
  | nil : Executed s [] s
  | snoc {instrs : List Isa.Instr} {i : Isa.Instr} {s' : Isa.State} (h : Executed s instrs s')
      (hexecutes : Executes i s') : Executed s (instrs ++ [i]) (Isa.exec i s')

/-- A run of the instruction set is a run of the emulated CPU. -/
theorem ticks_conform {s s' : Isa.State} {c : Cpu} {m : Machine} {instrs : List Isa.Instr}
    (h : Executed s instrs s') (hstart : Represents s c m) (hrunning : c.isHalted = false) :
    ∃ c' m', Ticks bus instrs.length c m c' m' ∧ Represents s' c' m' ∧ c'.isHalted = false := by
  induction h with
  | nil => exact ⟨c, m, .zero c m, hstart, hrunning⟩
  | snoc _ hexecutes ih =>
      obtain ⟨c', m', hticks, hstate, hrunning'⟩ := ih
      have htick := hstate.execute hexecutes.decode hexecutes.access hexecutes.target
      rw [← tick_of_fetch (hstate.fetch hexecutes.pc)] at htick
      have hstill : (tick bus c' m').cpu.isHalted = false := htick.isHalted.trans hrunning'
      rw [List.length_append]
      exact ⟨_, _, .succ hticks htick.status hstill, htick.represents, hstill⟩

/-- The state that a CPU and RAM hold. -/
def stateOf (c : Cpu) (m : Machine) : Isa.State where
  pc := c.pc
  x := fun r ↦ c.regs r.toNat
  mem := fun a ↦ m.ram a.toNat

theorem represents_stateOf (c : Cpu) (m : Machine) : Represents (stateOf c m) c m :=
  ⟨rfl, fun _ _ ↦ rfl, fun _ _ ↦ rfl⟩

/-- Registers that hold their numbers. -/
def numbered : Cpu := ⟨0, BitVec.ofNat 32, false⟩

/-- RAM with `sw x1, 4(x0)`. -/
def storing : Machine where
  ram := Bytes.byte 0x00102223
  sdcard := ⟨fun _ ↦ 0, 0, fun _ ↦ 0, 0⟩
  input := []
  output := []

theorem tick_conforms_store :
    Conforms (Isa.exec (.store .sw 0 1 4) (stateOf numbered storing)) numbered storing
      (tick bus numbered storing) := by
  refine tick_conforms (represents_stateOf numbered storing) ⟨by decide, by decide⟩ (by decide) ?_
    (fun _ htarget ↦ absurd htarget (Option.some_ne_none _).symm)
  intro a n haccess
  obtain ⟨rfl, rfl⟩ := Prod.mk.inj (Option.some.inj haccess)
  exact ⟨by decide, by decide⟩

end TangNano.Emulator
