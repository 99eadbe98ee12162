import TangNano.SdCard.ClockDivider
import TangNano.SdCard.PortSemantics

/-!
# The index of the buffer

A read goes once around the buffer.  A write takes one byte more than a sector
has, so that a program finds its bytes one place further.
-/

namespace TangNano.SdSystem

open SdCardPort SpiCard

section Transfer

variable {p : Params} {T : ℕ → Timing} {x : System} {d : Contents}

/-- Whatever the client drives meanwhile, the index is the same when the port is idle
again. -/
def Restores (p : Params) (T : ℕ → Timing) (i : Input) (x : System) : Prop :=
  ∀ u : ℕ → Input, u 0 = i → (∀ n, (u n).rstN = true) →
    ∃ n, (∀ k < n, Busy (after p T u x k)) ∧ ¬ Busy (after p T u x n) ∧
      (after p T u x n).port.bufferIndex = x.port.bufferIndex

/-- A transfer ends with the index that it leaves. -/
theorem Transfers.restores_iff {i : Input} {l : List Event} {d' : Contents}
    (h : Transfers p T i x l d') (hrst : i.rstN = true) :
    Restores p T i x ↔ d'.index = x.port.bufferIndex := by
  constructor
  · intro hrestores
    obtain ⟨n, hbusy, hidle, hindex⟩ := hrestores (single i) rfl (single_rstN hrst)
    obtain ⟨m, hbusy', -, hready⟩ := h (single i) rfl (single_rstN hrst)
    have hidle' : ¬ Busy (after p T (single i) x m) := Bool.eq_false_iff.mp hready.not_busy
    have heq : n = m := by
      rcases Nat.lt_trichotomy n m with hlt | heq | hgt
      · exact absurd (hbusy' n hlt) hidle
      · exact heq
      · exact absurd (hbusy m hgt) hidle'
    rw [← hindex, heq, hready.index]
  · intro hindex u hstart hall
    obtain ⟨n, hbusy, -, hready⟩ := h u hstart hall
    exact ⟨n, hbusy, Bool.eq_false_iff.mp hready.not_busy, hready.index.trans hindex⟩

theorem Ready.restores_read (h : Ready p x d) (hdivider : p.clockDivider = 0) (sector : Word)
    (v : Byte) : Restores p T ⟨true, 1, sector, v⟩ x := by
  have htransfers := (transfers_once (T := T) h sector v).1.mpr hdivider
  exact (htransfers.restores_iff rfl).mpr h.index.symm

/-- The byte after the last one is taken as well. -/
theorem Ready.not_restores_write (h : Ready p x d) (hdivider : p.clockDivider = 0) (sector : Word)
    (v : Byte) : ¬ Restores p T ⟨true, 4, sector, v⟩ x := by
  have hphase : (x.port.counter + 1) % 2 ^ p.clockDivider = 0 := by
    rw [hdivider, pow_zero, Nat.mod_one]
  have htransfers := (transfers_once (T := T) h sector v).2.mpr hphase
  rw [htransfers.restores_iff rfl, h.index]
  change d.index + 1 ≠ d.index
  bv_omega

end Transfer

end TangNano.SdSystem

namespace TangNano.SdDriver

open Bytes SdCardPort SdSystem Service

section Program

/-- 512 bytes are stored, the sector is written and 512 bytes are loaded. -/
def writeAndLoad (sector : Word) (v : Sector) : List Access :=
  (List.range 512).map (fun j ↦ .storeNextByte ((v (BitVec.ofNat 9 j)).setWidth 32)) ++
    .storeWriteSector sector :: List.replicate 512 .loadNextByte

/-- The bytes as a program loads them. -/
def words (v : Sector) : List Word :=
  (List.range 512).map fun j ↦ (v (BitVec.ofNat 9 j)).setWidth 32

theorem perform_storeNextByte (v : Sector) (d : Contents) (n : ℕ) :
    perform hardwareStep
        ((List.range n).map fun j ↦ .storeNextByte ((v (BitVec.ofNat 9 j)).setWidth 32)) d =
      ([], { d with
        buffer := fill d.buffer d.index v n
        index := d.index + BitVec.ofNat 9 n }) := by
  induction n with
  | zero => simp [perform, fill]
  | succ n ih =>
      rw [List.range_succ, List.map_append, perform_append, ih]
      simp only [List.map_cons, List.map_nil, perform, hardwareStep, Contents.store, byte_setWidth,
        Option.toList_none, List.append_nil, fill, BitVec.ofNat_add, BitVec.add_assoc]
      rfl

theorem perform_loadNextByte (d : Contents) (n : ℕ) :
    perform hardwareStep (List.replicate n .loadNextByte) d =
      ((List.range n).map fun k ↦ (d.buffer (d.index + BitVec.ofNat 9 k)).setWidth 32,
        { d with index := d.index + BitVec.ofNat 9 n }) := by
  induction n with
  | zero => simp [perform]
  | succ n ih =>
      rw [List.replicate_succ', perform_append, ih, List.range_succ, List.map_append]
      simp only [perform, hardwareStep, Contents.advance, Option.toList_some, List.append_nil,
        List.map_cons, List.map_nil, BitVec.ofNat_add, BitVec.add_assoc]
      rfl

/-- The first byte comes last. -/
theorem perform_writeAndLoad (sector : Word) (v : Sector) (d : Contents) :
    (perform hardwareStep (writeAndLoad sector v) d).1 = words fun j ↦ v (j + 1) := by
  rw [writeAndLoad, perform_append, perform_storeNextByte, perform,
    perform_loadNextByte, fill_sector]
  simp only [hardwareStep, Contents.write, Option.toList_none, List.nil_append]
  rw [words]
  apply List.map_congr_left
  intro k _
  congr 2
  bv_omega

theorem words_inj {v w : Sector} : words v = words w ↔ v = w := by
  refine ⟨fun h ↦ ?_, fun h ↦ by rw [h]⟩
  funext j
  rw [words, words, List.map_inj_left] at h
  have hj := h j.toNat (List.mem_range.mpr j.isLt)
  rw [BitVec.ofNat_toNat, BitVec.setWidth_eq] at hj
  have hbyte := congrArg (fun w : Word ↦ byte w 0) hj
  simpa only [byte_setWidth] using hbyte

/-- Bytes that are the same one place further are all the same. -/
theorem rotated_iff (v : Sector) : (fun j ↦ v (j + 1)) = v ↔ ∀ j k, v j = v k := by
  constructor
  · intro h
    have hfirst (n : ℕ) : v (BitVec.ofNat 9 n) = v 0 := by
      induction n with
      | zero => rfl
      | succ n ih =>
          rw [← ih, BitVec.ofNat_add]
          exact congrFun h (BitVec.ofNat 9 n)
    have hall (j : BitVec 9) : v j = v 0 := by
      rw [← hfirst j.toNat, BitVec.ofNat_toNat, BitVec.setWidth_eq]
    intro j k
    rw [hall j, hall k]
  · intro h
    funext j
    exact h (j + 1) j

/-- A program writes a sector from the buffer and loads the buffer. -/
theorem writeAndLoad_loads {T : ℕ → SpiCard.Timing} {q : Ramio.Parts} {s : Ramio.Regs} {x : System}
    {d : Contents} (h : Ready ⟨0, 0⟩ x d) (gaps : ℕ → ℕ) (sector : Word) (v : Sector) :
    ∃ n, ∀ fuel ≥ n, ∃ y,
      session (hardware ⟨0, 0⟩ T q s) fuel (writeAndLoad sector v) ⟨x, gaps⟩ =
        some (words fun j ↦ v (j + 1), y) := by
  have hready : Ready ⟨0, 0⟩ (Hardware.mk x gaps).system d := h
  obtain ⟨y, n, hsession, -⟩ := hardware_session (T := T) (q := q) (s := s) hready
    (writeAndLoad sector v)
  refine ⟨n, fun fuel hfuel ↦ ⟨y, ?_⟩⟩
  rw [hsession fuel hfuel, perform_writeAndLoad]

/-- With these settings a program gets back the bytes that it has stored. -/
def GetsBack (T : ℕ → SpiCard.Timing) (q : Ramio.Parts) (s : Ramio.Regs) (x : System)
    (gaps : ℕ → ℕ) (sector : Word) (v : Sector) : Prop :=
  ∃ n, ∀ fuel ≥ n, ∃ y,
    session (hardware ⟨0, 0⟩ T q s) fuel (writeAndLoad sector v) ⟨x, gaps⟩ = some (words v, y)

theorem getsBack_iff {T : ℕ → SpiCard.Timing} {q : Ramio.Parts} {s : Ramio.Regs} {x : System}
    {d : Contents} (h : Ready ⟨0, 0⟩ x d) (gaps : ℕ → ℕ) (sector : Word) (v : Sector) :
    GetsBack T q s x gaps sector v ↔ ∀ j k, v j = v k := by
  obtain ⟨n, hloads⟩ := writeAndLoad_loads (T := T) (q := q) (s := s) h gaps sector v
  rw [← rotated_iff, ← words_inj]
  constructor
  · rintro ⟨m, hback⟩
    obtain ⟨y, hy⟩ := hloads (max n m) (le_max_left n m)
    obtain ⟨z, hz⟩ := hback (max n m) (le_max_right n m)
    rw [hy, Option.some_inj, Prod.mk.injEq] at hz
    exact hz.1
  · intro heq
    rw [heq] at hloads
    exact ⟨n, hloads⟩

/-- A transfer restores the index exactly if it is a read, and a program that writes a sector
gets its bytes back exactly if they are all the same. -/
theorem index_restored_iff {p : Params} (hdivider : p.clockDivider = 0) {T : ℕ → SpiCard.Timing}
    {x : System} {d : Contents} (h : Ready p x d) {i : Input} (hrst : i.rstN = true)
    (hcommand : i.command = 1 ∨ i.command = 4) :
    (Restores p T i x ↔ i.command = 1) ∧
      ∀ (q : Ramio.Parts) (s : Ramio.Regs) (y : System) (d' : Contents), Ready ⟨0, 0⟩ y d' →
        ∀ (gaps : ℕ → ℕ) (sector : Word) (v : Sector),
          GetsBack T q s y gaps sector v ↔ ∀ j k, v j = v k := by
  refine ⟨?_, fun q s y d' hy gaps sector v ↦ getsBack_iff hy gaps sector v⟩
  obtain ⟨rstN, command, sector, v⟩ := i
  obtain rfl : rstN = true := hrst
  rcases hcommand with hread | hwrite
  · obtain rfl : command = 1 := hread
    exact iff_of_true (h.restores_read hdivider sector v) rfl
  · obtain rfl : command = 4 := hwrite
    have hne : (4 : BitVec 3) ≠ 1 := by decide
    exact iff_of_false (h.not_restores_write hdivider sector v) hne

theorem index_restored_iff_rested :
    Restores ⟨0, 0⟩ prompt ⟨true, 1, 7, 0⟩ rested ∧
      (GetsBack prompt ⟨0, false, false, 0, false, 0, false, false, 0⟩ ⟨0, 0, false, 0, false⟩
        rested (fun n ↦ n) 7 (fun _ ↦ 0x2a) ↔ ∀ _j _k : BitVec 9, (0x2a : Byte) = 0x2a) :=
  ⟨(index_restored_iff rfl (rested_ready ⟨0, 0⟩) rfl (.inl rfl)).1.mpr rfl,
    (index_restored_iff rfl (rested_ready ⟨0, 0⟩) (i := ⟨true, 1, 7, 0⟩) rfl (.inl rfl)).2 _ _ _ _
      (rested_ready ⟨0, 0⟩) _ _ _⟩

/-- A sector is written from index 0. -/
theorem not_index_restored :
    ¬ ∀ (p : Params) (T : ℕ → SpiCard.Timing) (x : System) (d : Contents), p.clockDivider = 0 →
      Ready p x d → ∀ i : Input, i.rstN = true → i.command = 1 ∨ i.command = 4 →
        Restores p T i x := by
  intro h
  exact (rested_ready ⟨0, 0⟩).not_restores_write rfl 7 0
    (h ⟨0, 0⟩ prompt rested restedContents rfl (rested_ready _) ⟨true, 4, 7, 0⟩ rfl (.inr rfl))

end Program

end TangNano.SdDriver
