import TangNano.SdCard.Storage

/-!
# The ports of the SD card on hardware and emulator

The hardware transfers a sector to and from the buffer beginning at the index
and is one byte further after a write; the emulator begins at the start of the
buffer and leaves the index where it is.
-/

namespace TangNano.SdDriver

open Bytes SdCardPort SdSystem Service

inductive Access
  | loadNextByte
  | storeNextByte (v : Word)
  | storeReadSector (s : Word)
  | storeWriteSector (s : Word)

/-- The sector is one of the first. -/
def Access.Inside (count : ℕ) : Access → Prop
  | .loadNextByte => True
  | .storeNextByte _ => True
  | .storeReadSector s => s.toNat < count
  | .storeWriteSector s => s.toNat < count

section Accesses

variable {σ : Type*} (P : Ports σ)

/-- An access that comes when the card is not busy. -/
def access (fuel : ℕ) (a : Access) (x : σ) : Option (Option Word × σ) := do
  let y ← waitWhileBusy P fuel x
  match a with
  | .loadNextByte =>
      let (v, z) ← P.load sdcardNextByte y
      some (some v, z)
  | .storeNextByte v =>
      let z ← P.store sdcardNextByte v y
      some (none, z)
  | .storeReadSector s =>
      let z ← P.store sdcardReadSector s y
      some (none, z)
  | .storeWriteSector s =>
      let z ← P.store sdcardWriteSector s y
      some (none, z)

/-- Accesses one after the other until the card is not busy any more. -/
def session (fuel : ℕ) (accesses : List Access) (x : σ) : Option (List Word × σ) := do
  let (l, y) ← serve (access P fuel) accesses x
  let z ← waitWhileBusy P fuel y
  some (l, z)

end Accesses

/-! ## What the accesses do -/

def hardwareStep : Access → Contents → Option Word × Contents
  | .loadNextByte, d => (some ((d.buffer d.index).setWidth 32), d.advance)
  | .storeNextByte v, d => (none, d.store (byte v 0))
  | .storeReadSector s, d => (none, d.read s)
  | .storeWriteSector s, d => (none, d.write s)

def emulatorStep : Access → Contents → Option Word × Contents
  | .loadNextByte, d => (some ((d.buffer d.index).setWidth 32), d.advance)
  | .storeNextByte v, d => (none, d.store (byte v 0))
  | .storeReadSector s, d => (none, { d with buffer := d.sectors s })
  | .storeWriteSector s, d =>
      (none, { d with sectors := Function.update d.sectors s d.buffer })

section Hardware

variable {T : ℕ → SpiCard.Timing} {q : Ramio.Parts} {s : Ramio.Regs} {h : Hardware}
  {d : Contents}

/-- A transfer goes on at most and leaves these contents. -/
def Settling (T : ℕ → SpiCard.Timing) (h : Hardware) (d : Contents) : Prop :=
  ∃ n, (∀ k < n, Busy ((idle ⟨0, 0⟩ T)^[k] h.system)) ∧
    Ready ⟨0, 0⟩ ((idle ⟨0, 0⟩ T)^[n] h.system) d

theorem Settling.of_ready (hready : Ready ⟨0, 0⟩ h.system d) : Settling T h d :=
  ⟨0, fun k hk ↦ absurd hk (Nat.not_lt_zero k), hready⟩

theorem Settling.of_logged {y : System} {l : List Event} (hbusy : Busy h.system)
    (hlogged : Clocked.Logged (idle ⟨0, 0⟩ T) events Busy h.system l y)
    (hready : Ready ⟨0, 0⟩ y d) : Settling T h d := by
  obtain ⟨n, hend, -, hguarded⟩ := hlogged.iterate_of_guard hbusy
  refine ⟨n, hguarded, ?_⟩
  rw [hend]
  exact hready

theorem Settling.wait (hsettling : Settling T h d) :
    ∃ y n, (∀ fuel ≥ n, waitWhileBusy (hardware ⟨0, 0⟩ T q s) fuel h = some y) ∧
      Ready ⟨0, 0⟩ y.system d := by
  obtain ⟨n, hbusy, hready⟩ := hsettling
  obtain ⟨y, hwait, hy⟩ := hardware_wait (q := q) (s := s) hbusy hready
  exact ⟨y, n + 1, fun fuel hfuel ↦ hwait fuel hfuel, hy⟩

theorem hardware_access (a : Access) (hsettling : Settling T h d) :
    ∃ y n, (∀ fuel ≥ n, access (hardware ⟨0, 0⟩ T q s) fuel a h =
        some ((hardwareStep a d).1, y)) ∧
      Settling T y (hardwareStep a d).2 := by
  obtain ⟨x, n, hwait, hx⟩ := hsettling.wait (q := q) (s := s)
  have hnext : Ready ⟨0, 0⟩ (x.next ⟨0, 0⟩ T) d := hx.iterate (x.gaps 0)
  cases a with
  | loadNextByte =>
      refine ⟨⟨step ⟨0, 0⟩ T ⟨true, 2, 0, 0⟩ (x.next ⟨0, 0⟩ T), fun n ↦ x.gaps (n + 1)⟩, n, ?_,
        .of_ready (hnext.advance 0 0)⟩
      intro fuel hfuel
      simp only [access, hwait fuel hfuel, hardware_load_nextByte, hardwareStep, dataOut,
        hnext.buffer, hnext.index, Option.bind_eq_bind, Option.bind_some]
  | storeNextByte v =>
      refine ⟨⟨step ⟨0, 0⟩ T ⟨true, 3, 0, byte v 0⟩ (x.next ⟨0, 0⟩ T), fun n ↦ x.gaps (n + 1)⟩,
        n, ?_, .of_ready (hnext.store 0 (byte v 0))⟩
      intro fuel hfuel
      simp only [access, hwait fuel hfuel, hardware_store_nextByte, hardwareStep,
        Option.bind_eq_bind, Option.bind_some]
  | storeReadSector sector =>
      obtain ⟨hbusy, y, hlogged, hy⟩ := hnext.read (T := T) rfl sector
        (BitVec.shiftLeft_zero sector) 0
      refine ⟨⟨step ⟨0, 0⟩ T ⟨true, 1, sector, 0⟩ (x.next ⟨0, 0⟩ T), fun n ↦ x.gaps (n + 1)⟩, n, ?_,
        .of_logged hbusy hlogged hy⟩
      intro fuel hfuel
      simp only [access, hwait fuel hfuel, hardware_store_readSector, hardwareStep,
        Option.bind_eq_bind, Option.bind_some]
  | storeWriteSector sector =>
      obtain ⟨hbusy, y, hlogged, hy⟩ := hnext.write (T := T) (Nat.mod_one _) sector
        (BitVec.shiftLeft_zero sector) 0
      refine ⟨⟨step ⟨0, 0⟩ T ⟨true, 4, sector, 0⟩ (x.next ⟨0, 0⟩ T), fun n ↦ x.gaps (n + 1)⟩, n, ?_,
        .of_logged hbusy hlogged hy⟩
      intro fuel hfuel
      simp only [access, hwait fuel hfuel, hardware_store_writeSector, hardwareStep,
        Option.bind_eq_bind, Option.bind_some]

theorem hardware_session (hready : Ready ⟨0, 0⟩ h.system d) (accesses : List Access) :
    ∃ y n, (∀ fuel ≥ n, session (hardware ⟨0, 0⟩ T q s) fuel accesses h =
        some ((perform hardwareStep accesses d).1, y)) ∧
      Ready ⟨0, 0⟩ y.system (perform hardwareStep accesses d).2 := by
  obtain ⟨x, n, hserve, hx⟩ := serve_refines (f := hardwareStep)
    (g := access (hardware ⟨0, 0⟩ T q s)) (R := Settling T) (V := fun _ ↦ True)
    (fun a x d _ hx ↦ hardware_access a hx) (fun a (_ : a ∈ accesses) ↦ trivial)
    (.of_ready hready)
  obtain ⟨y, m, hwait, hy⟩ := hx.wait (q := q) (s := s)
  refine ⟨y, max n m, ?_, hy⟩
  intro fuel hfuel
  have hfirst := hserve fuel (le_of_max_le_left hfuel)
  have hlast := hwait fuel (le_of_max_le_right hfuel)
  simp only [session, hfirst, hlast, Option.bind_eq_bind, Option.bind_some]

end Hardware

section Emulator

variable {count : ℕ} {m : Emulator.Machine} {d : Contents}

theorem emulator_access (a : Access) (ha : a.Inside count) (h : Holds count m d) :
    ∃ m' n, (∀ fuel ≥ n, access emulator fuel a m = some ((emulatorStep a d).1, m')) ∧
      Holds count m' (emulatorStep a d).2 := by
  cases a with
  | loadNextByte =>
      refine ⟨_, 1, ?_, h.advance⟩
      intro fuel hfuel
      simp only [access, emulator_wait hfuel, emulator_load_nextByte, emulatorStep,
        Emulator.SdCard.nextByte, h.index, h.buffer, Option.bind_eq_bind, Option.bind_some]
  | storeNextByte v =>
      refine ⟨_, 1, ?_, h.store (byte v 0)⟩
      intro fuel hfuel
      simp only [access, emulator_wait hfuel, emulator_store_nextByte, emulatorStep,
        Option.bind_eq_bind, Option.bind_some]
  | storeReadSector s =>
      obtain ⟨m', hread, hm'⟩ := h.read ha
      refine ⟨m', 1, ?_, hm'⟩
      intro fuel hfuel
      simp only [access, emulator_wait hfuel, hread, emulatorStep, Option.bind_eq_bind,
        Option.bind_some]
  | storeWriteSector s =>
      obtain ⟨m', hwrite, hm'⟩ := h.write ha
      refine ⟨m', 1, ?_, hm'⟩
      intro fuel hfuel
      simp only [access, emulator_wait hfuel, hwrite, emulatorStep, Option.bind_eq_bind,
        Option.bind_some]

theorem emulator_session (h : Holds count m d) {accesses : List Access}
    (haccesses : ∀ a ∈ accesses, a.Inside count) :
    ∃ m' n, (∀ fuel ≥ n, session emulator fuel accesses m =
        some ((perform emulatorStep accesses d).1, m')) ∧
      Holds count m' (perform emulatorStep accesses d).2 := by
  obtain ⟨m', n, hserve, hm'⟩ := serve_refines (f := emulatorStep) (g := access emulator)
    (R := Holds count) (V := Access.Inside count)
    (fun a x d ha hx ↦ emulator_access a ha hx) haccesses h
  refine ⟨m', n + 1, ?_, hm'⟩
  intro fuel hfuel
  have hfirst := hserve fuel (Nat.le_of_succ_le hfuel)
  have hlast := emulator_wait (m := m') (Nat.lt_of_lt_of_le (Nat.succ_pos n) hfuel)
  simp only [session, hfirst, hlast, Option.bind_eq_bind, Option.bind_some]

end Emulator

/-! ## Where they agree -/

/-- Where the index of the emulator is, and how many bytes have been stored
since a sector was written; 512 if none was, or one was read. -/
structure Phase where
  index : BitVec 9
  stores : ℕ

/-- Sectors are transferred at index 0, and the buffer of a sector that was
written is not used again. -/
def Phase.Allows (φ : Phase) : Access → Prop
  | .loadNextByte => φ.stores = 512
  | .storeNextByte _ => True
  | .storeReadSector _ => φ.index = 0
  | .storeWriteSector _ => φ.index = 0 ∧ φ.stores = 512

def Phase.next (φ : Phase) : Access → Phase
  | .loadNextByte => { φ with index := φ.index + 1 }
  | .storeNextByte _ => ⟨φ.index + 1, min 512 (φ.stores + 1)⟩
  | .storeReadSector _ => { φ with stores := 512 }
  | .storeWriteSector _ => { φ with stores := 0 }

def Allowed : Phase → List Access → Prop
  | _, [] => True
  | φ, a :: l => φ.Allows a ∧ Allowed (φ.next a) l

/-- The sectors are the same, and what has been stored since a sector was
written, or all of the buffer, is the same but for a rotation. -/
structure Alike (φ : Phase) (e d : Contents) : Prop where
  sectors : e.sectors = d.sectors
  index : e.index = φ.index
  stores : φ.stores ≤ 512
  written : φ.stores < 512 → φ.index = BitVec.ofNat 9 φ.stores
  rotated : ∃ δ, d.index = e.index + δ ∧
    ∀ j : BitVec 9, j.toNat < φ.stores → d.buffer (j + δ) = e.buffer j

section Alike

variable {φ : Phase} {e d : Contents}

theorem Alike.load (h : Alike φ e d) (hstores : φ.stores = 512) :
    (emulatorStep .loadNextByte e).1 = (hardwareStep .loadNextByte d).1 ∧
      Alike (φ.next .loadNextByte) e.advance d.advance := by
  obtain ⟨δ, hindex, hrotated⟩ := h.rotated
  refine ⟨?_, h.sectors, ?_, h.stores, ?_, δ, ?_, hrotated⟩
  · rw [emulatorStep, hardwareStep, hindex, hrotated e.index (by rw [hstores]; exact e.index.isLt)]
  · rw [Contents.advance, Phase.next, h.index]
  · intro hless
    rw [Phase.next, hstores] at hless
    exact absurd hless (Nat.lt_irrefl 512)
  · rw [Contents.advance, Contents.advance, hindex]
    bv_omega

theorem Alike.storeByte (h : Alike φ e d) (v : Word) :
    Alike (φ.next (.storeNextByte v)) (e.store (byte v 0)) (d.store (byte v 0)) := by
  obtain ⟨δ, hindex, hrotated⟩ := h.rotated
  have hstores := h.stores
  refine ⟨h.sectors, ?_, min_le_left _ _, ?_, δ, ?_, ?_⟩
  · rw [Contents.store, Phase.next, h.index]
  · intro hless
    have hwritten := h.written (by
      rw [Phase.next, min_lt_iff] at hless
      omega)
    have hmin : min 512 (φ.stores + 1) = φ.stores + 1 := by
      rw [Phase.next, min_lt_iff] at hless
      omega
    rw [Phase.next, hmin, hwritten, BitVec.ofNat_add]
    rfl
  · rw [Contents.store, Contents.store, hindex]
    bv_omega
  · intro j hj
    change Function.update d.buffer d.index (byte v 0) (j + δ) =
      Function.update e.buffer e.index (byte v 0) j
    rw [hindex]
    by_cases heq : j = e.index
    · rw [heq, Function.update_self, Function.update_self]
    · have hne : j + δ ≠ e.index + δ := fun hcontra ↦ heq (by bv_omega)
      rw [Function.update_of_ne heq, Function.update_of_ne hne]
      apply hrotated
      change j.toNat < min 512 (φ.stores + 1) at hj
      rcases hstores.lt_or_eq with hless | hall
      · have hwritten := h.written hless
        have hj' : j.toNat ≠ φ.stores := by
          intro hcontra
          apply heq
          rw [h.index, hwritten, ← hcontra, BitVec.ofNat_toNat, BitVec.setWidth_eq]
        omega
      · rw [hall]
        exact j.isLt

theorem Alike.readSector (h : Alike φ e d) (hzero : φ.index = 0) (s : Word) :
    Alike (φ.next (.storeReadSector s)) { e with buffer := e.sectors s } (d.read s) := by
  obtain ⟨δ, hindex, -⟩ := h.rotated
  refine ⟨h.sectors, h.index, le_rfl, fun hless ↦ absurd hless (Nat.lt_irrefl 512), δ, hindex, ?_⟩
  intro j _
  change d.sectors s (j + δ - d.index) = e.sectors s j
  rw [hindex, h.index, hzero, h.sectors]
  congr 1
  bv_omega

theorem Alike.writeSector (h : Alike φ e d) (hzero : φ.index = 0) (hstores : φ.stores = 512)
    (s : Word) :
    Alike (φ.next (.storeWriteSector s))
      { e with sectors := Function.update e.sectors s e.buffer } (d.write s) := by
  obtain ⟨δ, hindex, hrotated⟩ := h.rotated
  refine ⟨?_, h.index, Nat.zero_le 512, fun _ ↦ hzero, δ + 1, ?_, fun j hj ↦ absurd hj ?_⟩
  · have hblock : (fun i ↦ d.buffer (d.index + i)) = e.buffer := by
      funext i
      rw [hindex, h.index, hzero, ← hrotated i (by rw [hstores]; exact i.isLt)]
      congr 1
      bv_omega
    change Function.update e.sectors s e.buffer =
      Function.update d.sectors s fun i ↦ d.buffer (d.index + i)
    rw [hblock, h.sectors]
  · change d.index + 1 = e.index + (δ + 1)
    rw [hindex]
    bv_omega
  · exact Nat.not_lt_zero _

theorem Alike.step (h : Alike φ e d) {a : Access} (ha : φ.Allows a) :
    (emulatorStep a e).1 = (hardwareStep a d).1 ∧
      Alike (φ.next a) (emulatorStep a e).2 (hardwareStep a d).2 := by
  cases a with
  | loadNextByte => exact h.load ha
  | storeNextByte v => exact ⟨rfl, h.storeByte v⟩
  | storeReadSector s => exact ⟨rfl, h.readSector ha s⟩
  | storeWriteSector s => exact ⟨rfl, h.writeSector ha.1 ha.2 s⟩

theorem Alike.perform {accesses : List Access} (h : Alike φ e d) (hallowed : Allowed φ accesses) :
    (perform emulatorStep accesses e).1 = (perform hardwareStep accesses d).1 ∧
      (perform emulatorStep accesses e).2.sectors =
        (perform hardwareStep accesses d).2.sectors := by
  induction accesses generalizing φ e d with
  | nil => exact ⟨rfl, h.sectors⟩
  | cons a l ih =>
      obtain ⟨hsame, hnext⟩ := h.step hallowed.1
      obtain ⟨hrest, hsectors⟩ := ih hnext hallowed.2
      refine ⟨?_, hsectors⟩
      rw [Service.perform, Service.perform, hsame, hrest]

end Alike

/-- Starting from equal contents and index 0 the hardware and the emulator
return the same bytes and end with the same sectors if sectors are transferred
at index 0 only and the buffer of a sector that was written is not used again:
a sector is read or 512 bytes are stored first. -/
theorem ports_agree {T : ℕ → SpiCard.Timing} {x : System} {d : Contents}
    (h : Ready ⟨0, 0⟩ x d) (hindex : d.index = 0) (gaps : ℕ → ℕ) (q : Ramio.Parts)
    (s : Ramio.Regs) {count : ℕ} {m : Emulator.Machine} (hm : Holds count m d)
    {accesses : List Access} (hinside : ∀ a ∈ accesses, a.Inside count)
    (hallowed : Allowed ⟨0, 512⟩ accesses) :
    ∃ l y m' n, (∀ fuel ≥ n,
        session (hardware ⟨0, 0⟩ T q s) fuel accesses ⟨x, gaps⟩ = some (l, y) ∧
          session emulator fuel accesses m = some (l, m')) ∧
      ∀ sector : Word, sector.toNat < count → ∀ i : BitVec 9,
        m'.sdcard.image (Emulator.SdCard.offset sector + i.toNat) =
          y.system.engine.card.sectors sector i := by
  have halike : Alike ⟨0, 512⟩ d d :=
    ⟨rfl, hindex, le_rfl, fun hless ↦ absurd hless (Nat.lt_irrefl 512), 0, by simp, by simp⟩
  obtain ⟨hsame, hsectors⟩ := halike.perform hallowed
  obtain ⟨y, n, hhardware, hy⟩ := hardware_session (T := T) (q := q) (s := s)
    (h := ⟨x, gaps⟩) h accesses
  obtain ⟨m', k, hemulator, hm'⟩ := emulator_session hm hinside
  refine ⟨_, y, m', max n k, fun fuel hfuel ↦ ⟨hhardware fuel (le_of_max_le_left hfuel), ?_⟩, ?_⟩
  · rw [← hsame]
    exact hemulator fuel (le_of_max_le_right hfuel)
  · intro sector hsector i
    rw [hm'.sectors sector hsector i, hsectors, hy.sectors]

/-- A sector is read, written to another one and read back. -/
theorem ports_agree_rested :
    ∃ l y m' n, (∀ fuel ≥ n,
        session (hardware ⟨0, 0⟩ prompt ⟨0, false, false, 0, false, 0, false, false, 0⟩
          ⟨0, 0, false, 0, false⟩) fuel
          [.storeReadSector 3, .storeWriteSector 5, .storeReadSector 5, .loadNextByte]
          ⟨rested, fun n ↦ n⟩ = some (l, y) ∧
        session emulator fuel
          [.storeReadSector 3, .storeWriteSector 5, .storeReadSector 5, .loadNextByte]
          restedMachine = some (l, m')) ∧
      ∀ sector : Word, sector.toNat < 16 → ∀ i : BitVec 9,
        m'.sdcard.image (Emulator.SdCard.offset sector + i.toNat) =
          y.system.engine.card.sectors sector i :=
  ports_agree (rested_ready ⟨0, 0⟩) rfl _ _ _ restedMachine_holds
    (by simp [Access.Inside]) (by simp [Allowed, Phase.Allows, Phase.next])

/-- A byte is stored and a sector written: the hardware writes it from the
second byte on. -/
theorem not_ports_agree :
    ¬ ∀ (T : ℕ → SpiCard.Timing) (x : System) (d : Contents), Ready ⟨0, 0⟩ x d → d.index = 0 →
      ∀ (gaps : ℕ → ℕ) (q : Ramio.Parts) (s : Ramio.Regs) (count : ℕ) (m : Emulator.Machine),
        Holds count m d → ∀ accesses : List Access, (∀ a ∈ accesses, a.Inside count) →
          ∃ l y m' n, (∀ fuel ≥ n,
              session (hardware ⟨0, 0⟩ T q s) fuel accesses ⟨x, gaps⟩ = some (l, y) ∧
                session emulator fuel accesses m = some (l, m')) ∧
            ∀ sector : Word, sector.toNat < count → ∀ i : BitVec 9,
              m'.sdcard.image (Emulator.SdCard.offset sector + i.toNat) =
                y.system.engine.card.sectors sector i := by
  intro h
  have hinside : ∀ a ∈ [Access.storeNextByte 1, .storeWriteSector 5], a.Inside 16 := by
    simp [Access.Inside]
  obtain ⟨l, y, m, n, hruns, hsectors⟩ := h prompt rested restedContents (rested_ready ⟨0, 0⟩) rfl
    (fun n ↦ n) ⟨0, false, false, 0, false, 0, false, false, 0⟩ ⟨0, 0, false, 0, false⟩ 16
    restedMachine restedMachine_holds _ hinside
  obtain ⟨y', k, hhardware, hy⟩ := hardware_session (T := prompt)
    (q := ⟨0, false, false, 0, false, 0, false, false, 0⟩) (s := ⟨0, 0, false, 0, false⟩)
    (h := ⟨rested, fun n ↦ n⟩) (rested_ready ⟨0, 0⟩) [.storeNextByte 1, .storeWriteSector 5]
  obtain ⟨m', k', hemulator, hm'⟩ := emulator_session restedMachine_holds hinside
  obtain ⟨hleft, hright⟩ := hruns (max n (max k k')) (le_max_left _ _)
  have hsame : y = y' := by
    have heq := hleft.symm.trans (hhardware _ (le_max_of_le_right (le_max_left _ _)))
    exact (Prod.mk.inj (Option.some.inj heq)).2
  have hsame' : m = m' := by
    have heq := hright.symm.trans (hemulator _ (le_max_of_le_right (le_max_right _ _)))
    exact (Prod.mk.inj (Option.some.inj heq)).2
  have hbyte := hsectors 5 (by decide) 0
  rw [hsame, hsame', hm'.sectors 5 (by decide) 0, hy.sectors] at hbyte
  exact absurd hbyte (by decide)

end TangNano.SdDriver
