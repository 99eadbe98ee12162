import TangNano.Library.Service
import TangNano.SdCard.ReadTransfer

/-!
# The drivers of the SD card

`sdcard_read_blocking` and `sdcard_write_blocking` of `os.cpp` on whatever is
behind the ports: a device with a buffer and an index that transfers a sector
to or from the buffer from the index on.
-/

namespace TangNano.SdDriver

open Bytes SdCardPort SdSystem Service

def sdcardBusy : Word := 0xfffffff0

def sdcardReadSector : Word := 0xffffffec

def sdcardNextByte : Word := 0xffffffe8

def sdcardStatus : Word := 0xffffffe4

def sdcardWriteSector : Word := 0xffffffe0

/-- Loads and stores of words; `none` when an access fails. -/
structure Ports (σ : Type*) where
  load : Word → σ → Option (Word × σ)
  store : Word → Word → σ → Option σ

section Drivers

variable {σ : Type*} (P : Ports σ)

/-- The loop that waits for the card, for a number of rounds. -/
def waitWhileBusy : ℕ → σ → Option σ
  | 0, _ => none
  | fuel + 1, x => do
      let (busy, y) ← P.load sdcardBusy x
      if busy = 0 then some y else waitWhileBusy fuel y

/-- The first `n` rounds of the loop that loads the bytes of a sector. -/
def loadBytes (buffer : Sector) : ℕ → σ → Option (Sector × σ)
  | 0, x => some (buffer, x)
  | n + 1, x => do
      let (buffer, y) ← loadBytes buffer n x
      let (v, z) ← P.load sdcardNextByte y
      some (Function.update buffer (BitVec.ofNat 9 n) (byte v 0), z)

/-- The first `n` rounds of the loop that stores the bytes of a sector; `char` has no sign. -/
def storeBytes (buffer : Sector) : ℕ → σ → Option σ
  | 0, x => some x
  | n + 1, x => do
      let y ← storeBytes buffer n x
      P.store sdcardNextByte ((buffer (BitVec.ofNat 9 n)).setWidth 32) y

def sdcardReadBlocking (fuel : ℕ) (sector : Word) (buffer : Sector) (x : σ) :
    Option (Sector × σ) := do
  let x ← waitWhileBusy P fuel x
  let x ← P.store sdcardReadSector sector x
  let x ← waitWhileBusy P fuel x
  loadBytes P buffer 512 x

def sdcardWriteBlocking (fuel : ℕ) (sector : Word) (buffer : Sector) (x : σ) : Option σ := do
  let x ← waitWhileBusy P fuel x
  let x ← storeBytes P buffer 512 x
  let x ← P.store sdcardWriteSector sector x
  waitWhileBusy P fuel x

def driver (fuel : ℕ) : Call Word Sector → σ → Option (Option Sector × σ)
  | .read sector old, x => do
      let (buffer, y) ← sdcardReadBlocking P fuel sector old x
      some (some buffer, y)
  | .write sector buffer, x => do
      let y ← sdcardWriteBlocking P fuel sector buffer x
      some (none, y)

end Drivers

/-! ## Devices -/

/-- What the drivers need of a device that holds some contents: sectors are
transferred to and from the buffer beginning at the index, if the index is one
at which a transfer may begin. -/
structure Conforms {σ : Type*} (P : Ports σ) (R : σ → Contents → Prop)
    (start : BitVec 9 → Prop) (valid : Word → Prop) : Prop where
  wait : ∀ x d, R x d → ∃ y, (∀ fuel > 0, waitWhileBusy P fuel x = some y) ∧ R y d
  load : ∀ x d, R x d → ∃ v y, P.load sdcardNextByte x = some (v, y) ∧
    byte v 0 = d.buffer d.index ∧ R y d.advance
  store : ∀ x d v, R x d → ∃ y, P.store sdcardNextByte v x = some y ∧ R y (d.store (byte v 0))
  read : ∀ x d s, R x d → start d.index → valid s → ∃ y z n d',
    P.store sdcardReadSector s x = some y ∧ (∀ fuel ≥ n, waitWhileBusy P fuel y = some z) ∧
      R z d' ∧ (∀ i, d'.buffer (d'.index + i) = d.sectors s i) ∧ d'.sectors = d.sectors ∧
      start d'.index
  write : ∀ x d s, R x d → start d.index → valid s → ∃ y z n d',
    P.store sdcardWriteSector s x = some y ∧ (∀ fuel ≥ n, waitWhileBusy P fuel y = some z) ∧
      R z d' ∧ d'.sectors = Function.update d.sectors s (fun i ↦ d.buffer (d.index + i)) ∧
      start d'.index

section Conforming

variable {σ : Type*} {P : Ports σ} {R : σ → Contents → Prop} {start : BitVec 9 → Prop}
  {valid : Word → Prop} {x : σ} {d : Contents}

theorem Conforms.loadBytes (hP : Conforms P R start valid) (h : R x d) (buffer : Sector) {n : ℕ}
    (hn : n ≤ 512) :
    ∃ buffer' y, SdDriver.loadBytes P buffer n x = some (buffer', y) ∧
      (∀ i : BitVec 9, i.toNat < n → buffer' i = d.buffer (d.index + i)) ∧
      R y { d with index := d.index + BitVec.ofNat 9 n } := by
  induction n with
  | zero =>
      refine ⟨buffer, x, rfl, fun i hi ↦ absurd hi (Nat.not_lt_zero _), ?_⟩
      rw [BitVec.add_zero]
      exact h
  | succ n ih =>
      obtain ⟨buffer', y, hfirst, hbuffer, hy⟩ := ih (by omega)
      obtain ⟨v, z, hload, hv, hz⟩ := hP.load _ _ hy
      refine ⟨Function.update buffer' (BitVec.ofNat 9 n) (byte v 0), z, ?_, ?_, ?_⟩
      · rw [SdDriver.loadBytes, hfirst]
        change (P.load sdcardNextByte y).bind _ = _
        rw [hload]
        rfl
      · intro i hi
        by_cases heq : i = BitVec.ofNat 9 n
        · rw [heq, Function.update_self, hv]
        · have hless : i.toNat < n := by
            have hne : i.toNat ≠ n := by
              intro hcontra
              apply heq
              rw [← hcontra, BitVec.ofNat_toNat, BitVec.setWidth_eq]
            omega
          rw [Function.update_of_ne heq, hbuffer i hless]
      · have hindex : d.index + BitVec.ofNat 9 n + 1 = d.index + BitVec.ofNat 9 (n + 1) := by
          rw [BitVec.ofNat_add]
          bv_omega
        rw [Contents.advance, hindex] at hz
        exact hz

theorem Conforms.storeBytes (hP : Conforms P R start valid) (h : R x d) (buffer : Sector) (n : ℕ) :
    ∃ y, SdDriver.storeBytes P buffer n x = some y ∧
      R y { d with
        buffer := fill d.buffer d.index buffer n
        index := d.index + BitVec.ofNat 9 n } := by
  induction n with
  | zero =>
      refine ⟨x, rfl, ?_⟩
      rw [BitVec.add_zero]
      exact h
  | succ n ih =>
      obtain ⟨y, hfirst, hy⟩ := ih
      obtain ⟨z, hstore, hz⟩ := hP.store _ _ ((buffer (BitVec.ofNat 9 n)).setWidth 32) hy
      have hbyte : byte ((buffer (BitVec.ofNat 9 n)).setWidth 32) 0 =
          buffer (BitVec.ofNat 9 n) := byte_setWidth _
      have hindex : d.index + BitVec.ofNat 9 n + 1 = d.index + BitVec.ofNat 9 (n + 1) := by
        rw [BitVec.ofNat_add]
        bv_omega
      refine ⟨z, ?_, ?_⟩
      · rw [SdDriver.storeBytes, hfirst]
        exact hstore
      · rw [Contents.store, hbyte, hindex] at hz
        exact hz

theorem Conforms.sdcardReadBlocking (hP : Conforms P R start valid) (h : R x d)
    (hstart : start d.index) {s : Word} (hs : valid s) (buffer : Sector) :
    ∃ y n d', (∀ fuel ≥ n, SdDriver.sdcardReadBlocking P fuel s buffer x =
        some (d.sectors s, y)) ∧
      R y d' ∧ d'.sectors = d.sectors ∧ start d'.index := by
  obtain ⟨x₁, hwait, hx₁⟩ := hP.wait x d h
  obtain ⟨x₂, x₃, n, d', hread, hwait', hx₃, hbuffer, hsectors, hstart'⟩ :=
    hP.read x₁ d s hx₁ hstart hs
  obtain ⟨buffer', y, hload, hloaded, hy⟩ := hP.loadBytes hx₃ buffer le_rfl
  have hresult : buffer' = d.sectors s := by
    funext i
    rw [hloaded i i.isLt, hbuffer]
  have hindex : d'.index + BitVec.ofNat 9 512 = d'.index := by
    change d'.index + 0#9 = d'.index
    rw [BitVec.add_zero]
  rw [hindex] at hy
  refine ⟨y, n + 1, d', ?_, hy, hsectors, hstart'⟩
  intro fuel hfuel
  have hpos : fuel > 0 := by omega
  have hge : fuel ≥ n := by omega
  simp only [SdDriver.sdcardReadBlocking, hwait fuel hpos, hread, hwait' fuel hge, hload, hresult,
    Option.bind_eq_bind, Option.bind_some]

theorem Conforms.sdcardWriteBlocking (hP : Conforms P R start valid) (h : R x d)
    (hstart : start d.index) {s : Word} (hs : valid s) (buffer : Sector) :
    ∃ y n d', (∀ fuel ≥ n, SdDriver.sdcardWriteBlocking P fuel s buffer x = some y) ∧
      R y d' ∧ d'.sectors = Function.update d.sectors s buffer ∧ start d'.index := by
  obtain ⟨x₁, hwait, hx₁⟩ := hP.wait x d h
  obtain ⟨x₂, hstore, hx₂⟩ := hP.storeBytes hx₁ buffer 512
  have hindex : d.index + BitVec.ofNat 9 512 = d.index := by
    change d.index + 0#9 = d.index
    rw [BitVec.add_zero]
  rw [hindex] at hx₂
  obtain ⟨x₃, y, n, d', hwrite, hwait', hy, hsectors, hstart'⟩ := hP.write x₂ _ s hx₂ hstart hs
  have hblock : (fun i ↦ fill d.buffer d.index buffer 512 (d.index + i)) = buffer := by
    funext i
    rw [fill_sector, BitVec.add_comm]
    exact congrArg buffer (BitVec.add_sub_cancel i d.index)
  refine ⟨y, n + 1, d', ?_, hy, ?_, hstart'⟩
  · intro fuel hfuel
    have hpos : fuel > 0 := by omega
    have hge : fuel ≥ n := by omega
    simp only [SdDriver.sdcardWriteBlocking, hwait fuel hpos, hstore, hwrite, hwait' fuel hge,
      Option.bind_eq_bind, Option.bind_some]
  · rw [hsectors]
    dsimp only
    rw [hblock]

theorem Conforms.call (hP : Conforms P R start valid) (h : R x d) (hstart : start d.index)
    (c : Call Word Sector) (hc : valid c.block) :
    ∃ y n, (∀ fuel ≥ n, driver P fuel c x = some ((Service.store c d.sectors).1, y)) ∧
      ∃ d', R y d' ∧ d'.sectors = (Service.store c d.sectors).2 ∧ start d'.index := by
  cases c with
  | read s old =>
      obtain ⟨y, n, d', hread, hy, hsectors, hd'⟩ := hP.sdcardReadBlocking h hstart hc old
      refine ⟨y, n, ?_, d', hy, hsectors, hd'⟩
      intro fuel hfuel
      have hcall : SdDriver.sdcardReadBlocking P fuel s old x = some (d.sectors s, y) :=
        hread fuel hfuel
      simp only [driver, hcall, Service.store, Option.bind_eq_bind, Option.bind_some]
  | write s buffer =>
      obtain ⟨y, n, d', hwrite, hy, hsectors, hd'⟩ := hP.sdcardWriteBlocking h hstart hc buffer
      refine ⟨y, n, ?_, d', hy, hsectors, hd'⟩
      intro fuel hfuel
      have hcall : SdDriver.sdcardWriteBlocking P fuel s buffer x = some y := hwrite fuel hfuel
      simp only [driver, hcall, Service.store, Option.bind_eq_bind, Option.bind_some]

/-- The drivers make a store of the sectors. -/
theorem Conforms.serve (hP : Conforms P R start valid) (h : R x d) (hstart : start d.index)
    (calls : List (Call Word Sector)) (hcalls : ∀ c ∈ calls, valid c.block) :
    ∃ y n, (∀ fuel ≥ n, Service.serve (driver P fuel) calls x =
        some ((perform Service.store calls d.sectors).1, y)) ∧
      ∃ d', R y d' ∧ d'.sectors = (perform Service.store calls d.sectors).2 := by
  have hrefines := serve_refines (f := Service.store) (g := driver P)
    (R := fun x s ↦ ∃ d, R x d ∧ d.sectors = s ∧ start d.index) (V := fun c ↦ valid c.block) ?_
    hcalls (x := x) ⟨d, h, rfl, hstart⟩
  · obtain ⟨y, n, hserve, d', hy, hsectors, -⟩ := hrefines
    exact ⟨y, n, hserve, d', hy, hsectors⟩
  · rintro c x _ hvalid ⟨d, hx, rfl, hd⟩
    exact hP.call hx hd c hvalid

end Conforming

end TangNano.SdDriver
