import TangNano.Os.World

/-!
# The memory test

`action_mem_test` stores to every byte from the heap to `end` the low byte of its
offset, and then loads them all.  In a memory whose addresses share cells a byte is
what has been stored last to its cell.
-/

namespace TangNano.Os

/-- Loads and stores of bytes. -/
structure Bytewise (σ : Type*) where
  load : Word → σ → Byte
  store : Word → Byte → σ → σ

section Loops

variable {σ : Type*} (P : Bytewise σ) (last : Word)

/-- The loop that stores, for a number of rounds. -/
def memTestWrite : ℕ → Word → Byte → σ → σ
  | 0, _, _, x => x
  | fuel + 1, ptr, ch, x =>
      if ptr < last then memTestWrite fuel (ptr + 1) (ch + 1) (P.store ptr ch x) else x

def memTestReport (ptr : Word) (expected got : Byte) : Text :=
  cstr "at " ++ hexUint32 ptr true ++ cstr " expected " ++ hexByte expected ++ cstr " got " ++
    hexByte got ++ cstr "\r\n"

/-- The loop that loads, with what has been sent and `failed`. -/
def memTestRead (x : σ) : ℕ → Word → Byte → Text × Bool → Text × Bool
  | 0, _, _, r => r
  | fuel + 1, ptr, ch, r =>
      if ptr < last then
        if P.load ptr x ≠ ch then
          memTestRead x fuel (ptr + 1) (ch + 1) (r.1 ++ memTestReport ptr ch (P.load ptr x), true)
        else memTestRead x fuel (ptr + 1) (ch + 1) r
      else r

/-- What `action_mem_test` sends; `last` is `end`. -/
def memTest (heapStart : Word) (x : σ) : Text :=
  let rounds := last.toNat - heapStart.toNat
  let y := memTestWrite P last rounds heapStart 0 x
  let r := memTestRead P last y rounds heapStart 0 ([], false)
  cstr "testing memory (write)\r\n" ++ cstr "testing memory (read)\r\n" ++ r.1 ++
    (if r.2 then cstr "testing memory FAILED\r\n" else cstr "testing memory succeeded\r\n")

end Loops

/-! ## The loops -/

section Rounds

variable {σ : Type*} {P : Bytewise σ} {last : Word}

theorem add_ofNat_succ {w : ℕ} (a : BitVec w) (k : ℕ) :
    a + 1 + BitVec.ofNat w k = a + BitVec.ofNat w (k + 1) := by
  rw [Nat.add_comm k 1, BitVec.ofNat_add, BitVec.add_assoc]
  rfl

theorem lt_of_rounds {ptr : Word} {n : ℕ} (h : ptr.toNat + (n + 1) ≤ last.toNat) :
    ptr < last ∧ (ptr + 1).toNat + n ≤ last.toNat := by
  have hlast := last.isLt
  constructor <;> bv_omega

theorem memTestWrite_succ {n : ℕ} {ptr : Word} (h : ptr.toNat + (n + 1) ≤ last.toNat) (ch : Byte)
    (x : σ) :
    memTestWrite P last (n + 1) ptr ch x =
      P.store (ptr + BitVec.ofNat 32 n) (ch + BitVec.ofNat 8 n)
        (memTestWrite P last n ptr ch x) := by
  induction n generalizing ptr ch x with
  | zero =>
      rw [memTestWrite, memTestWrite, if_pos (lt_of_rounds h).1, memTestWrite, BitVec.add_zero,
        BitVec.add_zero]
  | succ n ih =>
      obtain ⟨hlt, hrest⟩ := lt_of_rounds h
      rw [memTestWrite, if_pos hlt, ih hrest, add_ofNat_succ, add_ofNat_succ]
      conv_rhs => rw [memTestWrite, if_pos hlt]

/-- The byte at an offset is not the one that was stored there. -/
def Differs (P : Bytewise σ) (x : σ) (ptr : Word) (ch : Byte) (k : ℕ) : Prop :=
  P.load (ptr + BitVec.ofNat 32 k) x ≠ ch + BitVec.ofNat 8 k

instance (P : Bytewise σ) (x : σ) (ptr : Word) (ch : Byte) (k : ℕ) :
    Decidable (Differs P x ptr ch k) := inferInstanceAs (Decidable (_ ≠ _))

def reportAt (P : Bytewise σ) (x : σ) (ptr : Word) (ch : Byte) (k : ℕ) : Text :=
  if Differs P x ptr ch k then
    memTestReport (ptr + BitVec.ofNat 32 k) (ch + BitVec.ofNat 8 k)
      (P.load (ptr + BitVec.ofNat 32 k) x)
  else []

theorem differs_zero (x : σ) (ptr : Word) (ch : Byte) :
    Differs P x ptr ch 0 ↔ P.load ptr x ≠ ch := by
  rw [Differs, BitVec.add_zero, BitVec.add_zero]

theorem reportAt_zero (x : σ) (ptr : Word) (ch : Byte) :
    reportAt P x ptr ch 0 =
      if P.load ptr x ≠ ch then memTestReport ptr ch (P.load ptr x) else [] := by
  simp only [reportAt, differs_zero, BitVec.add_zero]

theorem differs_succ (x : σ) (ptr : Word) (ch : Byte) (k : ℕ) :
    Differs P x (ptr + 1) (ch + 1) k ↔ Differs P x ptr ch (k + 1) := by
  rw [Differs, Differs, add_ofNat_succ, add_ofNat_succ]

theorem reportAt_succ (x : σ) (ptr : Word) (ch : Byte) (k : ℕ) :
    reportAt P x (ptr + 1) (ch + 1) k = reportAt P x ptr ch (k + 1) := by
  simp only [reportAt, differs_succ, add_ofNat_succ]

theorem memTestRead_eq {n : ℕ} {ptr : Word} (h : ptr.toNat + n ≤ last.toNat) (ch : Byte) (x : σ)
    (r : Text × Bool) :
    memTestRead P last x n ptr ch r =
      (r.1 ++ (List.range n).flatMap (reportAt P x ptr ch),
        r.2 || (List.range n).any fun k ↦ decide (Differs P x ptr ch k)) := by
  induction n generalizing ptr ch r with
  | zero => simp [memTestRead]
  | succ n ih =>
      obtain ⟨hlt, hrest⟩ := lt_of_rounds h
      have hlater := ih hrest (ch + 1)
      simp only [funext (reportAt_succ x ptr ch), differs_succ] at hlater
      rw [memTestRead, if_pos hlt, List.range_succ_eq_map, List.flatMap_cons, List.any_cons,
        List.flatMap_map, List.any_map]
      by_cases hsame : P.load ptr x = ch
      · rw [if_neg (not_not.mpr hsame), hlater, reportAt_zero, if_neg (not_not.mpr hsame),
          List.nil_append, decide_eq_false (mt (differs_zero x ptr ch).mp (not_not.mpr hsame)),
          Bool.false_or]
        rfl
      · rw [if_pos hsame, hlater, reportAt_zero, if_pos hsame, List.append_assoc,
          decide_eq_true ((differs_zero x ptr ch).mpr hsame), Bool.true_or, Bool.true_or,
          Bool.or_true]

end Rounds

/-! ## A memory whose addresses share cells -/

section Wired

variable {ι : Type*} [DecidableEq ι]

def wired (select : Word → ι) : Bytewise (ι → Byte) where
  load ptr mem := mem (select ptr)
  store ptr ch mem := Function.update mem (select ptr) ch

/-- The last offset below `n` that shares the cell of `k`. -/
def lastSharing (select : Word → ι) (heapStart : Word) (n k : ℕ) : ℕ :=
  Nat.findGreatest (fun j ↦ select (heapStart + BitVec.ofNat 32 j) =
    select (heapStart + BitVec.ofNat 32 k)) (n - 1)

variable {select : Word → ι} {heapStart last : Word}

/-- A cell holds what has been stored to it last. -/
theorem memTestWrite_wired {n : ℕ} (h : heapStart.toNat + n ≤ last.toNat) (mem : ι → Byte) {k : ℕ}
    (hk : k < n) :
    memTestWrite (wired select) last n heapStart 0 mem (select (heapStart + BitVec.ofNat 32 k)) =
      BitVec.ofNat 8 (lastSharing select heapStart n k) := by
  induction n with
  | zero => exact absurd hk (Nat.not_lt_zero k)
  | succ n ih =>
      have hch : (0 : Byte) + BitVec.ofNat 8 n = BitVec.ofNat 8 n := BitVec.zero_add _
      rw [memTestWrite_succ h, hch]
      change Function.update (memTestWrite (wired select) last n heapStart 0 mem)
        (select (heapStart + BitVec.ofNat 32 n)) (BitVec.ofNat 8 n) _ = _
      by_cases hshared : select (heapStart + BitVec.ofNat 32 n) =
          select (heapStart + BitVec.ofNat 32 k)
      · have hlast : lastSharing select heapStart (n + 1) k = n := by
          rw [lastSharing, Nat.add_sub_cancel, Nat.findGreatest_eq_iff]
          exact ⟨le_rfl, fun _ ↦ hshared, fun j hj hle ↦ absurd hle (Nat.not_le.mpr hj)⟩
        rw [hlast, ← hshared, Function.update_self]
      · have hne : k ≠ n := fun heq ↦ hshared (by rw [heq])
        have hlast : lastSharing select heapStart (n + 1) k = lastSharing select heapStart n k := by
          obtain ⟨m, rfl⟩ := Nat.exists_eq_succ_of_ne_zero (show n ≠ 0 by omega)
          rw [lastSharing, Nat.add_sub_cancel, Nat.findGreatest_succ, if_neg hshared]
          rfl
        rw [hlast, Function.update_of_ne (Ne.symm hshared)]
        exact ih (by omega) (by omega)

theorem lastSharing_shared {n k : ℕ} (hk : k < n) :
    lastSharing select heapStart n k < n ∧
      select (heapStart + BitVec.ofNat 32 (lastSharing select heapStart n k)) =
        select (heapStart + BitVec.ofNat 32 k) := by
  have hle : lastSharing select heapStart n k ≤ n - 1 := Nat.findGreatest_le (n - 1)
  exact ⟨by omega, Nat.findGreatest_spec (P := fun j ↦ select (heapStart + BitVec.ofNat 32 j) =
    select (heapStart + BitVec.ofNat 32 k)) (show k ≤ n - 1 by omega) rfl⟩

theorem ofNat_eq_iff_setWidth {m k : ℕ} :
    BitVec.ofNat 8 m = BitVec.ofNat 8 k ↔
      (heapStart + BitVec.ofNat 32 m).setWidth 8 = (heapStart + BitVec.ofNat 32 k).setWidth 8 := by
  rw [BitVec.setWidth_add _ _ (by decide), BitVec.setWidth_add _ _ (by decide),
    BitVec.add_right_inj, BitVec.setWidth_ofNat_of_le (by decide),
    BitVec.setWidth_ofNat_of_le (by decide)]

theorem lastSharing_alike {n : ℕ} :
    (∀ k < n, BitVec.ofNat 8 (lastSharing select heapStart n k) = BitVec.ofNat 8 k) ↔
      ∀ j < n, ∀ k < n, select (heapStart + BitVec.ofNat 32 j) =
        select (heapStart + BitVec.ofNat 32 k) → BitVec.ofNat 8 j = BitVec.ofNat 8 k := by
  constructor
  · intro halike j hj k hk hshared
    have hsame : lastSharing select heapStart n j = lastSharing select heapStart n k := by
      rw [lastSharing, lastSharing, hshared]
    rw [← halike j hj, ← halike k hk, hsame]
  · intro halike k hk
    have hlast : lastSharing select heapStart n k < n ∧ _ := lastSharing_shared hk
    exact halike _ hlast.1 k hk hlast.2

omit [DecidableEq ι] in
theorem alike_iff_low_bytes {n : ℕ} (hn : last.toNat - heapStart.toNat = n) :
    (∀ j < n, ∀ k < n, select (heapStart + BitVec.ofNat 32 j) =
        select (heapStart + BitVec.ofNat 32 k) → BitVec.ofNat 8 j = BitVec.ofNat 8 k) ↔
      ∀ a b : Word, heapStart ≤ a → a < last → heapStart ≤ b → b < last →
        select a = select b → a.setWidth 8 = b.setWidth 8 := by
  constructor
  · intro halike a b ha halast hb hblast hshared
    have hoffset (c : Word) (hc : heapStart ≤ c) (hlast : c < last) :
        ∃ k < n, heapStart + BitVec.ofNat 32 k = c := by
      refine ⟨c.toNat - heapStart.toNat, by bv_omega, ?_⟩
      bv_omega
    obtain ⟨j, hj, rfl⟩ := hoffset a ha halast
    obtain ⟨k, hk, rfl⟩ := hoffset b hb hblast
    exact ofNat_eq_iff_setWidth.mp (halike j hj k hk hshared)
  · intro halike j hj k hk hshared
    have hlast := last.isLt
    have hinside (l : ℕ) (hl : l < n) : heapStart ≤ heapStart + BitVec.ofNat 32 l ∧
        heapStart + BitVec.ofNat 32 l < last := by
      constructor <;> bv_omega
    exact ofNat_eq_iff_setWidth.mpr (halike _ _ (hinside j hj).1 (hinside j hj).2 (hinside k hk).1
      (hinside k hk).2 hshared)

section Loaded

variable {n : ℕ} (h : heapStart.toNat + n ≤ last.toNat) (mem : ι → Byte)
include h

theorem differs_wired {k : ℕ} (hk : k < n) :
    Differs (wired select) (memTestWrite (wired select) last n heapStart 0 mem) heapStart 0 k ↔
      BitVec.ofNat 8 (lastSharing select heapStart n k) ≠ BitVec.ofNat 8 k := by
  have hch : (0 : Byte) + BitVec.ofNat 8 k = BitVec.ofNat 8 k := BitVec.zero_add _
  have hload : (wired select).load (heapStart + BitVec.ofNat 32 k)
      (memTestWrite (wired select) last n heapStart 0 mem) = _ := memTestWrite_wired h mem hk
  rw [Differs, hload, hch]

theorem reportAt_wired {k : ℕ} (hk : k < n) :
    reportAt (wired select) (memTestWrite (wired select) last n heapStart 0 mem) heapStart 0 k =
      if BitVec.ofNat 8 (lastSharing select heapStart n k) ≠ BitVec.ofNat 8 k then
        memTestReport (heapStart + BitVec.ofNat 32 k) (BitVec.ofNat 8 k)
          (BitVec.ofNat 8 (lastSharing select heapStart n k))
      else [] := by
  have hch : (0 : Byte) + BitVec.ofNat 8 k = BitVec.ofNat 8 k := BitVec.zero_add _
  have hload : (wired select).load (heapStart + BitVec.ofNat 32 k)
      (memTestWrite (wired select) last n heapStart 0 mem) = _ := memTestWrite_wired h mem hk
  simp only [reportAt, differs_wired h mem hk, hload, hch]

theorem failed_wired :
    ((List.range n).any fun k ↦ decide (Differs (wired select)
        (memTestWrite (wired select) last n heapStart 0 mem) heapStart 0 k)) = true ↔
      ¬ ∀ k < n, BitVec.ofNat 8 (lastSharing select heapStart n k) = BitVec.ofNat 8 k := by
  rw [List.any_eq_true]
  push Not
  constructor
  · rintro ⟨k, hk, hdiffers⟩
    have hlt := List.mem_range.mp hk
    exact ⟨k, hlt, (differs_wired h mem hlt).mp (of_decide_eq_true hdiffers)⟩
  · rintro ⟨k, hk, hdiffers⟩
    exact ⟨k, List.mem_range.mpr hk, decide_eq_true ((differs_wired h mem hk).mpr hdiffers)⟩

end Loaded

/-- The whole text.  Each byte that another one of its cell has replaced by a different
value is reported, and there is none exactly if addresses that share a cell agree in
their low bytes: it does not matter how the cell depends on the other 24 lines. -/
theorem memTest_wired (select : Word → ι) (heapStart last : Word) (mem : ι → Byte) :
    let n := last.toNat - heapStart.toNat
    let got := fun k ↦ BitVec.ofNat 8 (lastSharing select heapStart n k)
    memTest (wired select) last heapStart mem =
        cstr "testing memory (write)\r\n" ++ cstr "testing memory (read)\r\n" ++
          ((List.range n).flatMap fun k ↦ if got k ≠ BitVec.ofNat 8 k then
            memTestReport (heapStart + BitVec.ofNat 32 k) (BitVec.ofNat 8 k) (got k) else []) ++
          (if ∀ k < n, got k = BitVec.ofNat 8 k then cstr "testing memory succeeded\r\n"
            else cstr "testing memory FAILED\r\n") ∧
      ((∀ k < n, got k = BitVec.ofNat 8 k) ↔
        ∀ a b : Word, heapStart ≤ a → a < last → heapStart ≤ b → b < last →
          select a = select b → a.setWidth 8 = b.setWidth 8) := by
  dsimp only
  generalize hn : last.toNat - heapStart.toNat = n
  refine ⟨?_, lastSharing_alike.trans (alike_iff_low_bytes hn)⟩
  unfold memTest
  dsimp only
  rw [hn]
  rcases Nat.eq_zero_or_pos n with rfl | hpos
  · rfl
  · have hfits : heapStart.toNat + n ≤ last.toNat := by omega
    rw [memTestRead_eq hfits, List.nil_append, Bool.false_or]
    congr 1
    · congr 1
      exact List.flatMap_congr fun k hk ↦ reportAt_wired hfits mem (List.mem_range.mp hk)
    · by_cases hall : ∀ k < n, BitVec.ofNat 8 (lastSharing select heapStart n k) = BitVec.ofNat 8 k
      · rw [if_pos hall, if_neg fun hfailed ↦ (failed_wired hfits mem).mp hfailed hall]
      · rw [if_neg hall, if_pos ((failed_wired hfits mem).mpr hall)]

example : memTest (wired fun a ↦ a.getLsbD 0) 0x10003 0x10000 (fun _ ↦ 0) =
    cstr "testing memory (write)\r\n" ++ cstr "testing memory (read)\r\n" ++
      cstr "at 0001:0000 expected 00 got 02\r\n" ++ cstr "testing memory FAILED\r\n" := by
  decide

end Wired

end TangNano.Os
