import TangNano.Core.Boot

/-!
# The words that the boot loader writes

Whatever `ramio` is busy with, the writes it accepts are the words of the flash
in order.  Every cycle in which `ramio` is not busy brings the end nearer.
-/

namespace TangNano.Boot

section Measure

variable (p : Core.Params)

/-- How many words are transferred. -/
def wordCount : ℕ := (p.flashTransferByteCount.toNat + 3) / 4

/-- A bound of the counter that no transfer reaches. -/
def counterEnd : ℕ := 64 * wordCount p + 2

/-- A bound of the cycles to come in which `ramio` is not busy. -/
def remaining (s : Core.Regs) : ℕ :=
  match s.state with
  | .bootInit =>
      3 * counterEnd p + 67 + (p.startupWaitCycles.toNat - s.flashCounter.toNat)
  | .bootLoadCommandToSend => 3 * counterEnd p + 66
  | .bootSend =>
      (if s.returnState = .bootLoadAddressToSend then 3 * counterEnd p + 49
        else 3 * counterEnd p) +
        2 * s.flashNumBitsToSend.toNat + s.flashCounter.toNat
  | .bootLoadAddressToSend => 3 * counterEnd p + 49
  | .bootReadData => 3 * (counterEnd p - s.flashCounter.toNat)
  | .bootStartWrite => 3 * (counterEnd p - s.flashCounter.toNat) + 2
  | .bootWrite => 3 * (counterEnd p - s.flashCounter.toNat) + 1
  | _ => 0

end Measure

section Progress

variable {p : Core.Params} {memory : BitVec 24 → Byte} {i : Core.Input} {x : State} {k : ℕ}

theorem core_step (hrst : i.rstN = true) : (step p memory i x).core =
    { Core.fsm p (coreInput i x) x.core with
      data := Registers.step (Core.rd x.core.ir) x.core.rdWriteEnable x.core.rdDataIn
        x.core.data } :=
  congrArg State.core (step_eq hrst rfl)

theorem remaining_data (s : Core.Regs) (d : RegisterFile) :
    remaining p { s with data := d } = remaining p s := rfl

theorem counter_lt {m : ℕ} (hle : m ≤ 32 * k + 32)
    (hk : 4 * k < p.flashTransferByteCount.toNat) : 2 * m + 1 < counterEnd p := by
  unfold counterEnd wordCount
  omega

/-- No cycle moves away from the end and one in which `ramio` is not busy moves
towards it. -/
theorem Stage.remaining (h : Stage p memory x k) (hrst : i.rstN = true)
    (hk : 4 * k < p.flashTransferByteCount.toNat)
    (hcount : p.flashTransferByteCount.toNat ≤ 2 ^ 24) :
    Boot.remaining p (Boot.step p memory i x).core < Boot.remaining p x.core ∨
      i.ramioBusy = true ∧
        Boot.remaining p (Boot.step p memory i x).core = Boot.remaining p x.core := by
  rw [core_step hrst, remaining_data]
  cases h with
  | init hzero hquiet hstate hcsN hflash hclk =>
      left
      simp only [Core.fsm, hstate, Core.bootInit]
      split
      · simp only [Boot.remaining, hstate]
        omega
      · next hwait =>
          simp only [Boot.remaining, hstate]
          bv_omega
  | loadCommand hzero hquiet hstate hflash hclk hcounter =>
      left
      simp [Core.fsm, hstate, Core.bootLoadCommandToSend, Boot.remaining, hcounter]
  | sendHigh n r last hzero hasked hstate hcounter hnum hpos hlast hle hloaded hreturns =>
      left
      simp only [Core.fsm, hstate, Core.bootSend, hcounter, if_true, Boot.remaining]
      bv_omega
  | sendLow n r last hzero hasked hstate hcounter hnum hlast hle hclk hmosi hloaded hreturns =>
      left
      have hne : ¬ x.core.flashCounter = 0 := by
        rw [hcounter]
        decide
      simp only [Core.fsm, hstate, Core.bootSend, if_neg hne]
      split
      · rcases hreturns with ⟨-, hreturn⟩ | ⟨-, hreturn, -⟩
        · simp only [Boot.remaining, hstate, hreturn, hcounter, if_true]
          bv_omega
        · simp only [Boot.remaining, hstate, hreturn, hcounter, reduceCtorEq, if_false]
          bv_omega
      · simp only [Boot.remaining, hstate, hcounter]
        bv_omega
  | loadAddress hzero hasked hstate hcounter =>
      left
      simp [Core.fsm, hstate, Core.bootLoadAddressToSend, Boot.remaining, hcounter]
  | high m hhigh hstate hstored hfrom hle =>
      left
      have hlt := counter_lt hle hk
      have hcounter := hhigh.counter
      simp only [Core.fsm, hstate, Core.bootReadData]
      rw [if_pos (getLsbD_zero_of_even hhigh.counter)]
      split
      · split
        · simp only [Boot.remaining, hstate]
          bv_omega
        · simp only [Boot.remaining, hstate]
          bv_omega
      · simp only [Boot.remaining, hstate]
        bv_omega
  | low m hlow hstate hstored hfrom hlt =>
      left
      have hend := counter_lt hlt.le hk
      have hcounter := hlow.counter
      simp only [Core.fsm, hstate, Core.bootReadData]
      rw [if_neg (by rw [getLsbD_zero_of_odd hlow.counter]; decide)]
      simp only [Boot.remaining, hstate]
      bv_omega
  | startWrite hlow hstate hstored =>
      cases hbusy : i.ramioBusy with
      | true =>
          right
          simp [Core.fsm, hstate, Core.bootStartWrite, coreInput, hbusy]
      | false =>
          left
          simp [Core.fsm, hstate, Core.bootStartWrite, coreInput, hbusy, Boot.remaining]
  | write hlow hstate henable hwrite hnext =>
      cases hbusy : i.ramioBusy with
      | true =>
          right
          simp [Core.fsm, hstate, Core.bootWrite, coreInput, hbusy]
      | false =>
          left
          simp only [Core.fsm, hstate, Core.bootWrite, coreInput, hbusy,
            Bool.false_eq_true, if_false]
          split
          · simp [Boot.remaining, hstate]
          · simp [Boot.remaining, hstate]

theorem Stage.booting (h : Stage p memory x k) : x.core.state ≠ .cpuFetch := by
  intro hfetch
  cases h with
  | init _ _ hstate => exact absurd (hfetch.symm.trans hstate) (by decide)
  | loadCommand _ _ hstate => exact absurd (hfetch.symm.trans hstate) (by decide)
  | sendHigh _ _ _ _ _ hstate => exact absurd (hfetch.symm.trans hstate) (by decide)
  | sendLow _ _ _ _ _ hstate => exact absurd (hfetch.symm.trans hstate) (by decide)
  | loadAddress _ _ hstate => exact absurd (hfetch.symm.trans hstate) (by decide)
  | high _ _ hstate => exact absurd (hfetch.symm.trans hstate) (by decide)
  | low _ _ hstate => exact absurd (hfetch.symm.trans hstate) (by decide)
  | startWrite _ hstate => exact absurd (hfetch.symm.trans hstate) (by decide)
  | write _ hstate => exact absurd (hfetch.symm.trans hstate) (by decide)

end Progress

/-! ## Runs -/

section Runs

variable (p : Core.Params) (memory : BitVec 24 → Byte)

/-- The core and the flash after `n` cycles. -/
def run (start : State) (input : ℕ → Core.Input) (n : ℕ) : State :=
  Clocked.state (step p memory) start input n

/-- The writes accepted in the first `n` cycles. -/
def written (start : State) (input : ℕ → Core.Input) : ℕ → List Write
  | 0 => []
  | n + 1 =>
      if accepts (input n) (run p memory start input n) then
        written start input n ++ [write (run p memory start input n)]
      else written start input n

/-- The first `k` words. -/
def words (k : ℕ) : List Write := (List.range k).map (wordWrite p memory)

/-- Where a run is after `n` cycles. -/
def Transferring (start : State) (input : ℕ → Core.Input) (n : ℕ) : Prop :=
  ∃ k, 4 * k < p.flashTransferByteCount.toNat ∧ Stage p memory (run p memory start input n) k ∧
    written p memory start input n = words p memory k

/-- The transfer ended in cycle `n`. -/
def Transferred (start : State) (input : ℕ → Core.Input) (n : ℕ) : Prop :=
  Booted (run p memory start input n) ∧
    written p memory start input n = words p memory (wordCount p)

variable {p memory} {start : State} {input : ℕ → Core.Input}

theorem words_succ (k : ℕ) :
    words p memory k ++ [wordWrite p memory k] = words p memory (k + 1) := by
  rw [words, words, List.range_succ, List.map_append, List.map_singleton]

theorem words_prefix {k l : ℕ} (h : k ≤ l) : words p memory k <+: words p memory l := by
  obtain ⟨d, rfl⟩ := Nat.exists_eq_add_of_le h
  induction d with
  | zero => exact List.prefix_rfl
  | succ d ih =>
      refine (ih (Nat.le_add_right k d)).trans ?_
      rw [← Nat.add_assoc, ← words_succ]
      exact List.prefix_append _ _

theorem Transferring.next {n : ℕ} (h : Transferring p memory start input n)
    (hrst : (input n).rstN = true) (hcount : p.flashTransferByteCount.toNat ≤ 2 ^ 24) :
    Transferring p memory start input (n + 1) ∨ Transferred p memory start input (n + 1) := by
  obtain ⟨k, hk, hstage, hwritten⟩ := h
  have hrun : run p memory start input (n + 1) =
      step p memory (input n) (run p memory start input n) := rfl
  rcases hstage.step hrst hk hcount with ⟨haccepts, hnext⟩ | ⟨haccepts, hwrite, hnext⟩
  · refine .inl ⟨k, hk, hnext, ?_⟩
    rw [written, haccepts, ← hwritten]
    rfl
  · have hwritten' : written p memory start input (n + 1) = words p memory (k + 1) := by
      rw [written, if_pos haccepts, hwritten, hwrite, words_succ]
    split at hnext
    · next hmore => exact .inl ⟨k + 1, hmore, hnext, hwritten'⟩
    · next hend =>
        refine .inr ⟨hnext, ?_⟩
        have hlast : wordCount p = k + 1 := by
          unfold wordCount
          omega
        rw [hwritten', hlast]

/-- Until the CPU fetches, the transfer goes on or has just ended. -/
theorem transferring (hreset : ∃ i x, i.rstN = false ∧ start = step p memory i x)
    (hrun : ∀ n, (input n).rstN = true) (hpos : 0 < p.flashTransferByteCount.toNat)
    (hcount : p.flashTransferByteCount.toNat ≤ 2 ^ 24) (n : ℕ)
    (hboot : ∀ m < n, (run p memory start input m).core.state ≠ .cpuFetch) :
    Transferring p memory start input n ∨ Transferred p memory start input n := by
  induction n with
  | zero =>
      obtain ⟨i, x, hrst, rfl⟩ := hreset
      exact .inl ⟨0, hpos, stage_reset hrst, rfl⟩
  | succ n ih =>
      rcases ih fun m hm ↦ hboot m (Nat.lt_succ_of_lt hm) with htransferring | htransferred
      · exact htransferring.next (hrun n) hcount
      · exact absurd htransferred.1.state (hboot n (Nat.lt_succ_self n))

/-- From reset `ramio` accepts the words of the flash in order and each once;
then the flash is released and the CPU fetches from address 0.  It gets there
unless `ramio` stays busy. -/
theorem boot_transfers (hreset : ∃ i x, i.rstN = false ∧ start = step p memory i x)
    (hrun : ∀ n, (input n).rstN = true) (hpos : 0 < p.flashTransferByteCount.toNat)
    (hcount : p.flashTransferByteCount.toNat ≤ 2 ^ 24) :
    (∀ n, (∀ m ≤ n, (run p memory start input m).core.state ≠ .cpuFetch) →
      written p memory start input n <+: words p memory (wordCount p)) ∧
    (∀ n, (run p memory start input n).core.state = .cpuFetch →
      (∀ m < n, (run p memory start input m).core.state ≠ .cpuFetch) →
      written p memory start input n = words p memory (wordCount p) ∧
        Booted (run p memory start input n)) ∧
    ((∀ n, ∃ u ≥ n, (input u).ramioBusy = false) →
      ∃ n, (run p memory start input n).core.state = .cpuFetch) := by
  refine ⟨?_, ?_, ?_⟩
  · intro n hboot
    rcases transferring hreset hrun hpos hcount n fun m hm ↦ hboot m hm.le with
      ⟨k, hk, -, hwritten⟩ | htransferred
    · rw [hwritten]
      refine words_prefix ?_
      unfold wordCount
      omega
    · exact absurd htransferred.1.state (hboot n le_rfl)
  · intro n hfetch hboot
    rcases transferring hreset hrun hpos hcount n hboot with ⟨k, -, hstage, -⟩ | htransferred
    · exact absurd hfetch hstage.booting
    · exact ⟨htransferred.2, htransferred.1⟩
  · intro hfair
    by_contra hnever
    have hboot (n : ℕ) : (run p memory start input n).core.state ≠ .cpuFetch :=
      fun hfetch ↦ hnever ⟨n, hfetch⟩
    refine Clocked.not_always_decreasing
      (μ := fun n ↦ remaining p (run p memory start input n).core) ?_ hfair
    intro n
    rcases transferring hreset hrun hpos hcount n fun m _ ↦ hboot m with
      ⟨k, hk, hstage, -⟩ | htransferred
    · rcases hstage.remaining (hrun n) hk hcount with hless | ⟨hbusy, hsame⟩
      · exact .inl hless
      · exact .inr ⟨by rw [hbusy]; decide, hsame⟩
    · exact absurd htransferred.1.state (hboot n)

end Runs

/-- Six bytes from 0xffff10 on. -/
def sixBytes : Core.Params := ⟨9, 0x00ffff10, 6⟩

/-- A flash that holds the low byte of each address. -/
def lowBytes (address : BitVec 24) : Byte := address.setWidth 8

/-- `ramio` is busy in two of three cycles. -/
def mostlyBusy (n : ℕ) : Core.Input := ⟨true, 0, false, n % 3 != 0, false⟩

def afterReset : State :=
  step sixBytes lowBytes ⟨false, 0, false, false, false⟩
    ⟨Core.powerUp, ⟨false, 0, 0, 0, false⟩⟩

theorem boot_transfers_sixBytes :
    ∃ n, written sixBytes lowBytes afterReset mostlyBusy n =
        [(0b11, 0, 0x13121110), (0b11, 4, 0x17161514)] ∧
      Booted (run sixBytes lowBytes afterReset mostlyBusy n) := by
  classical
  have hreset : ∃ i x, i.rstN = false ∧ afterReset = step sixBytes lowBytes i x :=
    ⟨⟨false, 0, false, false, false⟩, ⟨Core.powerUp, ⟨false, 0, 0, 0, false⟩⟩, rfl, rfl⟩
  have hrun : ∀ n, (mostlyBusy n).rstN = true := fun _ ↦ rfl
  obtain ⟨-, hfirst, hreached⟩ := boot_transfers hreset hrun (by decide) (by decide)
  have hfetch := hreached fun n ↦ ⟨3 * n, by omega, by simp [mostlyBusy]⟩
  obtain ⟨hwritten, hbooted⟩ := hfirst (Nat.find hfetch) (Nat.find_spec hfetch)
    fun m hm ↦ Nat.find_min hfetch hm
  refine ⟨Nat.find hfetch, ?_, hbooted⟩
  rw [hwritten]
  decide

end TangNano.Boot
