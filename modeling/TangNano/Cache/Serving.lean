import TangNano.Cache.Commands
import TangNano.Cache.Deadline

/-!
# Every request is served

A request that misses may find an auto-refresh due, has a dirty line written
back and its own line read, and is then a hit.  Each of these takes as long as
the controller lets the cache wait for its ACK; the cache itself adds a number
of cycles that depends on its parameters only.
-/

namespace TangNano.Cache

variable (p : Params)

/-- The cycles until the pending request is served, if the ACK that is waited
for comes after `a` cycles and every later one after `K`. -/
def toServe (K a : ℕ) (i : Input) (s : Regs) : ℕ :=
  match s.state with
  | .idle =>
      (if s.refreshCycleCounter > p.autoRefreshPeriodCycles then K + 1 else 0) +
        (duration p K i s + 1)
  | .refresh => a + (duration p K i s + 1)
  | .write1 => a + ((p.columnCount - 1) + K + fillCycles p K)
  | .write2 => (p.columnCount - s.counter) + K + fillCycles p K
  | .write3 => a + fillCycles p K
  | .read1 => a + ((p.waitsPriorToDataAtRead + 1) + (p.columnCount - 1) + 1)
  | .read2 => (p.waitsPriorToDataAtRead + 1 - s.counter) + (p.columnCount - 1) + 1
  | .read3 => (p.columnCount - s.counter) + 1
  | .read4 => 1

/-- An auto-refresh, an eviction and a refill. -/
def serviceCycles (K : ℕ) : ℕ := K + 2 + missLength p K

variable {p} {K : ℕ} {i j : Input} {s s' : Regs}

theorem duration_le : duration p K i s ≤ missLength p K := by
  unfold duration
  split
  · exact le_rfl
  · exact Nat.le_add_left _ _

theorem duration_congr (htag : s'.tag = s.tag) (h : SameRequest i j) :
    duration p K j s' = duration p K i s := by
  unfold duration
  rw [lineDirty_congr htag h]

theorem toServe_le {a : ℕ} (ha : a ≤ K) (hcontrol : Control p i s) :
    toServe p K a i s ≤ serviceCycles p K := by
  have hduration : duration p K i s ≤ missLength p K := duration_le
  unfold toServe serviceCycles
  cases hcontrol with
  | idle h =>
      simp only [h.state_eq]
      split <;> omega
  | refresh h =>
      simp only [h.state_eq]
      omega
  | write1 h =>
      simp only [h.state_eq, missLength, evictCycles]
      omega
  | write2 h =>
      have hpos := h.counter_pos
      simp only [h.state_eq, missLength, evictCycles]
      omega
  | write3 h =>
      simp only [h.state_eq, missLength, evictCycles]
      omega
  | read1 h =>
      simp only [h.state_eq, missLength, fillCycles]
      omega
  | read2 h =>
      simp only [h.state_eq, missLength, fillCycles]
      omega
  | read3 h =>
      simp only [h.state_eq, missLength, fillCycles]
      omega
  | read4 h =>
      simp only [h.state_eq]
      omega

theorem toServe_pos {a : ℕ} : 0 < toServe p K a i s := by
  unfold toServe fillCycles
  split <;> omega

/-! ## One clock edge -/

/-- The cache waits for an ACK and nothing else changes. -/
structure Stalls (p : Params) (K : ℕ) (i j : Input) (s s' : Regs) : Prop where
  awaiting : awaiting s = true
  ack : i.oSdrcCmdAck = false
  rest : ∃ r, ∀ a, toServe p K a i s = a + r ∧ toServe p K a j s' = a + r

/-- The request is a cycle nearer to being served. -/
structure Advances (p : Params) (K : ℕ) (i j : Input) (s s' : Regs) : Prop where
  ack : awaiting s = true → i.oSdrcCmdAck = true
  less : ∀ a, 1 ≤ a → toServe p K K j s' < toServe p K a i s

/-- Outside bursts a request that misses leaves the tags alone. -/
theorem tagNext_of_pending (hg : Gates s false shut false) (hbusy : busy p i s = true) :
    tagNext p i s = s.tag := by
  have hmiss : cacheLineHit p i s = false := by
    unfold busy at hbusy
    simp only [Bool.and_eq_true, Bool.not_eq_true'] at hbusy
    exact hbusy.2
  exact (memory_of_miss hg hmiss).1

/-- The line is cached when its refill ends. -/
theorem AtRead4.hit (h : AtRead4 p i s) (hsame : SameRequest i j)
    (htag : s'.tag = tagNext p i s) : cacheLineHit p j s' = true := by
  have hlt := addressTag_lt p i.address
  rw [tagNext_of_filled h.gates] at htag
  simp [cacheLineHit, lineValid, cachedTag, htag, hsame.2.1, tagWord_valid p false hlt,
    tagWord_tag p false hlt]

/-- While a request is pending each edge waits for an ACK or brings it nearer
to being served. -/
theorem Edge.serves (h : Edge p i s s') (hbusy : busy p i s = true) (hsame : SameRequest i j)
    (hstill : busy p j s' = true) : Stalls p K i j s s' ∨ Advances p K i j s s' := by
  have hcount := two_le_columnCount p
  cases h with
  | idleRefresh hs due =>
      refine .inr ⟨by simp [awaiting, hs.state_eq], fun a _ ↦ ?_⟩
      simp only [toServe, hs.state_eq, if_pos due]
      rw [duration_congr (tagNext_of_pending hs.gates hbusy) hsame]
      omega
  | idleEvict hs early pending dirty =>
      refine .inr ⟨by simp [awaiting, hs.state_eq], fun a _ ↦ ?_⟩
      simp only [toServe, hs.state_eq, duration, if_pos dirty, missLength, evictCycles]
      omega
  | idleFill hs early pending clean =>
      refine .inr ⟨by simp [awaiting, hs.state_eq], fun a _ ↦ ?_⟩
      simp only [toServe, hs.state_eq, duration, clean, fillCycles]
      simp
      omega
  | idleServe hs early free => exact absurd (hbusy.symm.trans free) Bool.true_eq_false.mp
  | refreshDone hs ack =>
      refine .inr ⟨fun _ ↦ ack, fun a ha ↦ ?_⟩
      simp only [toServe, hs.state_eq]
      rw [duration_congr (tagNext_of_pending hs.gates hbusy) hsame]
      simp
      omega
  | refreshWait hs ack =>
      refine .inl ⟨by simp [awaiting, hs.state_eq], ack, duration p K i s + 1, fun a ↦ ?_⟩
      simp only [toServe, hs.state_eq]
      exact ⟨trivial, by rw [duration_congr (tagNext_of_pending hs.gates hbusy) hsame]⟩
  | write1Done hs ack =>
      refine .inr ⟨fun _ ↦ ack, fun a ha ↦ ?_⟩
      simp only [toServe, hs.state_eq]
      omega
  | write1Wait hs ack =>
      refine .inl ⟨by simp [awaiting, hs.state_eq], ack,
        (p.columnCount - 1) + K + fillCycles p K, fun a ↦ ?_⟩
      simp only [toServe, hs.state_eq]
      exact ⟨trivial, trivial⟩
  | write2Next hs more =>
      refine .inr ⟨by simp [awaiting, hs.state_eq], fun a _ ↦ ?_⟩
      simp only [toServe, hs.state_eq]
      omega
  | write2Last hs last =>
      refine .inr ⟨by simp [awaiting, hs.state_eq], fun a _ ↦ ?_⟩
      simp only [toServe, hs.state_eq]
      omega
  | write3Done hs ack =>
      refine .inr ⟨fun _ ↦ ack, fun a ha ↦ ?_⟩
      simp only [toServe, hs.state_eq, fillCycles]
      omega
  | write3Wait hs ack =>
      refine .inl ⟨by simp [awaiting, hs.state_eq], ack, fillCycles p K, fun a ↦ ?_⟩
      simp only [toServe, hs.state_eq]
      exact ⟨trivial, trivial⟩
  | read1Done hs ack =>
      refine .inr ⟨fun _ ↦ ack, fun a ha ↦ ?_⟩
      simp only [toServe, hs.state_eq]
      omega
  | read1Wait hs ack =>
      refine .inl ⟨by simp [awaiting, hs.state_eq], ack,
        (p.waitsPriorToDataAtRead + 1) + (p.columnCount - 1) + 1, fun a ↦ ?_⟩
      simp only [toServe, hs.state_eq]
      exact ⟨trivial, trivial⟩
  | read2Done hs arrived =>
      refine .inr ⟨by simp [awaiting, hs.state_eq], fun a _ ↦ ?_⟩
      simp only [toServe, hs.state_eq]
      omega
  | read2Wait hs early =>
      refine .inr ⟨by simp [awaiting, hs.state_eq], fun a _ ↦ ?_⟩
      simp only [toServe, hs.state_eq]
      omega
  | read3Next hs more =>
      refine .inr ⟨by simp [awaiting, hs.state_eq], fun a _ ↦ ?_⟩
      simp only [toServe, hs.state_eq]
      omega
  | read3Last hs last =>
      refine .inr ⟨by simp [awaiting, hs.state_eq], fun a _ ↦ ?_⟩
      simp only [toServe, hs.state_eq]
      omega
  | read4Done hs =>
      simp only [busy, Bool.and_eq_true, Bool.not_eq_true'] at hstill
      exact absurd (hstill.2.symm.trans (hs.hit hsame rfl)) Bool.false_ne_true

/-! ## Runs -/

section Runs

variable {start : Regs} {input : ℕ → Input}

/-- The cycles from `n` on until the request pending then is served. -/
def left (p : Params) (start : Regs) (input : ℕ → Input) (K n : ℕ) : ℕ :=
  toServe p K (K - (clocks p start input n).waited) (input n) (run p start input n)

theorem left_next (hstart : AfterReset p start) {n : ℕ} (hclient : Client p start input (n + 1))
    (hack : AckWithin p start input K (n + 1))
    (hbusy : busy p (input n) (run p start input n) = true)
    (hstill : busy p (input (n + 1)) (run p start input (n + 1)) = true) :
    left p start input K (n + 1) < left p start input K n := by
  have hbefore := hclient.mono (Nat.le_succ n)
  have hwaited : (clocks p start input n).waited < K := hack n (Nat.le_succ n)
  have hwaited' : (clocks p start input (n + 1)).waited < K := hack (n + 1) le_rfl
  have hedge : Edge p (input n) (run p start input n) (run p start input (n + 1)) :=
    (control_of_client p hstart hbefore).edge (hbefore.running n le_rfl)
  have hsame := hclient.hold n (Nat.lt_succ_self n) hbusy
  unfold left
  rcases hedge.serves (K := K) hbusy hsame hstill with hstalls | hadvances
  · have hcount : (clocks p start input (n + 1)).waited = (clocks p start input n).waited + 1 :=
      Clocks.waited_next hstalls.awaiting hstalls.ack
    obtain ⟨r, hr⟩ := hstalls.rest
    rw [(hr _).1, (hr _).2, hcount]
    omega
  · have hzero : (clocks p start input (n + 1)).waited = 0 := by
      change (if awaiting (run p start input n) && !(input n).oSdrcCmdAck then
        (clocks p start input n).waited + 1 else 0) = 0
      rw [if_neg]
      simp only [Bool.and_eq_true, Bool.not_eq_true', not_and, Bool.not_eq_false]
      exact hadvances.ack
    rw [hzero, Nat.sub_zero]
    exact hadvances.less _ (by omega)

/-- If no ACK takes longer than `K` cycles every request finds its line cached,
unchanged, within the time of an auto-refresh, an eviction and a refill. -/
theorem served_within (hstart : AfterReset p start) (hclient : ∀ n, Client p start input n)
    (hack : ∀ n, AckWithin p start input K n) {n : ℕ} (henable : (input n).enable = true) :
    ∃ m ≤ serviceCycles p K,
      cacheLineHit p (input (n + m)) (run p start input (n + m)) = true ∧
      ∀ k ≤ m, SameRequest (input n) (input (n + k)) := by
  obtain ⟨m, hm, hend, hbusy⟩ := Clocked.ends_within
    (P := fun k ↦ busy p (input k) (run p start input k) = true) (μ := left p start input K)
    (fun _ _ ↦ toServe_pos)
    (fun k hnow hnext ↦ left_next hstart (hclient (k + 1)) (hack (k + 1)) hnow hnext) n
  have hheld : ∀ k ≤ m, SameRequest (input n) (input (n + k)) := by
    intro k hk
    induction k with
    | zero => exact ⟨rfl, rfl, rfl, rfl⟩
    | succ k ih =>
        have hnext := (hclient (n + k + 1)).hold (n + k) (Nat.lt_succ_self _) (hbusy k (by omega))
        exact (ih (by omega)).trans hnext
  refine ⟨m, hm.trans ?_, ?_, hheld⟩
  · exact toServe_le (Nat.sub_le _ _) (control_of_client p hstart (hclient n))
  · have henabled := (hheld m le_rfl).1.trans henable
    simpa [busy, henabled] using hend

theorem served_within_read :
    ∃ m ≤ serviceCycles smallParams 1, cacheLineHit smallParams readInput
      (run smallParams resetRegs (fun _ ↦ readInput) (0 + m)) = true := by
  have hclient (n : ℕ) : Client smallParams resetRegs (fun _ ↦ readInput) n :=
    ⟨fun _ _ ↦ rfl, fun _ _ _ ↦ ⟨rfl, rfl, rfl, rfl⟩⟩
  have hack (n : ℕ) : AckWithin smallParams resetRegs (fun _ ↦ readInput) 1 n := by
    intro m _
    cases m with
    | zero => exact Nat.zero_lt_one
    | succ m => simp [clocks, Clocks.next, readInput]
  obtain ⟨m, hm, hhit, -⟩ := served_within afterReset_resetRegs hclient hack (n := 0) rfl
  exact ⟨m, hm, hhit⟩

end Runs

end TangNano.Cache
