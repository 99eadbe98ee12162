import TangNano.Library.Framing
import TangNano.Uart.Model

/-!
# Reception

The receiver samples each data bit once and is back in `idle` before the next
frame begins, also when the sender is a little faster or slower.
-/

namespace TangNano.Uart

open Framing

variable {bitTime : ℕ}

/-- The byte that `uartrx_data_received` takes at the end of the cycle. -/
def latched (x : State bitTime) : Option Byte :=
  if x.ramio.uartrxGo && x.uartrx.dataReady then some x.uartrx.data else none

theorem uartrxDataReceived_latched (i : Input) {x : State bitTime} {b : Byte}
    (h : latched x = some b) : (step true i x).ramio.uartrxDataReceived = 0#24 ++ b := by
  unfold latched at h
  split at h
  · next hcond =>
      obtain rfl := Option.some_inj.mp h
      simp [step, Ramio.step, parts, Bool.and_eq_true_iff.mp hcond]
  · cases h

theorem latched_none {x : State bitTime} (h : x.uartrx.dataReady = false) : latched x = none := by
  rw [latched, h, Bool.and_false]
  rfl

/-- The bytes of the first `n` cycles. -/
def received (x : State bitTime) (input : ℕ → Input) (n : ℕ) : List Byte :=
  (List.range n).filterMap fun k ↦ latched (Clocked.state (step true) x input k)

theorem received_add (x : State bitTime) (input : ℕ → Input) (m n : ℕ) :
    received x input (m + n) = received x input m ++
      received (Clocked.state (step true) x input m) (fun k ↦ input (m + k)) n := by
  rw [received, List.range_add, List.filterMap_append, List.filterMap_map, received, received]
  congr 1
  apply List.filterMap_congr
  intro k _
  rw [Function.comp_apply, Clocked.state_add]

theorem received_eq_nil {x : State bitTime} {input : ℕ → Input} {n : ℕ}
    (h : ∀ k < n, (Clocked.state (step true) x input k).uartrx.dataReady = false) :
    received x input n = [] :=
  List.filterMap_eq_nil_iff.mpr fun k hk ↦ latched_none (h k (List.mem_range.mp hk))

/-! ## Inside a frame -/

/-- The receiver waits for the middle of the start bit. -/
structure Uartrx.Starts (j : ℕ) (s : Uartrx bitTime) : Prop where
  state : s.state = .startBit
  counter : s.bitCounter = BitVec.ofNat _ (bitTime / 2 - 1 - j)
  ready : s.dataReady = false

/-- The receiver is `j` cycles past the middle of a bit and has `k` data bits. -/
inductive Uartrx.Samples (b : Byte) : ℕ → ℕ → Uartrx bitTime → Prop
  | data {k j s} (hk : k < 8) (hs : s.state = .dataBits) (hn : s.bitCount = BitVec.ofNat 4 k)
      (hc : s.bitCounter = BitVec.ofNat _ (bitTime - 1 - j)) (hready : s.dataReady = false)
      (hdata : ∀ n < k, s.data.getLsbD n = b.getLsbD n) : Samples b k j s
  | stop {j s} (hs : s.state = .stopBit) (hc : s.bitCounter = BitVec.ofNat _ (bitTime - 1 - j))
      (hready : s.dataReady = false) (hdata : s.data = b) : Samples b 8 j s

namespace Uartrx

variable {s : Uartrx bitTime} {b : Byte} {k j : ℕ}

theorem Starts.next (h : s.Starts j) (hj : j + 1 < bitTime / 2) (rx : Bool) :
    (s.step true rx true).Starts (j + 1) := by
  obtain ⟨hne, hsub⟩ := counter_next (Nat.div_le_self _ _) hj h.counter
  refine ⟨?_, ?_, ?_⟩
  · simp [step, h.state, hne]
  · simp [step, h.state, hne, hsub]
  · simp [step, h.state, hne, h.ready]

theorem Starts.last (h : s.Starts j) (hj : j + 1 = bitTime / 2) (rx : Bool) (b : Byte) :
    (s.step true rx true).Samples b 0 0 := by
  have hzero := counter_last (Nat.div_le_self _ _) hj h.counter
  refine .data (by omega) ?_ ?_ ?_ ?_ fun m hm ↦ absurd hm (Nat.not_lt_zero m)
  · simp [step, h.state, hzero]
  · simp [step, h.state, hzero]
  · simp [step, h.state, hzero]
  · simp [step, h.state, hzero, h.ready]

theorem Samples.ready (h : s.Samples b k j) : s.dataReady = false := by
  cases h with
  | data _ _ _ _ hready => exact hready
  | stop _ _ hready => exact hready

theorem Samples.next (h : s.Samples b k j) (hj : j + 1 < bitTime) (rx : Bool) :
    (s.step true rx true).Samples b k (j + 1) := by
  cases h with
  | data hk hs hn hc hready hdata =>
      obtain ⟨hne, hsub⟩ := counter_next le_rfl hj hc
      refine .data hk ?_ ?_ ?_ ?_ ?_
      · simp [step, hs, hne]
      · simp [step, hs, hne, hn]
      · simp [step, hs, hne, hsub]
      · simp [step, hs, hne, hready]
      · simpa [step, hs, hne] using hdata
  | stop hs hc hready hdata =>
      obtain ⟨hne, hsub⟩ := counter_next le_rfl hj hc
      refine .stop ?_ ?_ ?_ ?_
      · simp [step, hs, hne]
      · simp [step, hs, hsub]
      · simp [step, hs, hne, hready]
      · simp [step, hs, hdata]

/-- A data bit is taken from the line. -/
theorem Samples.turn (h : s.Samples b k j) (hj : j + 1 = bitTime) (hk : k < 8) {rx : Bool}
    (hrx : rx = b.getLsbD k) : (s.step true rx true).Samples b (k + 1) 0 := by
  cases h with
  | stop => exact absurd hk (Nat.lt_irrefl 8)
  | data _ hs hn hc hready hdata =>
      have hzero := counter_last le_rfl hj hc
      have hcount : (BitVec.ofNat 4 k).toNat = k := Nat.mod_eq_of_lt (by omega)
      have hstep : (s.step true rx true).data = setBit s.data k rx := by
        simp [step, hs, hzero, hn, hcount]
      have htaken : ∀ n < k + 1, (s.step true rx true).data.getLsbD n = b.getLsbD n := by
        intro n hn
        rw [hstep, getLsbD_setBit _ hk]
        rcases Nat.lt_succ_iff_lt_or_eq.mp hn with hlt | rfl
        · rw [if_neg hlt.ne, hdata n hlt]
        · rw [if_pos rfl, hrx]
      by_cases hlast : k = 7
      · subst hlast
        refine .stop ?_ ?_ ?_ ?_
        · simp [step, hs, hzero, hn]
        · simp [step, hs, hzero]
        · simp [step, hs, hzero, hready]
        · exact BitVec.eq_of_getLsbD_eq htaken
      · have hne : BitVec.ofNat 4 k ≠ 7#4 := fun h ↦ by
          have heq := congrArg BitVec.toNat h
          rw [hcount] at heq
          exact hlast heq
        refine .data (by omega) ?_ ?_ ?_ ?_ htaken
        · simp [step, hs, hzero, hn, hne]
        · simp [step, hs, hzero, hn, hne, BitVec.ofNat_add]
        · simp [step, hs, hzero]
        · simp [step, hs, hzero, hready]

theorem Samples.last (h : s.Samples b 8 j) (hj : j + 1 = bitTime) (rx : Bool) :
    (s.step true rx true).state = .waitForGoLow ∧ (s.step true rx true).dataReady = true ∧
      (s.step true rx true).data = b := by
  cases h with
  | data hk => exact absurd hk (Nat.lt_irrefl 8)
  | stop hs hc _ hdata => simp [step, hs, counter_last le_rfl hj hc, hdata]

end Uartrx

/-! ## The handshake -/

/-- The receiver can see the next start bit. -/
structure Ready (x : State bitTime) : Prop where
  go : x.ramio.uartrxGo = true
  waits : x.uartrx.state = .idle
  ready : x.uartrx.dataReady = false

/-- A byte is handed over. -/
structure Done (b : Byte) (x : State bitTime) : Prop where
  go : x.ramio.uartrxGo = true
  waits : x.uartrx.state = .waitForGoLow
  ready : x.uartrx.dataReady = true
  data : x.uartrx.data = b

/-- It is acknowledged. -/
structure Acknowledged (x : State bitTime) : Prop where
  go : x.ramio.uartrxGo = false
  waits : x.uartrx.state = .waitForGoLow

section Steps

variable {x : State bitTime} {b : Byte}

theorem uartrxGo_next (i : Input) (hgo : x.ramio.uartrxGo = true)
    (hready : x.uartrx.dataReady = false) : (step true i x).ramio.uartrxGo = true := by
  simp [step, Ramio.step, parts, hgo, hready]

theorem uartrx_next (i : Input) (hgo : x.ramio.uartrxGo = true) :
    (step true i x).uartrx = x.uartrx.step true i.uartRx true := by rw [step, hgo]

theorem ready_reset (i : Input) (x : State bitTime) : Ready (step false i x) := ⟨rfl, rfl, rfl⟩

theorem Ready.idle {i : Input} (h : Ready x) (hrx : i.uartRx = true) : Ready (step true i x) := by
  refine ⟨uartrxGo_next i h.go h.ready, ?_, ?_⟩
  · rw [uartrx_next i h.go]
    simp [Uartrx.step, h.waits, hrx]
  · rw [uartrx_next i h.go]
    simp [Uartrx.step, h.waits, hrx, h.ready]

theorem Ready.start {i : Input} (hbit : 2 ≤ bitTime) (h : Ready x) (hrx : i.uartRx = false) :
    (step true i x).uartrx.Starts 0 := by
  have hne : bitTime ≠ 1 := by omega
  rw [uartrx_next i h.go]
  refine ⟨?_, ?_, ?_⟩
  · simp [Uartrx.step, h.waits, hrx, hne]
  · simp [Uartrx.step, h.waits, hrx, hne]
  · simp [Uartrx.step, h.waits, hrx, h.ready]

theorem Done.latched (h : Done b x) : latched x = some b := by
  rw [Uart.latched, h.go, h.ready, h.data]
  rfl

theorem Done.next (i : Input) (h : Done b x) : Acknowledged (step true i x) := by
  refine ⟨?_, ?_⟩
  · simp [step, Ramio.step, parts, h.go, h.ready]
  · simp [step, Uartrx.step, h.waits, h.go]

theorem Acknowledged.latched (h : Acknowledged x) : latched x = none := by
  rw [Uart.latched, h.go]
  rfl

theorem Acknowledged.next (i : Input) (h : Acknowledged x) : Ready (step true i x) := by
  refine ⟨?_, ?_, ?_⟩
  · simp [step, Ramio.step, h.go]
  · simp [step, Uartrx.step, h.waits, h.go]
  · simp [step, Uartrx.step, h.waits, h.go]

end Steps

/-! ## One frame -/

section Frame

variable {x : State bitTime} {input : ℕ → Input} {b : Byte}

/-- The cycle in which the byte is complete. -/
def doneAfter (bitTime : ℕ) : ℕ := 1 + bitTime / 2 + 9 * bitTime

theorem starts_of_ready (hbit : 2 ≤ bitTime) (h : Ready x) (hstart : (input 0).uartRx = false)
    {j : ℕ} (hj : j < bitTime / 2) :
    (Clocked.state (step true) x input (1 + j)).ramio.uartrxGo = true ∧
      (Clocked.state (step true) x input (1 + j)).uartrx.Starts j := by
  induction j with
  | zero => exact ⟨uartrxGo_next _ h.go h.ready, h.start hbit hstart⟩
  | succ j ih =>
      obtain ⟨hgo, hstarts⟩ := ih (Nat.lt_of_succ_lt hj)
      rw [← Nat.add_assoc, Clocked.state_succ]
      refine ⟨uartrxGo_next _ hgo hstarts.ready, ?_⟩
      rw [uartrx_next _ hgo]
      exact hstarts.next hj _

theorem samples_of_ready (hbit : 2 ≤ bitTime) (h : Ready x) (hstart : (input 0).uartRx = false)
    (hsample : ∀ k < 8, (input (bitTime / 2 + (k + 1) * bitTime)).uartRx = b.getLsbD k) :
    ∀ k ≤ 8, ∀ j < bitTime,
      (Clocked.state (step true) x input (1 + bitTime / 2 + (k * bitTime + j))).ramio.uartrxGo =
          true ∧
        (Clocked.state (step true) x input (1 + bitTime / 2 + (k * bitTime + j))).uartrx.Samples
          b k j := by
  refine walk ?_ ?_ ?_
  · obtain ⟨m, hm⟩ := Nat.exists_eq_succ_of_ne_zero (show bitTime / 2 ≠ 0 by omega)
    obtain ⟨hgo, hstarts⟩ := starts_of_ready hbit h hstart (j := m) (by omega)
    have htime : 1 + bitTime / 2 + (0 * bitTime + 0) = 1 + m + 1 := by omega
    rw [htime, Clocked.state_succ]
    refine ⟨uartrxGo_next _ hgo hstarts.ready, ?_⟩
    rw [uartrx_next _ hgo]
    exact hstarts.last hm.symm _ b
  · rintro k - j hj ⟨hgo, hsamples⟩
    rw [← Nat.add_assoc _ j 1, ← Nat.add_assoc _ _ 1, Clocked.state_succ]
    refine ⟨uartrxGo_next _ hgo hsamples.ready, ?_⟩
    rw [uartrx_next _ hgo]
    exact hsamples.next hj _
  · rintro k hk ⟨hgo, hsamples⟩
    have htime : 1 + bitTime / 2 + ((k + 1) * bitTime + 0) =
        1 + bitTime / 2 + (k * bitTime + (bitTime - 1)) + 1 := by
      rw [Nat.succ_mul]
      omega
    have hcycle : 1 + bitTime / 2 + (k * bitTime + (bitTime - 1)) =
        bitTime / 2 + (k + 1) * bitTime := by
      rw [Nat.succ_mul]
      omega
    rw [htime, Clocked.state_succ]
    refine ⟨uartrxGo_next _ hgo hsamples.ready, ?_⟩
    rw [uartrx_next _ hgo]
    refine hsamples.turn (by omega) hk ?_
    rw [hcycle]
    exact hsample k hk

theorem done_of_ready (hbit : 2 ≤ bitTime) (h : Ready x) (hstart : (input 0).uartRx = false)
    (hsample : ∀ k < 8, (input (bitTime / 2 + (k + 1) * bitTime)).uartRx = b.getLsbD k) :
    Done b (Clocked.state (step true) x input (doneAfter bitTime)) ∧
      received x input (doneAfter bitTime) = [] := by
  have hsamples := samples_of_ready hbit h hstart hsample
  refine ⟨?_, received_eq_nil fun n hn ↦ ?_⟩
  · obtain ⟨hgo, hlast⟩ := hsamples 8 le_rfl (bitTime - 1) (by omega)
    have htime : doneAfter bitTime = 1 + bitTime / 2 + (8 * bitTime + (bitTime - 1)) + 1 := by
      unfold doneAfter
      omega
    rw [htime, Clocked.state_succ]
    have hstep := hlast.last (by omega)
      (input (1 + bitTime / 2 + (8 * bitTime + (bitTime - 1)))).uartRx
    rw [← uartrx_next _ hgo] at hstep
    exact ⟨uartrxGo_next _ hgo hlast.ready, hstep.1, hstep.2.1, hstep.2.2⟩
  · rcases Nat.eq_zero_or_pos n with rfl | hpos
    · exact h.ready
    by_cases hhalf : n < 1 + bitTime / 2
    · obtain ⟨j, rfl⟩ := Nat.exists_eq_add_of_le hpos
      exact (starts_of_ready hbit h hstart (by omega)).2.ready
    · obtain ⟨d, rfl⟩ := Nat.exists_eq_add_of_le (Nat.le_of_not_lt hhalf)
      have hlt : d < 9 * bitTime := Nat.lt_of_add_lt_add_left hn
      have hk : d / bitTime < 9 := (Nat.div_lt_iff_lt_mul (by omega)).mpr hlt
      rw [← Nat.div_add_mod' d bitTime]
      exact (hsamples _ (Nat.le_of_lt_succ hk) _ (Nat.mod_lt _ (by omega))).2.ready

theorem received_one (x : State bitTime) (input : ℕ → Input) :
    received x input 1 = (latched x).toList := by
  rw [received, List.range_one, List.filterMap_cons, List.filterMap_nil, Clocked.state_zero]
  cases latched x <;> rfl

/-- Two cycles after the byte is complete the receiver can see the next frame. -/
theorem ready_of_done (input : ℕ → Input) (h : Done b x) :
    Ready (Clocked.state (step true) x input 2) ∧ received x input 2 = [b] := by
  have hack := h.next (input 0)
  refine ⟨hack.next (input 1), ?_⟩
  rw [received_add x input 1 1, received_one, received_one, Clocked.state_succ, Clocked.state_zero,
    h.latched, hack.latched]
  rfl

theorem ready_of_idle (input : ℕ → Input) {n : ℕ} (h : Ready x)
    (hrx : ∀ m < n, (input m).uartRx = true) :
    Ready (Clocked.state (step true) x input n) ∧ received x input n = [] := by
  have hready : ∀ m ≤ n, Ready (Clocked.state (step true) x input m) := by
    intro m
    induction m with
    | zero => exact fun _ ↦ h
    | succ m ih => exact fun hm ↦ (ih (Nat.le_of_lt hm)).idle (hrx m hm)
  exact ⟨hready n le_rfl, received_eq_nil fun m hm ↦ (hready m hm.le).ready⟩

/-- The bit time `T` of a sender whose bits are sampled correctly. -/
structure Near (bitTime T : ℕ) : Prop where
  pos : 1 ≤ T
  slow : 9 * ((T : ℤ) - bitTime) ≤ (bitTime / 2 : ℕ)
  fast : 9 * ((bitTime : ℤ) - T) ≤ bitTime - (bitTime / 2 : ℕ) - 1

/-- The line stays 1 after a frame for long enough. -/
def Spaced (bitTime T gap : ℕ) : Prop :=
  10 * ((bitTime : ℤ) - T) ≤ bitTime - (bitTime / 2 : ℕ) - 3 + gap

variable {T gap : ℕ}

/-- A data bit is sampled while it is on the line. -/
theorem sample_window (hnear : Near bitTime T) {k : ℕ} (hk : k < 8) :
    (k + 1) * T ≤ bitTime / 2 + (k + 1) * bitTime ∧
      bitTime / 2 + (k + 1) * bitTime < (k + 1) * T + T := by
  obtain ⟨hpos, hslow, hfast⟩ := hnear
  constructor <;> interval_cases k <;> omega

theorem ready_of_frame (hbit : 2 ≤ bitTime) (hnear : Near bitTime T) (hgap : Spaced bitTime T gap)
    (h : Ready x) (hframe : ∀ n < 10 * T + gap, (input n).uartRx =
      (cells T b ++ List.replicate gap true).getD n true) :
    Ready (Clocked.state (step true) x input (10 * T + gap)) ∧
      received x input (10 * T + gap) = [b] := by
  have hcell : ∀ k < 10, ∀ j < T, (input (k * T + j)).uartRx = bit b k := by
    intro k hk j hj
    rw [hframe _ (Nat.lt_add_right _ (lt_of_bit hk hj)), getD_cells b hk hj]
  have hstart : (input 0).uartRx = false := by
    have hzero := hcell 0 (Nat.succ_pos 9) 0 hnear.pos
    rwa [Nat.zero_mul] at hzero
  have hsample : ∀ k < 8, (input (bitTime / 2 + (k + 1) * bitTime)).uartRx = b.getLsbD k := by
    intro k hk
    obtain ⟨hle, hlt⟩ := sample_window hnear hk
    obtain ⟨j, hj⟩ := Nat.exists_eq_add_of_le hle
    rw [hj, hcell (k + 1) (by omega) j (by omega), bit, if_neg (Nat.succ_ne_zero k),
      if_pos (Nat.succ_le_of_lt hk), Nat.add_sub_cancel]
  obtain ⟨hdone, hnone⟩ := done_of_ready hbit h hstart hsample
  obtain ⟨hready, hone⟩ := ready_of_done (fun n ↦ input (doneAfter bitTime + n)) hdone
  have hlong : doneAfter bitTime + 2 ≤ 10 * T + gap := by
    unfold Spaced at hgap
    unfold doneAfter
    omega
  have hstop : 9 * T ≤ doneAfter bitTime + 2 := by
    have := hnear.slow
    unfold doneAfter
    omega
  obtain ⟨r, hr⟩ := Nat.exists_eq_add_of_le hlong
  rw [← Clocked.state_add] at hready
  have hidle := ready_of_idle (fun n ↦ input (doneAfter bitTime + 2 + n)) (n := r) hready
  rw [← Clocked.state_add, ← hr] at hidle
  obtain ⟨hend, hrest⟩ := hidle fun m hm ↦ by
    by_cases hlast : doneAfter bitTime + 2 + m < 10 * T
    · have htime : doneAfter bitTime + 2 + m = 9 * T + (doneAfter bitTime + 2 + m - 9 * T) := by
        omega
      rw [htime]
      exact hcell 9 (Nat.lt_succ_self 9) _ (by omega)
    · rw [hframe _ (by omega), List.getD_append_right _ _ _ _ (by rw [length_cells]; omega),
        List.getD_replicate _ (by rw [length_cells]; omega)]
  refine ⟨hend, ?_⟩
  rw [hr, received_add, received_add, hnone, hone, hrest]
  rfl

end Frame

/-! ## Frames one after the other -/

section Frames

variable {T : ℕ} {input : ℕ → Input}

theorem length_sent_cons (f : Byte × ℕ) (frames : List (Byte × ℕ)) :
    (sent T (f :: frames)).length = 10 * T + f.2 + (sent T frames).length := by
  rw [sent, List.flatMap_cons, List.length_append, List.length_append, length_cells,
    List.length_replicate]
  rfl

theorem ready_of_frames (hbit : 2 ≤ bitTime) (hnear : Near bitTime T)
    {frames : List (Byte × ℕ)} (hgaps : ∀ f ∈ frames, Spaced bitTime T f.2) {x : State bitTime}
    (h : Ready x)
    (hline : ∀ n < (sent T frames).length, (input n).uartRx = (sent T frames).getD n true) :
    Ready (Clocked.state (step true) x input (sent T frames).length) ∧
      received x input (sent T frames).length = frames.map Prod.fst := by
  induction frames generalizing x input with
  | nil => exact ⟨h, rfl⟩
  | cons f frames ih =>
      have hlength := length_sent_cons (T := T) f frames
      have hcells : (cells T f.1 ++ List.replicate f.2 true).length = 10 * T + f.2 := by
        rw [List.length_append, length_cells, List.length_replicate]
      obtain ⟨hready, hone⟩ := ready_of_frame hbit hnear (hgaps f List.mem_cons_self) h
        (b := f.1) fun n hn ↦ by
          rw [hline n (by omega), sent, List.flatMap_cons, List.getD_append _ _ _ _ (by omega)]
      have hline' : ∀ n < (sent T frames).length,
          (input (10 * T + f.2 + n)).uartRx = (sent T frames).getD n true := by
        intro n hn
        rw [hline _ (by omega), sent, List.flatMap_cons,
          List.getD_append_right _ _ _ _ (by omega), hcells, Nat.add_sub_cancel_left]
        rfl
      have hrest := ih (fun f hf ↦ hgaps f (List.mem_cons_of_mem _ hf)) hready hline'
      rw [hlength, Clocked.state_add, received_add, hone, hrest.2]
      exact ⟨hrest.1, rfl⟩

/-- Every frame on the line leaves its byte in the register, in the order of the
frames and each once. -/
theorem receives (hbit : 2 ≤ bitTime) (hnear : Near bitTime T) (frames : List (Byte × ℕ))
    (hgaps : ∀ f ∈ frames, Spaced bitTime T f.2) (lead : ℕ) (i : Input) (x : State bitTime)
    (hline : ∀ n, (input n).uartRx = line T lead frames n) :
    (∀ m, received (step false i x) input (lead + (sent T (frames.take m)).length) =
        (frames.take m).map Prod.fst) ∧
      (∀ n ≥ lead + (sent T frames).length,
        received (step false i x) input n = frames.map Prod.fst) ∧
      ∀ n b, latched (run i x input n) = some b →
        (run i x input (n + 1)).ramio.uartrxDataReceived = 0#24 ++ b := by
  obtain ⟨hready, hlead⟩ := ready_of_idle input (n := lead) (ready_reset i x) fun n hn ↦ by
    rw [hline, line, List.getD_append _ _ _ _ (by rwa [List.length_replicate]),
      List.getD_replicate _ hn]
  have hsplit (before after : List (Byte × ℕ)) (hframes : frames = before ++ after) :
      Ready (Clocked.state (step true) (step false i x) input (lead + (sent T before).length)) ∧
        received (step false i x) input (lead + (sent T before).length) = before.map Prod.fst := by
    have hbefore : ∀ n < (sent T before).length,
        (input (lead + n)).uartRx = (sent T before).getD n true := by
      intro n hn
      rw [hline, line, List.getD_append_right _ _ _ _ (by simp), List.length_replicate,
        Nat.add_sub_cancel_left, hframes, sent, List.flatMap_append, ← sent,
        List.getD_append _ _ _ _ hn]
    obtain ⟨hend, hbytes⟩ := ready_of_frames hbit hnear
      (fun f hf ↦ hgaps f (by rw [hframes]; exact List.mem_append_left _ hf)) hready hbefore
    rw [Clocked.state_add, received_add, hlead, hbytes]
    exact ⟨hend, rfl⟩
  refine ⟨fun m ↦ (hsplit _ _ (List.take_append_drop m frames).symm).2, fun n hn ↦ ?_,
    fun n b h ↦ uartrxDataReceived_latched _ h⟩
  obtain ⟨hend, hbytes⟩ := hsplit frames [] (List.append_nil _).symm
  obtain ⟨r, rfl⟩ := Nat.exists_eq_add_of_le hn
  have hrest := ready_of_idle (fun k ↦ input (lead + (sent T frames).length + k)) (n := r) hend
    fun k _ ↦ by
      rw [hline, line, List.getD_eq_default _ _ (by simp)]
  rw [received_add, hbytes, hrest.2, List.append_nil]

end Frames

/-! ## The sender has the same bit time -/

theorem near_self (hbit : 2 ≤ bitTime) : Near bitTime bitTime := by
  refine ⟨by omega, ?_, ?_⟩
  · omega
  · omega

/-- The next frame may follow at once. -/
theorem spaced_self (hbit : 5 ≤ bitTime) : Spaced bitTime bitTime 0 := by
  unfold Spaced
  omega

def twoBytes : List (Byte × ℕ) := [(0x55, 0), (0xff, 0)]

def hearTwoBytes (n : ℕ) : Input := cycle ⟨false, 0, 0, 0, 0⟩ (line 5 1 twoBytes n)

theorem receives_twoBytes :
    received (step false (hearTwoBytes 0) (unknown 5)) hearTwoBytes 101 = [0x55, 0xff] :=
  (receives (Nat.le_add_left 2 3) (near_self (Nat.le_add_left 2 3)) twoBytes
    (fun f hf ↦ by
      rcases List.mem_pair.mp hf with rfl | rfl
      · exact spaced_self le_rfl
      · exact spaced_self le_rfl) 1 (hearTwoBytes 0) (unknown 5) fun _ ↦ rfl).2.1 101 le_rfl

end TangNano.Uart
