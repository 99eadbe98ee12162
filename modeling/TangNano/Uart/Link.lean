import TangNano.Uart.Handover
import TangNano.Uart.Transmit

/-!
# Two boards on one line

The transmitter of one board drives the line of the receiver of another.  The
link delays what is stored by a fixed number of cycles, so a program that loads
often enough gets each byte once and in order.
-/

namespace TangNano.Uart

open Ramio Framing Mailbox

variable {bitTime T gap : ℕ}

/-! ## A line that carries frames -/

/-- The values of `f`, `d` cycles later. -/
def delayed {α : Type*} (d : ℕ) (f : ℕ → Option α) (n : ℕ) : Option α :=
  if d ≤ n then f (n - d) else none

theorem delayed_delayed {α : Type*} (d e : ℕ) (f : ℕ → Option α) :
    delayed d (delayed e f) = delayed (d + e) f := by
  funext n
  unfold delayed
  split_ifs with hd he hsum hsum
  · rw [Nat.sub_sub]
  · omega
  · omega
  · rfl
  · omega
  · rfl

theorem filterMap_delayed {α : Type*} (d : ℕ) (f : ℕ → Option α) (n : ℕ) :
    (List.range (d + n)).filterMap (delayed d f) = (List.range n).filterMap f := by
  have hfirst : (List.range d).filterMap (delayed d f) = [] := by
    rw [List.filterMap_eq_nil_iff]
    intro k hk
    exact if_neg (Nat.not_le.mpr (List.mem_range.mp hk))
  rw [List.range_add, List.filterMap_append, hfirst, List.nil_append, List.filterMap_map]
  apply List.filterMap_congr
  intro k _
  rw [Function.comp_apply, delayed, if_pos (Nat.le_add_right d k), Nat.add_sub_cancel_left]

theorem filterMap_range_prefix {α : Type*} (f : ℕ → Option α) {m n : ℕ} (h : m ≤ n) :
    (List.range m).filterMap f <+: (List.range n).filterMap f := by
  obtain ⟨k, rfl⟩ := Nat.exists_eq_add_of_le h
  rw [List.range_add, List.filterMap_append]
  exact List.prefix_append _ _

section Line

variable {frames : ℕ → Option Byte} {x : State bitTime} {input : ℕ → Input} {b : Byte}

theorem getD_cells_of_holds {line : ℕ → Bool} (gap : ℕ) (hT : 1 ≤ T) {t : ℕ}
    (hholds : Holds T line t b)
    (hidle : ∀ n, 10 * T ≤ n → n < 10 * T + gap → line (t + n) = true) {n : ℕ}
    (hn : n < 10 * T + gap) :
    line (t + n) = (cells T b ++ List.replicate gap true).getD n true := by
  by_cases hframe : n < 10 * T
  · have hk : n / T < 10 := (Nat.div_lt_iff_lt_mul hT).mpr hframe
    have hj : n % T < T := Nat.mod_lt n hT
    have hvalue := hholds (n / T) hk (n % T) hj
    rw [← getD_cells b hk hj (List.replicate gap true), Nat.div_add_mod'] at hvalue
    exact hvalue
  · rw [hidle n (Nat.le_of_not_lt hframe) hn,
      List.getD_append_right _ _ _ _ (by rw [length_cells]; omega),
      List.getD_replicate _ (by rw [length_cells]; omega)]

/-- In a frame one byte is handed over, and always in the same cycle. -/
theorem latched_of_frame (input : ℕ → Input) (hbit : 2 ≤ bitTime) (hnear : Near bitTime T)
    (hgap : Spaced bitTime T gap) (h : Ready x)
    (hholds : Holds T (fun n ↦ (input n).uartRx) 0 b)
    (hidle : ∀ n, 10 * T ≤ n → n < 10 * T + gap → (input n).uartRx = true) :
    Ready (Clocked.state (step true) x input (10 * T + gap)) ∧
      ∀ k < 10 * T + gap, latched (Clocked.state (step true) x input k) =
        if k = doneAfter bitTime then some b else none := by
  obtain ⟨hready, hone⟩ := ready_of_frame hbit hnear hgap h (b := b) fun n hn ↦ by
    have hvalue := getD_cells_of_holds gap hnear.pos hholds
      (fun m hm hlt ↦ by rw [Nat.zero_add]; exact hidle m hm hlt) hn
    rwa [Nat.zero_add] at hvalue
  have hbits : ∀ k < 10, ∀ j < T, (input (k * T + j)).uartRx = bit b k := by
    intro k hk j hj
    have hvalue := hholds k hk j hj
    rwa [Nat.zero_add] at hvalue
  have hstart : (input 0).uartRx = false := by
    have hzero := hbits 0 (Nat.succ_pos 9) 0 hnear.pos
    rwa [Nat.zero_mul] at hzero
  obtain ⟨hdone, hnone⟩ := done_of_ready (b := b) hbit h hstart fun k hk ↦ by
    obtain ⟨hle, hlt⟩ := sample_window hnear hk
    obtain ⟨j, hj⟩ := Nat.exists_eq_add_of_le hle
    rw [hj, hbits (k + 1) (by omega) j (by omega), bit, if_neg (Nat.succ_ne_zero k),
      if_pos (Nat.succ_le_of_lt hk), Nat.add_sub_cancel]
  refine ⟨hready, fun k hk ↦ ?_⟩
  rcases Nat.lt_trichotomy k (doneAfter bitTime) with hless | rfl | hmore
  · rw [if_neg hless.ne]
    exact List.filterMap_eq_nil_iff.mp hnone k (List.mem_range.mpr hless)
  · rw [if_pos rfl]
    exact hdone.latched
  · -- the frame leaves one byte, and this one has been handed over before
    obtain ⟨r, hr⟩ := Nat.exists_eq_add_of_le (show doneAfter bitTime + 1 ≤ 10 * T + gap by omega)
    rw [hr, received_add, received_add, hnone, received_one, hdone.latched] at hone
    have hrest : received (Clocked.state (step true) x input (doneAfter bitTime + 1))
        (fun k ↦ input (doneAfter bitTime + 1 + k)) r = [] := by
      simpa using hone
    obtain ⟨j, rfl⟩ := Nat.exists_eq_add_of_le (Nat.succ_le_of_lt hmore)
    rw [if_neg hmore.ne']
    have hcycle := List.filterMap_eq_nil_iff.mp hrest j (List.mem_range.mpr (by omega))
    rwa [← Clocked.state_add] at hcycle

/-- The next frame begins at the earliest after `width` cycles. -/
def Apart (width : ℕ) (frames : ℕ → Option Byte) : Prop :=
  ∀ t u, frames t ≠ none → frames u ≠ none → t < u → t + width ≤ u

/-- No frame is on its way. -/
def Between (width : ℕ) (frames : ℕ → Option Byte) (n : ℕ) : Prop :=
  ∀ t < n, frames t ≠ none → t + width ≤ n

theorem exists_between {width : ℕ} (hapart : Apart width frames) (n : ℕ) :
    ∃ m ≥ n, Between width frames m := by
  by_cases hover : Between width frames n
  · exact ⟨n, le_rfl, hover⟩
  · unfold Between at hover
    push Not at hover
    obtain ⟨t, ht, hframe, hlate⟩ := hover
    refine ⟨t + width, hlate.le, fun u hu huframe ↦ ?_⟩
    rcases Nat.lt_trichotomy u t with hless | rfl | hmore
    · exact (hapart u t huframe hframe hless).trans (Nat.le_add_right t width)
    · exact le_rfl
    · exact absurd (hapart t u hframe huframe hmore) (Nat.not_le.mpr hu)

theorem done_lt (hgap : Spaced bitTime T gap) : doneAfter bitTime + 2 ≤ 10 * T + gap := by
  unfold Spaced at hgap
  unfold doneAfter
  omega

theorem delayed_eq_none {d k : ℕ} (h : ∀ u, frames u ≠ none → k ≠ u + d) :
    delayed d frames k = none := by
  unfold delayed
  split
  · next hle =>
      by_contra hframe
      exact h _ hframe (Nat.sub_add_cancel hle).symm
  · rfl

/-- The receiver can see the next frame and has handed over those before. -/
structure Follows (x : State bitTime) (input : ℕ → Input) (frames : ℕ → Option Byte) (n : ℕ) :
    Prop where
  ready : Ready (Clocked.state (step true) x input n)
  bytes : ∀ k < n, latched (Clocked.state (step true) x input k) =
    delayed (doneAfter bitTime) frames k

theorem Follows.frame (hbit : 2 ≤ bitTime) (hnear : Near bitTime T) (hgap : Spaced bitTime T gap)
    (hline : Carries T (fun n ↦ (input n).uartRx) frames) (hapart : Apart (10 * T + gap) frames)
    {t : ℕ} (h : Follows x input frames t) (hframe : frames t ≠ none) :
    Follows x input frames (t + (10 * T + gap)) := by
  have hdone := done_lt hgap
  obtain ⟨b, hb⟩ := Option.ne_none_iff_exists'.mp hframe
  obtain ⟨hend, hone⟩ := latched_of_frame (fun k ↦ input (t + k)) hbit hnear hgap
    h.ready (b := b) (fun k hk j hj ↦ by
      rw [Nat.zero_add]
      exact hline.holds t b hb k hk j hj)
    fun k hk hlt ↦ hline.idle (t + k) fun u hu huframe ↦ by
      rcases Nat.lt_or_ge t u with hmore | hle
      · have := hapart t u hframe huframe hmore
        omega
      · omega
  rw [← Clocked.state_add] at hend
  refine ⟨hend, fun k hk ↦ ?_⟩
  rcases Nat.lt_or_ge k t with hless | hge
  · exact h.bytes k hless
  · obtain ⟨j, rfl⟩ := Nat.exists_eq_add_of_le hge
    rw [Clocked.state_add, hone j (by omega)]
    by_cases hj : j = doneAfter bitTime
    · rw [if_pos hj, hj, delayed, if_pos (Nat.le_add_left _ t), Nat.add_sub_cancel, hb]
    · rw [if_neg hj, delayed_eq_none]
      intro u huframe heq
      rcases Nat.lt_trichotomy u t with hu | rfl | hu
      · have := hapart u t huframe hframe hu
        omega
      · exact hj (Nat.add_left_cancel heq)
      · have := hapart t u hframe huframe hu
        omega

theorem Follows.idle (hgap : Spaced bitTime T gap)
    (hline : Carries T (fun n ↦ (input n).uartRx) frames) {n : ℕ} (h : Follows x input frames n)
    (hover : Between (10 * T + gap) frames n) (hnone : frames n = none) :
    Follows x input frames (n + 1) := by
  have hdone := done_lt hgap
  have hidle : (input n).uartRx = true := by
    refine hline.idle n fun t ht htframe ↦ ?_
    rcases Nat.lt_or_eq_of_le ht with hless | rfl
    · have := hover t hless htframe
      omega
    · exact absurd hnone htframe
  refine ⟨h.ready.idle hidle, fun k hk ↦ ?_⟩
  rcases Nat.lt_succ_iff_lt_or_eq.mp hk with hless | rfl
  · exact h.bytes k hless
  · -- the byte of a frame has been handed over long before the frame is over
    rw [latched_none h.ready.ready, delayed_eq_none]
    rintro u huframe rfl
    have hpos : 0 < doneAfter bitTime := by
      unfold doneAfter
      omega
    have := hover u (by omega) huframe
    omega

theorem follows (hbit : 2 ≤ bitTime) (hnear : Near bitTime T) (hgap : Spaced bitTime T gap)
    (hline : Carries T (fun n ↦ (input n).uartRx) frames) (hapart : Apart (10 * T + gap) frames)
    (h : Ready x) (n : ℕ) (hover : Between (10 * T + gap) frames n) :
    Follows x input frames n := by
  have hpos := hnear.pos
  induction n using Nat.strong_induction_on with
  | _ n ih =>
      by_cases hlast : ∃ t < n, frames t ≠ none ∧ n = t + (10 * T + gap)
      · obtain ⟨t, ht, hframe, rfl⟩ := hlast
        have hfollows := ih t ht fun u hu huframe ↦ hapart u t huframe hframe hu
        exact hfollows.frame hbit hnear hgap hline hapart hframe
      · cases n with
        | zero => exact ⟨h, fun k hk ↦ absurd hk (Nat.not_lt_zero k)⟩
        | succ m =>
            have hover' : Between (10 * T + gap) frames m := by
              intro t ht hframe
              have hend := hover t (Nat.lt_succ_of_lt ht) hframe
              have hne : m + 1 ≠ t + (10 * T + gap) := fun heq ↦
                hlast ⟨t, Nat.lt_succ_of_lt ht, hframe, heq⟩
              omega
            have hnone : frames m = none := by
              by_contra hframe
              have := hover m (Nat.lt_succ_self m) hframe
              omega
            exact (ih m (Nat.lt_succ_self m) hover').idle hgap hline hover' hnone

/-- The receiver delays the frames on the line. -/
theorem latched_delayed (hbit : 2 ≤ bitTime) (hnear : Near bitTime T)
    (hgap : Spaced bitTime T gap) (hline : Carries T (fun n ↦ (input n).uartRx) frames)
    (hapart : Apart (10 * T + gap) frames) (h : Ready x) (n : ℕ) :
    latched (Clocked.state (step true) x input n) = delayed (doneAfter bitTime) frames n := by
  obtain ⟨m, hm, hover⟩ := exists_between hapart (n + 1)
  exact (follows hbit hnear hgap hline hapart h m hover).bytes n hm

end Line

/-! ## The line of a transmitter -/

section Link

variable {i j : Input} {x : State T} {y : State bitTime} {input output : ℕ → Input}

/-- The bytes stored in the first `n` cycles. -/
def storedBytes (input : ℕ → Input) (n : ℕ) : List Byte :=
  (List.range n).filterMap fun k ↦ stored (input k)

theorem starts_eq_delayed (input : ℕ → Input) :
    starts input = delayed 1 fun n ↦ stored (input n) := by
  funext n
  cases n <;> rfl

theorem stores_of_starts {n : ℕ} (h : starts input n ≠ none) :
    ∃ t, n = t + 1 ∧ Stores addressUartOut (input t) := by
  cases n with
  | zero => exact absurd rfl h
  | succ t => exact ⟨t, rfl, stored_ne_none.mp h⟩

theorem apart_starts (hT : 1 ≤ T) (hwaits : WaitsForSent i x input) :
    Apart (10 * T + 2) (starts input) := by
  intro t u ht hu htu
  obtain ⟨t, rfl, htstores⟩ := stores_of_starts ht
  obtain ⟨u, rfl, hustores⟩ := stores_of_starts hu
  have := stores_apart hT hwaits htstores hustores (Nat.lt_of_succ_lt_succ htu)
  omega

/-- Long enough after the last store the line is 1. -/
theorem uartTx_of_over (hT : 1 ≤ T) (hwaits : WaitsForSent i x input) {n : ℕ}
    (hover : ∀ t ≤ n, starts input t ≠ none → t + 10 * T ≤ n) :
    uartTx (run i x input n) = true := by
  rcases orderly hT hwaits n with ⟨hfree, -⟩ | ⟨t, b, d, ht, rfl, -, hunderway⟩
  · exact hfree.tx
  · have hend := hover (t + 1) (Nat.le_add_right _ d) (by
      rw [starts, ht]
      exact Option.some_ne_none b)
    rcases hunderway with ⟨k, hk, m, hm, rfl, -⟩ | ⟨-, hsent⟩
    · exact absurd (lt_of_bit hk hm) (Nat.not_lt.mpr (Nat.le_of_add_le_add_left hend))
    · exact hsent.tx

theorem carries_starts (hT : 1 ≤ T) (hwaits : WaitsForSent i x input) :
    Carries T (fun n ↦ uartTx (run i x input n)) (starts input) where
  holds t b ht := by
    cases t with
    | zero => cases ht
    | succ t => exact holds hT hwaits ht
  apart t u ht hu htu := (Nat.le_add_right _ 2).trans (apart_starts hT hwaits t u ht hu htu)
  idle _ hover := uartTx_of_over hT hwaits hover

/-! ## The link -/

/-- From a store to the cycle in which the byte is copied on the other side. -/
def latency (bitTime : ℕ) : ℕ := doneAfter bitTime + 1

/-- The program on the other side loads again within `period` cycles. -/
def Polls (period : ℕ) (output : ℕ → Input) : Prop :=
  ∀ n, ∃ m, n < m ∧ m ≤ n + period ∧ Loads addressUartIn (output m)

section Delivery

variable (hbit : 2 ≤ bitTime) (hnear : Near bitTime T) (hgap : Spaced bitTime T 2)
  (hwaits : WaitsForSent i x input) (hline : ∀ n, (output n).uartRx = uartTx (run i x input n))
include hbit hnear hgap hwaits hline

theorem copied_delayed :
    copied j y output = delayed (latency bitTime) fun k ↦ stored (input k) := by
  have hcarries : Carries T (fun n ↦ (output n).uartRx) (starts input) := by
    rw [funext hline]
    exact carries_starts hnear.pos hwaits
  have hcopied : copied j y output = delayed (doneAfter bitTime) (starts input) := by
    funext n
    exact latched_delayed hbit hnear hgap hcarries (apart_starts hnear.pos hwaits)
      (ready_reset j y) n
  rw [hcopied, starts_eq_delayed, delayed_delayed, latency]

/-- A byte is loaded before the next one is copied. -/
theorem inTime {period : ℕ} (hperiod : period ≤ 10 * T + 2) (hpolls : Polls period output) :
    InTime (copied j y output) fun n ↦ Loads addressUartIn (output n) := by
  intro a c ha hc hac
  rw [copied_delayed hbit hnear hgap hwaits hline] at ha hc
  have hstored (n : ℕ) (hn : (delayed (latency bitTime) (fun k ↦ stored (input k)) n).isSome) :
      ∃ t, n = t + latency bitTime ∧ Stores addressUartOut (input t) := by
    unfold delayed at hn
    split at hn
    · next hle =>
        refine ⟨n - latency bitTime, (Nat.sub_add_cancel hle).symm, stored_ne_none.mp ?_⟩
        exact Option.isSome_iff_ne_none.mp hn
    · cases hn
  obtain ⟨t, rfl, ht⟩ := hstored a ha
  obtain ⟨u, rfl, hu⟩ := hstored c hc
  obtain ⟨m, hm, hle, hloads⟩ := hpolls (t + latency bitTime)
  have := stores_apart hnear.pos hwaits ht hu (Nat.lt_of_add_lt_add_right hac)
  exact ⟨m, hm, by omega, hloads⟩

variable (henabled : ∀ n, Enabled (output n)) {period : ℕ} (hperiod : period ≤ 10 * T + 2)
  (hpolls : Polls period output)
include henabled hperiod hpolls

theorem returned_begins (n : ℕ) :
    returned j y output n <+: (storedBytes input n).map (0#24 ++ ·) := by
  have hintime := inTime (j := j) (y := y) hbit hnear hgap hwaits hline hperiod hpolls
  have hhanded := List.prefix_append
    (handed (copied j y output) (fun n ↦ Loads addressUartIn (output n)) n)
    (held (copied j y output) (fun n ↦ Loads addressUartIn (output n)) n).toList
  rw [← hintime.arrived] at hhanded
  have hlater := filterMap_range_prefix (copied j y output) (Nat.le_add_left n (latency bitTime))
  rw [copied_delayed hbit hnear hgap hwaits hline, filterMap_delayed,
    ← copied_delayed (j := j) (y := y) hbit hnear hgap hwaits hline] at hlater
  rw [returned_eq henabled]
  exact (hhanded.trans hlater).map _

theorem begins_returned (n : ℕ) : (storedBytes input n).map (0#24 ++ ·) <+:
    returned j y output (n + latency bitTime + period + 1) := by
  have hintime := inTime (j := j) (y := y) hbit hnear hgap hwaits hline hperiod hpolls
  obtain ⟨m, hm, hle, hloads⟩ := hpolls (n + latency bitTime)
  have hread : handed (copied j y output) (fun n ↦ Loads addressUartIn (output n)) (m + 1) =
      (List.range m).filterMap (copied j y output) := hintime.read hloads
  have hearlier := filterMap_range_prefix (copied j y output)
    (show latency bitTime + n ≤ m by omega)
  rw [← hread, copied_delayed hbit hnear hgap hwaits hline, filterMap_delayed,
    ← copied_delayed (j := j) (y := y) hbit hnear hgap hwaits hline] at hearlier
  have hlater : handed (copied j y output) (fun n ↦ Loads addressUartIn (output n)) (m + 1) <+:
      handed (copied j y output) (fun n ↦ Loads addressUartIn (output n))
        (n + latency bitTime + period + 1) := filterMap_range_prefix _ (by omega)
  rw [returned_eq henabled]
  exact (hearlier.trans hlater).map _

end Delivery

/-- Two boards on one line.  The program on one side stores to `UART_OUT` when it
reads -1 there; the one on the other side loads from `UART_IN` at least once in
the time of a frame.  At every moment the loads have returned, besides -1, the
first bytes that have been stored, and a byte comes within a fixed time. -/
theorem delivers (hbit : 2 ≤ bitTime) (hnear : Near bitTime T) (hgap : Spaced bitTime T 2)
    (hwaits : WaitsForSent i x input) (hline : ∀ n, (output n).uartRx = uartTx (run i x input n))
    (henabled : ∀ n, Enabled (output n)) {period : ℕ} (hperiod : period ≤ 10 * T + 2)
    (hpolls : Polls period output) (n : ℕ) :
    returned j y output n <+: (storedBytes input n).map (0#24 ++ ·) ∧
      (storedBytes input n).map (0#24 ++ ·) <+:
        returned j y output (n + latency bitTime + period + 1) :=
  ⟨returned_begins hbit hnear hgap hwaits hline henabled hperiod hpolls n,
    begins_returned hbit hnear hgap hwaits hline henabled hperiod hpolls n⟩

/-! ## One byte -/

/-- The line of the board that sends one byte, and a load in every cycle. -/
def hearByte (n : ℕ) : Input :=
  cycle ⟨true, 0b111, 0, addressUartIn, 0⟩ (uartTx (run (sendByte 0) (unknown 2) sendByte n))

theorem delivers_sendByte :
    returned (hearByte 0) (unknown 2) hearByte 2 <+: [0xff] ∧
      [0xff] <+: returned (hearByte 0) (unknown 2) hearByte (2 + latency 2 + 1 + 1) :=
  delivers le_rfl (near_self le_rfl) (by unfold Spaced; decide) waitsForSent_sendByte
    (fun _ ↦ rfl) (fun _ _ ↦ rfl) (by decide)
    (fun n ↦ ⟨n + 1, Nat.lt_succ_self n, le_rfl, rfl, rfl, show (0b111 : BitVec 3) ≠ 0 by decide⟩) 2

end Link

end TangNano.Uart
