import TangNano.Library.Mailbox
import TangNano.Uart.Receive

/-!
# Handing bytes over to the core

`uartrx_data_received` is a mailbox for the byte that the receiver has
completed, and the receiver completes no other byte before this one has been
copied.
-/

namespace TangNano.Uart

open Ramio Mailbox

variable {bitTime : ℕ}

/-! ## One copy of each byte -/

/-- The byte that is complete at the end of the cycle. -/
def completed (x : State bitTime) : Option Byte :=
  if x.uartrx.state = .stopBit ∧ x.uartrx.bitCounter = 0 then some x.uartrx.data else none

/-- The handshake with the receiver. -/
structure Shakes (x : State bitTime) : Prop where
  ready : x.uartrx.dataReady = true ↔ x.uartrx.state = .waitForGoLow
  go : x.ramio.uartrxGo = false → x.uartrx.state = .waitForGoLow

theorem shakes_reset (i : Input) (x : State bitTime) : Shakes (step false i x) :=
  ⟨iff_of_false Bool.false_ne_true (by rintro ⟨⟩), by rintro ⟨⟩⟩

/-- Nothing is complete before the end of the stop bit. -/
theorem Uartrx.step_incomplete {s : Uartrx bitTime} (hwaits : s.state ≠ .waitForGoLow)
    (hstop : ¬ (s.state = .stopBit ∧ s.bitCounter = 0)) (hready : s.dataReady = false) (rx : Bool) :
    (s.step true rx true).state ≠ .waitForGoLow ∧ (s.step true rx true).dataReady = false := by
  unfold Uartrx.step
  cases hs : s.state with
  | idle =>
      cases rx <;> by_cases hone : bitTime = 1 <;> simp [hs, hready, hone]
  | startBit =>
      by_cases hzero : s.bitCounter = 0#_ <;> simp [hready, hzero]
  | dataBits =>
      by_cases hzero : s.bitCounter = 0#_ <;> by_cases hlast : s.bitCount = 7#4 <;>
        simp [hready, hzero, hlast]
  | stopBit =>
      have hne : ¬ s.bitCounter = 0#_ := fun hzero ↦ hstop ⟨hs, hzero⟩
      simp [hready, hne]
  | waitForGoLow => exact absurd hs hwaits

/-- What is completed is copied in the next cycle and nothing else is. -/
theorem Shakes.next {x : State bitTime} (h : Shakes x) (i : Input) :
    Shakes (step true i x) ∧ latched (step true i x) = completed x := by
  by_cases hwaits : x.uartrx.state = .waitForGoLow
  · have hready := h.ready.mpr hwaits
    have hnot : ¬ (x.uartrx.state = .stopBit ∧ x.uartrx.bitCounter = 0) := by
      rw [hwaits]
      rintro ⟨⟨⟩, -⟩
    have hnone : completed x = none := if_neg hnot
    rw [hnone]
    cases hgo : x.ramio.uartrxGo with
    | true =>
        have hdone : Done x.uartrx.data x := ⟨hgo, hwaits, hready, rfl⟩
        have hack := hdone.next i
        have hstay : (step true i x).uartrx.dataReady = true := by
          simp [step, Uartrx.step, hwaits, hgo, hready]
        exact ⟨⟨iff_of_true hstay hack.waits, fun _ ↦ hack.waits⟩, hack.latched⟩
    | false =>
        have hready' := Acknowledged.next i ⟨hgo, hwaits⟩
        refine ⟨⟨?_, ?_⟩, latched_none hready'.ready⟩
        · rw [hready'.ready, hready'.waits]
          exact iff_of_false Bool.false_ne_true (by rintro ⟨⟩)
        · exact fun hgo' ↦ absurd (hready'.go.symm.trans hgo') (by rintro ⟨⟩)
  · have hready : x.uartrx.dataReady = false := by
      rw [← Bool.not_eq_true, h.ready]
      exact hwaits
    have hgo : x.ramio.uartrxGo = true := by
      rw [← Bool.not_eq_false]
      exact fun hgo ↦ hwaits (h.go hgo)
    have hgo' := uartrxGo_next i hgo hready
    by_cases hstop : x.uartrx.state = .stopBit ∧ x.uartrx.bitCounter = 0
    · have hnext : (step true i x).uartrx.state = .waitForGoLow ∧
          (step true i x).uartrx.dataReady = true ∧
          (step true i x).uartrx.data = x.uartrx.data := by
        simp [step, Uartrx.step, hstop.1, hstop.2]
      refine ⟨⟨iff_of_true hnext.2.1 hnext.1, fun _ ↦ hnext.1⟩, ?_⟩
      rw [latched, hgo', hnext.2.1, hnext.2.2, completed, if_pos hstop]
      rfl
    · have hnext : (step true i x).uartrx.state ≠ .waitForGoLow ∧
          (step true i x).uartrx.dataReady = false := by
        rw [uartrx_next i hgo]
        exact Uartrx.step_incomplete hwaits hstop hready i.uartRx
      refine ⟨⟨?_, ?_⟩, ?_⟩
      · rw [hnext.2]
        exact iff_of_false Bool.false_ne_true hnext.1
      · exact fun hgo'' ↦ absurd (hgo'.symm.trans hgo'') (by rintro ⟨⟩)
      · rw [latched_none hnext.2, completed, if_neg hstop]

/-! ## The register -/

/-- The word in which a byte, if there is one, is handed over. -/
def word : Option Byte → Word
  | none => BitVec.allOnes 32
  | some b => 0#24 ++ b

/-- A request that takes a byte from the register. -/
def Clears (i : Input) : Prop := i.request.address = addressUartIn ∧ i.request.readType ≠ 0

/-- Requests that read the port are enabled. -/
def Enabled (i : Input) : Prop := Clears i → i.request.enable = true

theorem Enabled.loads_iff {i : Input} (h : Enabled i) : Loads addressUartIn i ↔ Clears i :=
  ⟨fun hloads ↦ hloads.2, fun hclears ↦ ⟨h hclears, hclears⟩⟩

theorem uartrxDataReceived_next {i : Input} (h : Enabled i) {x : State bitTime} {v : Option Byte}
    (hword : x.ramio.uartrxDataReceived = word v) :
    (step true i x).ramio.uartrxDataReceived =
      word ((latched x).or (if Loads addressUartIn i then none else v)) := by
  cases hlatched : latched x with
  | some b => exact uartrxDataReceived_latched i hlatched
  | none =>
      have hnot : ¬ (x.ramio.uartrxGo = true ∧ x.uartrx.dataReady = true) := fun hboth ↦ by
        rw [latched, hboth.1, hboth.2] at hlatched
        cases hlatched
      rw [Option.none_or]
      by_cases hclears : Clears i
      · rw [if_pos (h.loads_iff.mpr hclears)]
        have hne : ¬ i.request.readType = 0#3 := hclears.2
        simp [step, Ramio.step, parts, hnot, hclears.1, hne]
        rfl
      · rw [if_neg fun hloads ↦ hclears (h.loads_iff.mp hloads)]
        have hne : ¬ (i.request.address = addressUartIn ∧ ¬ i.request.readType = 0#3) := hclears
        simp [step, Ramio.step, parts, hnot, hne, hword]

section Run

variable (i : Input) (x : State bitTime) (input : ℕ → Input)

/-- The byte copied in each cycle. -/
def copied (n : ℕ) : Option Byte := latched (run i x input n)

/-- The words other than -1 that the loads of the first `n` cycles return. -/
def returned (n : ℕ) : List Word :=
  (List.range n).filterMap fun k ↦
    if Loads addressUartIn (input k) ∧ dataOut (input k) (run i x input k) ≠ BitVec.allOnes 32 then
      some (dataOut (input k) (run i x input k))
    else none

variable {i x input}

theorem uartrxDataReceived_held (h : ∀ n, Enabled (input n)) (n : ℕ) :
    (run i x input n).ramio.uartrxDataReceived =
      word (held (copied i x input) (fun n ↦ Loads addressUartIn (input n)) n) := by
  induction n with
  | zero => rfl
  | succ n ih => exact uartrxDataReceived_next (h n) ih

theorem returned_eq (h : ∀ n, Enabled (input n)) (n : ℕ) :
    returned i x input n =
      (handed (copied i x input) (fun n ↦ Loads addressUartIn (input n)) n).map (0#24 ++ ·) := by
  rw [returned, handed, List.map_filterMap]
  apply List.filterMap_congr
  intro k _
  by_cases hloads : Loads addressUartIn (input k)
  · rw [if_pos hloads, dataOut_uartIn _ hloads, uartrxDataReceived_held h k]
    cases hheld : held (copied i x input) (fun n ↦ Loads addressUartIn (input n)) k with
    | none => exact if_neg fun hboth ↦ hboth.2 rfl
    | some b => exact if_pos ⟨hloads, byte_ne_allOnes b⟩
  · rw [if_neg hloads, if_neg fun hboth ↦ hloads hboth.1]
    rfl

theorem shakes_run (n : ℕ) : Shakes (run i x input n) := by
  induction n with
  | zero => exact shakes_reset i x
  | succ n ih => exact (ih.next (input n)).1

theorem received_eq (n : ℕ) :
    (received (step false i x) input n).map some =
      (arrivals (copied i x input) n).map (copied i x input) := by
  rw [received, arrivals]
  induction List.range n with
  | nil => rfl
  | cons k l ih =>
      rw [List.filterMap_cons, List.filter_cons]
      cases hk : copied i x input k with
      | none =>
          have hlatched : latched (Clocked.state (step true) (step false i x) input k) = none := hk
          rw [hlatched]
          exact ih
      | some b =>
          have hlatched : latched (Clocked.state (step true) (step false i x) input k) = some b :=
            hk
          rw [hlatched, if_pos (Option.isSome_some), List.map_cons, List.map_cons, hk, ih]

/-- Each completed byte is copied once, and each copied byte is handed over at most
once, in order.  One that is not has been replaced by the next before a load
that came after it; if a load comes in time after each, all are handed over. -/
theorem hands_over_once (h : ∀ n, Enabled (input n)) :
    (copied i x input 0 = none ∧
      ∀ n, copied i x input (n + 1) = completed (run i x input n)) ∧
    ∀ n, ∃ taken : List ℕ, taken.Sublist (arrivals (copied i x input) n) ∧
      taken.map (fun a ↦ (copied i x input a).map (0#24 ++ ·)) =
        (returned i x input n).map some ∧
      (∀ a ∈ arrivals (copied i x input) n, a ∉ taken →
        ∀ m, a < m → m < n → Loads addressUartIn (input m) →
          ∃ c ∈ arrivals (copied i x input) n, a < c ∧ c < m) ∧
      ((∀ a ∈ arrivals (copied i x input) n, ∃ m, a < m ∧ m < n ∧
          Loads addressUartIn (input m) ∧
          ∀ c ∈ arrivals (copied i x input) n, a < c → m ≤ c) →
        returned i x input n = (received (step false i x) input n).map (0#24 ++ ·)) := by
  refine ⟨⟨rfl, fun n ↦ ((shakes_run n).next (input n)).2⟩, fun n ↦ ?_⟩
  obtain ⟨taken, hsub, htaken, hmissing, hall⟩ :=
    hands_over (copied i x input) (fun n ↦ Loads addressUartIn (input n)) n
  have hreturned := returned_eq (i := i) (x := x) h n
  refine ⟨taken, hsub, ?_, hmissing, fun hread ↦ ?_⟩
  · rw [hreturned, List.map_map]
    have hmap := congrArg (List.map (Option.map (0#24 ++ ·))) htaken
    rw [List.map_map, List.map_map] at hmap
    exact hmap
  · rw [hall hread, ← received_eq] at htaken
    rw [hreturned, List.map_injective_iff.mpr (Option.some_injective _) htaken]

end Run

/-! ## A byte that is read in every cycle -/

def readTwoBytes (n : ℕ) : Input :=
  cycle ⟨true, 0b111, 0, addressUartIn, 0⟩ (Framing.line 5 1 twoBytes n)

theorem hands_over_twoBytes :
    ∃ taken : List ℕ,
      taken.Sublist (arrivals (copied (readTwoBytes 0) (unknown 5) readTwoBytes) 60) ∧
      taken.map (fun a ↦ (copied (readTwoBytes 0) (unknown 5) readTwoBytes a).map (0#24 ++ ·)) =
        (returned (readTwoBytes 0) (unknown 5) readTwoBytes 60).map some := by
  obtain ⟨-, h⟩ := @hands_over_once 5 (readTwoBytes 0) (unknown 5) readTwoBytes fun _ _ ↦ rfl
  obtain ⟨taken, hsub, htaken, -⟩ := h 60
  exact ⟨taken, hsub, htaken⟩

example : returned (readTwoBytes 0) (unknown 5) readTwoBytes 60 = [0x55] := by decide +kernel

end TangNano.Uart
