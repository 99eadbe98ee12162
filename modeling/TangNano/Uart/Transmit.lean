import TangNano.Library.Framing
import TangNano.Uart.Model

/-!
# Transmission

A byte stored when `UART_OUT` reads -1 is put on the line as one frame.
-/

namespace TangNano.Uart

open Ramio Framing

variable {bitTime : ℕ}

/-- The byte that a request stores to the transmitter. -/
def stored (i : Input) : Option Byte :=
  if Stores addressUartOut i then some (i.request.dataIn.extractLsb' 0 8) else none

/-- A frame starts in the cycle after a store. -/
def starts (input : ℕ → Input) : ℕ → Option Byte
  | 0 => none
  | n + 1 => stored (input n)

theorem stored_ne_none {i : Input} : stored i ≠ none ↔ Stores addressUartOut i := by
  unfold stored
  split
  · next h => exact ⟨fun _ ↦ h, fun _ ↦ Option.some_ne_none _⟩
  · next h => exact ⟨fun hne ↦ absurd rfl hne, fun hs ↦ absurd hs h⟩

theorem stores_of_stored {i : Input} {b : Byte} (h : stored i = some b) :
    Stores addressUartOut i := by
  apply stored_ne_none.mp
  rw [h]
  exact Option.some_ne_none b

/-! ## Inside a frame -/

/-- The transmitter in cycle `j` of bit `k`. -/
inductive Uarttx.Sends : ℕ → ℕ → Uarttx bitTime → Prop
  | go {s} (hs : s.state = .idle) : Sends 0 0 s
  | start {j s} (hs : s.state = .startBit)
      (hc : s.bitTimeCounter = BitVec.ofNat _ (bitTime - 1 - j)) (hj : 0 < j) : Sends 0 j s
  | data {k j s} (hk : k < 8) (hs : s.state = .dataBits) (hn : s.bitCount = BitVec.ofNat 3 k)
      (hc : s.bitTimeCounter = BitVec.ofNat _ (bitTime - 1 - j)) : Sends (k + 1) j s
  | stop {j s} (hs : s.state = .stopBit)
      (hc : s.bitTimeCounter = BitVec.ofNat _ (bitTime - 1 - j)) : Sends 9 j s

namespace Uarttx

variable {s : Uarttx bitTime} {k j : ℕ}

theorem Sends.tx (h : s.Sends k j) (b : Byte) : s.tx b true = bit b k := by
  cases h with
  | go hs => rw [Uarttx.tx, hs]; rfl
  | start hs => rw [Uarttx.tx, hs]; rfl
  | @data k _ _ hk hs hn =>
      rw [Uarttx.tx, hs, hn]
      have hmod : (BitVec.ofNat 3 k).toNat = k := Nat.mod_eq_of_lt hk
      dsimp only
      rw [hmod, bit, if_neg (Nat.succ_ne_zero k), if_pos (Nat.succ_le_of_lt hk), Nat.add_sub_cancel]
  | stop hs => rw [Uarttx.tx, hs]; rfl

theorem Sends.busy (h : s.Sends k j) : s.busy true = true := by
  cases h with
  | go hs => rw [Uarttx.busy, hs]
  | start hs => rw [Uarttx.busy, hs]
  | data _ hs => rw [Uarttx.busy, hs]
  | stop hs => rw [Uarttx.busy, hs]

theorem Sends.next (h : s.Sends k j) (hj : j + 1 < bitTime) :
    (s.step true true).Sends k (j + 1) := by
  cases h with
  | go hs =>
      have hne : bitTime ≠ 1 := by omega
      refine .start ?_ ?_ Nat.one_pos
      · simp [step, hs, hne]
      · simp [step, hs, hne, Nat.sub_sub]
  | start hs hc =>
      obtain ⟨hne, hsub⟩ := counter_next le_rfl hj hc
      refine .start ?_ ?_ (Nat.succ_pos _)
      · simp [step, hs, hne]
      · simp [step, hs, hne, hsub]
  | data hk hs hn hc =>
      obtain ⟨hne, hsub⟩ := counter_next le_rfl hj hc
      refine .data hk ?_ ?_ ?_
      · simp [step, hs, hne]
      · simp [step, hs, hne, hn]
      · simp [step, hs, hne, hsub]
  | stop hs hc =>
      obtain ⟨hne, hsub⟩ := counter_next le_rfl hj hc
      refine .stop ?_ ?_
      · simp [step, hs, hne]
      · simp [step, hs, hsub]

theorem Sends.turn (h : s.Sends k j) (hj : j + 1 = bitTime) (hk : k < 9) :
    (s.step true true).Sends (k + 1) 0 := by
  cases h with
  | go hs =>
      have hone : bitTime = 1 := hj.symm
      refine .data (by omega) ?_ ?_ ?_
      · simp [step, hs, hone]
      · simp [step, hs, hone]
      · simp [step, hs, hone]
  | start hs hc =>
      have hzero := counter_last le_rfl hj hc
      refine .data (by omega) ?_ ?_ ?_
      · simp [step, hs, hzero]
      · simp [step, hs, hzero]
      · simp [step, hs, hzero]
  | @data k _ _ hk8 hs hn hc =>
      have hzero := counter_last le_rfl hj hc
      by_cases hlast : k = 7
      · subst hlast
        refine .stop ?_ ?_
        · simp [step, hs, hzero, hn]
        · simp [step, hs, hzero]
      · have hne : BitVec.ofNat 3 k ≠ 7#3 := fun h ↦ by
          have := congrArg BitVec.toNat h
          rw [BitVec.toNat_ofNat, Nat.mod_eq_of_lt hk8] at this
          exact hlast this
        refine .data (by omega) ?_ ?_ ?_
        · simp [step, hs, hzero, hn, hne]
        · simp [step, hs, hzero, hn, BitVec.ofNat_add]
        · simp [step, hs, hzero]
  | stop => exact absurd hk (Nat.lt_irrefl 9)

theorem Sends.last (h : s.Sends 9 j) (hj : j + 1 = bitTime) :
    (s.step true true).state = .waitForGoLow := by
  cases h with
  | data hk => exact absurd hk (Nat.lt_irrefl 8)
  | stop hs hc => simp [step, hs, counter_last le_rfl hj hc]

end Uarttx

/-! ## The handshake -/

/-- A frame is on the line and the register holds its byte. -/
structure Sending (b : Byte) (k j : ℕ) (x : State bitTime) : Prop where
  go : x.ramio.uarttxGo = true
  data : x.ramio.uarttxDataSending = 0#24 ++ b
  sends : x.uarttx.Sends k j

/-- The frame is over and not yet acknowledged. -/
structure Sent (b : Byte) (x : State bitTime) : Prop where
  go : x.ramio.uarttxGo = true
  data : x.ramio.uarttxDataSending = 0#24 ++ b
  waits : x.uarttx.state = .waitForGoLow

/-- The register reads -1. -/
structure Free (x : State bitTime) : Prop where
  go : x.ramio.uarttxGo = false
  data : x.ramio.uarttxDataSending = BitVec.allOnes 32
  waits : x.uarttx.state = .idle ∨ x.uarttx.state = .waitForGoLow

section Steps

variable {b : Byte} {k j : ℕ} {x : State bitTime} {i : Input}

theorem ramio_stores (h : Stores addressUartOut i) (x : State bitTime) :
    (step true i x).ramio.uarttxGo = true ∧
      (step true i x).ramio.uarttxDataSending = 0#24 ++ i.request.dataIn.extractLsb' 0 8 := by
  obtain ⟨haddress, hwrite⟩ := h
  have hne : ¬ i.request.writeType = 0#2 := hwrite
  simp [step, Ramio.step, haddress, hne]

theorem ramio_keeps (h : ¬ Stores addressUartOut i) (x : State bitTime)
    (hbusy : x.ramio.uarttxGo = true → x.uarttx.busy true = true) :
    (step true i x).ramio.uarttxGo = x.ramio.uarttxGo ∧
      (step true i x).ramio.uarttxDataSending = x.ramio.uarttxDataSending := by
  have hnot : ¬ (i.request.address = addressUartOut ∧ ¬ i.request.writeType = 0#2) := h
  cases hgo : x.ramio.uarttxGo with
  | false => simp [step, Ramio.step, hnot, hgo]
  | true => simp [step, Ramio.step, parts, hnot, hgo, hbusy hgo]

theorem Sending.tx (h : Sending b k j x) : uartTx x = bit b k := by
  have hbyte : (0#24 ++ b).extractLsb' 0 8 = b := by
    apply BitVec.eq_of_getLsbD_eq
    intro n hn
    rw [BitVec.getLsbD_extractLsb', BitVec.getLsbD_append]
    simp [hn]
  rw [uartTx, h.data, h.go, hbyte]
  exact h.sends.tx b

theorem Sent.tx (h : Sent b x) : uartTx x = true := by rw [uartTx, Uarttx.tx, h.waits]

theorem Free.tx (h : Free x) : uartTx x = true := by
  rw [uartTx, Uarttx.tx, h.go]
  rcases h.waits with hs | hs
  · rw [hs]; rfl
  · rw [hs]

theorem Sending.next (h : Sending b k j x) (hj : j + 1 < bitTime)
    (hstore : ¬ Stores addressUartOut i) : Sending b k (j + 1) (step true i x) := by
  obtain ⟨hgo, hdata⟩ := ramio_keeps hstore x fun _ ↦ h.sends.busy
  refine ⟨hgo.trans h.go, hdata.trans h.data, ?_⟩
  rw [step, h.go]
  exact h.sends.next hj

theorem Sending.turn (h : Sending b k j x) (hj : j + 1 = bitTime) (hk : k < 9)
    (hstore : ¬ Stores addressUartOut i) : Sending b (k + 1) 0 (step true i x) := by
  obtain ⟨hgo, hdata⟩ := ramio_keeps hstore x fun _ ↦ h.sends.busy
  refine ⟨hgo.trans h.go, hdata.trans h.data, ?_⟩
  rw [step, h.go]
  exact h.sends.turn hj hk

theorem Sending.last (h : Sending b 9 j x) (hj : j + 1 = bitTime)
    (hstore : ¬ Stores addressUartOut i) : Sent b (step true i x) := by
  obtain ⟨hgo, hdata⟩ := ramio_keeps hstore x fun _ ↦ h.sends.busy
  refine ⟨hgo.trans h.go, hdata.trans h.data, ?_⟩
  rw [step, h.go]
  exact h.sends.last hj

theorem Sent.next (h : Sent b x) (hstore : ¬ Stores addressUartOut i) : Free (step true i x) := by
  have hnot : ¬ (i.request.address = addressUartOut ∧ ¬ i.request.writeType = 0#2) := hstore
  have hbusy : x.uarttx.busy true = false := by rw [Uarttx.busy, h.waits]
  refine ⟨?_, ?_, .inr ?_⟩
  · simp [step, Ramio.step, parts, hnot, h.go, hbusy]
  · simp [step, Ramio.step, parts, hnot, h.go, hbusy]
  · simp [step, Uarttx.step, h.waits, h.go]

/-- In either state the transmitter is idle in the next cycle. -/
theorem Free.idle (h : Free x) : (step true i x).uarttx.state = .idle := by
  rw [step, h.go]
  rcases h.waits with hs | hs
  · simp [Uarttx.step, hs]
  · simp [Uarttx.step, hs]

theorem Free.next (h : Free x) (hstore : ¬ Stores addressUartOut i) : Free (step true i x) := by
  obtain ⟨hgo, hdata⟩ := ramio_keeps hstore x
    fun hgo ↦ absurd (h.go.symm.trans hgo) Bool.false_ne_true
  exact ⟨hgo.trans h.go, hdata.trans h.data, .inl h.idle⟩

theorem Free.store (h : Free x) (hstore : stored i = some b) : Sending b 0 0 (step true i x) := by
  have hstores : Stores addressUartOut i := stores_of_stored hstore
  rw [stored, if_pos hstores, Option.some_inj] at hstore
  obtain ⟨hgo, hdata⟩ := ramio_stores hstores x
  exact ⟨hgo, hdata.trans (by rw [hstore]), .go h.idle⟩

theorem free_reset (i : Input) (x : State bitTime) : Free (step false i x) :=
  ⟨rfl, rfl, .inl rfl⟩

end Steps

/-! ## The line -/

/-- The state `d` cycles after the frame has begun. -/
def Underway (b : Byte) (d : ℕ) (x : State bitTime) : Prop :=
  (∃ k < 10, ∃ j < bitTime, d = k * bitTime + j ∧ Sending b k j x) ∨ d = 10 * bitTime ∧ Sent b x

section Underway

variable {b : Byte} {d : ℕ} {x : State bitTime} {i : Input}

theorem Underway.le (h : Underway b d x) : d ≤ 10 * bitTime := by
  rcases h with ⟨k, hk, j, hj, rfl, -⟩ | ⟨rfl, -⟩
  · exact (lt_of_bit hk hj).le
  · exact le_rfl

theorem Underway.data_ne (h : Underway b d x) :
    x.ramio.uarttxDataSending ≠ BitVec.allOnes 32 := by
  rcases h with ⟨k, -, j, -, -, h⟩ | ⟨-, h⟩
  · rw [h.data]
    exact byte_ne_allOnes b
  · rw [h.data]
    exact byte_ne_allOnes b

theorem Underway.next (h : Underway b d x) (hstore : ¬ Stores addressUartOut i) :
    Underway b (d + 1) (step true i x) ∨ d = 10 * bitTime ∧ Free (step true i x) := by
  rcases h with ⟨k, hk, j, hj, rfl, h⟩ | ⟨rfl, h⟩
  · left
    by_cases hlast : j + 1 = bitTime
    · by_cases hstop : k < 9
      · refine .inl ⟨k + 1, by omega, 0, by omega, ?_, h.turn hlast hstop hstore⟩
        rw [Nat.add_assoc, hlast, Nat.succ_mul, Nat.add_zero]
      · obtain rfl : k = 9 := by omega
        exact .inr ⟨by omega, h.last hlast hstore⟩
    · exact .inl ⟨k, hk, j + 1, by omega, rfl, h.next (by omega) hstore⟩
  · exact .inr ⟨rfl, h.next hstore⟩

end Underway

section Run

variable (i : Input) (x : State bitTime) (input : ℕ → Input)

/-- Every store comes after a load of -1 that no other store has followed. -/
def WaitsForSent : Prop :=
  ∀ n, Stores addressUartOut (input n) → ∃ m < n, Loads addressUartOut (input m) ∧
    dataOut (input m) (run i x input m) = BitVec.allOnes 32 ∧
    ∀ u, m ≤ u → u < n → ¬ Stores addressUartOut (input u)

/-- All frames are over or the last one is underway. -/
def Orderly (n : ℕ) : Prop :=
  (Free (run i x input n) ∧
    ∀ t < n, Stores addressUartOut (input t) → t + 10 * bitTime + 2 ≤ n) ∨
  ∃ t b d, stored (input t) = some b ∧ n = t + 1 + d ∧
    (∀ u, t < u → u < n → ¬ Stores addressUartOut (input u)) ∧ Underway b d (run i x input n)

variable {i x input}

/-- What is underway is not disturbed. -/
theorem not_stores {t n d : ℕ} {b : Byte} (hwaits : WaitsForSent i x input)
    (horderly : ∀ m < n, Orderly i x input m) (ht : stored (input t) = some b)
    (hn : n = t + 1 + d) (hd : d ≤ 10 * bitTime) : ¬ Stores addressUartOut (input n) := by
  intro hstores
  have htstores : Stores addressUartOut (input t) := stores_of_stored ht
  obtain ⟨m, hm, hloads, hdata, hnone⟩ := hwaits n hstores
  have htm : t < m := by
    by_contra hle
    exact hnone t (by omega) (by omega) htstores
  rw [dataOut_uartOut _ hloads] at hdata
  rcases horderly m hm with ⟨-, hover⟩ | ⟨_, _, _, -, -, -, hunderway⟩
  · have := hover t htm htstores
    omega
  · exact hunderway.data_ne hdata

theorem orderly (hbit : 1 ≤ bitTime) (hwaits : WaitsForSent i x input) (n : ℕ) :
    Orderly i x input n := by
  induction n using Nat.strong_induction_on with
  | _ n ih =>
    cases n with
    | zero => exact .inl ⟨free_reset i x, fun t ht ↦ absurd ht (Nat.not_lt_zero t)⟩
    | succ n =>
        rcases ih n (Nat.lt_succ_self n) with ⟨hfree, hover⟩ | ⟨t, b, d, ht, hn, hnone, hunderway⟩
        · cases hstored : stored (input n) with
          | none =>
              have hstore : ¬ Stores addressUartOut (input n) :=
                fun h ↦ stored_ne_none.mpr h hstored
              refine .inl ⟨hfree.next hstore, fun t ht htstores ↦ ?_⟩
              rcases Nat.lt_succ_iff_lt_or_eq.mp ht with hlt | rfl
              · exact (hover t hlt htstores).trans (Nat.le_succ n)
              · exact absurd htstores hstore
          | some b =>
              refine .inr ⟨n, b, 0, hstored, rfl, fun u _ _ ↦ by omega, .inl ?_⟩
              exact ⟨0, Nat.succ_pos 9, 0, hbit, by omega, hfree.store hstored⟩
        · have hstore := not_stores hwaits (fun m hm ↦ ih m (by omega)) ht hn hunderway.le
          rcases hunderway.next (i := input n) hstore with hnext | ⟨rfl, hfree⟩
          · refine .inr ⟨t, b, d + 1, ht, by omega, fun u htu hu ↦ ?_, hnext⟩
            rcases Nat.lt_succ_iff_lt_or_eq.mp hu with hlt | rfl
            · exact hnone u htu hlt
            · exact hstore
          · refine .inl ⟨hfree, fun u hu hustores ↦ ?_⟩
            have hut : u ≤ t := by
              by_contra hlt
              rcases Nat.lt_succ_iff_lt_or_eq.mp hu with hun | rfl
              · exact hnone u (by omega) hun hustores
              · exact hstore hustores
            omega

/-- What is stored next comes after the frame. -/
theorem stores_apart (hbit : 1 ≤ bitTime) (hwaits : WaitsForSent i x input) {t u : ℕ}
    (ht : Stores addressUartOut (input t)) (hu : Stores addressUartOut (input u)) (htu : t < u) :
    t + 10 * bitTime + 2 ≤ u := by
  rcases orderly hbit hwaits u with ⟨-, hover⟩ | ⟨t', b, d, ht', hn, -, hunderway⟩
  · exact hover t htu ht
  · exact absurd hu (not_stores hwaits (fun m _ ↦ orderly hbit hwaits m) ht' hn hunderway.le)

theorem holds (hbit : 1 ≤ bitTime) (hwaits : WaitsForSent i x input) {t : ℕ} {b : Byte}
    (ht : stored (input t) = some b) :
    Holds bitTime (fun n ↦ uartTx (run i x input n)) (t + 1) b := by
  have htstores : Stores addressUartOut (input t) := stores_of_stored ht
  intro k hk j hj
  have hlt := lt_of_bit hk hj
  dsimp only
  rcases orderly hbit hwaits (t + 1 + (k * bitTime + j)) with
    ⟨-, hover⟩ | ⟨t', b', d, ht', hn, hnone, hunderway⟩
  · have := hover t (by omega) htstores
    omega
  · have htstores' : Stores addressUartOut (input t') := stores_of_stored ht'
    obtain rfl : t = t' := by
      rcases Nat.lt_trichotomy t t' with hless | heq | hless
      · have := stores_apart hbit hwaits htstores htstores' hless
        omega
      · exact heq
      · exact absurd htstores (hnone t hless (by omega))
    obtain rfl : b = b' := Option.some_inj.mp (ht.symm.trans ht')
    obtain rfl : k * bitTime + j = d := by omega
    rcases hunderway with ⟨k', hk', j', hj', heq, hsending⟩ | ⟨heq, -⟩
    · obtain ⟨rfl, rfl⟩ := bit_unique hj hj' heq
      exact hsending.tx
    · omega

/-- The line carries one frame for each store, and -1 is read only when all of
them are over. -/
theorem transmits (hbit : 1 ≤ bitTime) (hwaits : WaitsForSent i x input) :
    Carries bitTime (fun n ↦ uartTx (run i x input n)) (starts input) ∧
      ∀ n, Loads addressUartOut (input n) →
        dataOut (input n) (run i x input n) = BitVec.allOnes 32 →
        ∀ t < n, Stores addressUartOut (input t) → t + 10 * bitTime < n := by
  refine ⟨⟨?_, ?_, ?_⟩, ?_⟩
  · intro t b ht
    cases t with
    | zero => cases ht
    | succ t => exact holds hbit hwaits ht
  · intro t u ht hu htu
    cases t with
    | zero => exact absurd rfl ht
    | succ t =>
        cases u with
        | zero => exact absurd rfl hu
        | succ u =>
            have := stores_apart hbit hwaits (stored_ne_none.mp ht) (stored_ne_none.mp hu)
              (Nat.lt_of_succ_lt_succ htu)
            omega
  · intro n hover
    rcases orderly hbit hwaits n with ⟨hfree, -⟩ | ⟨t, b, d, ht, hn, -, hunderway⟩
    · exact hfree.tx
    · have hstarts : starts input (t + 1) ≠ none := by
        rw [starts, ht]
        exact Option.some_ne_none b
      have hend := hover (t + 1) (by omega) hstarts
      rcases hunderway with ⟨k, hk, j, hj, rfl, -⟩ | ⟨-, hsent⟩
      · have := lt_of_bit hk hj
        omega
      · exact hsent.tx
  · intro n hloads hdata t ht hstores
    rw [dataOut_uartOut _ hloads] at hdata
    rcases orderly hbit hwaits n with ⟨-, hover⟩ | ⟨_, _, _, -, -, -, hunderway⟩
    · have := hover t ht hstores
      omega
    · exact absurd hdata hunderway.data_ne

end Run

/-! ## One byte -/

/-- The byte 0xff is stored in the cycle after the first load. -/
def sendByte (n : ℕ) : Input :=
  if n = 1 then cycle ⟨true, 0, 0b01, addressUartOut, 0xff⟩ true
  else cycle ⟨true, 0b111, 0, addressUartOut, 0⟩ true

theorem waitsForSent_sendByte : WaitsForSent (sendByte 0) (unknown 2) sendByte := by
  intro n hn
  have hone : n = 1 := by
    by_contra hne
    rw [sendByte, if_neg hne] at hn
    exact hn.2 rfl
  subst hone
  refine ⟨0, Nat.one_pos, by decide, by decide, fun u _ hu ↦ ?_⟩
  obtain rfl : u = 0 := by omega
  decide

theorem transmits_sendByte :
    Carries 2 (fun n ↦ uartTx (run (sendByte 0) (unknown 2) sendByte n)) (starts sendByte) ∧
      ∀ n, Loads addressUartOut (sendByte n) →
        dataOut (sendByte n) (run (sendByte 0) (unknown 2) sendByte n) = BitVec.allOnes 32 →
        ∀ t < n, Stores addressUartOut (sendByte t) → t + 10 * 2 < n :=
  transmits (Nat.le_succ 1) waitsForSent_sendByte

example : (List.range 24).map (fun n ↦ uartTx (run (sendByte 0) (unknown 2) sendByte n)) =
    (List.range 24).map (line 2 2 [(0xff, 0)]) := by decide

end TangNano.Uart
