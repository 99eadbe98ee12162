import TangNano.Uart.Link

/-!
# The drivers of the UART

`uart_send_cstr` waits for -1 in `UART_OUT` before each character, and
`uart_read_char` returns what it loads from `UART_IN` unless that is -1.  A
program makes its accesses when it likes.
-/

namespace TangNano.Uart

open Ramio

/-! ## Sending -/

/-- `uart_send_cstr` between two accesses: the rest of the string and whether -1 has
been loaded. -/
structure SendCstr where
  str : List Byte
  sent : Bool

namespace SendCstr

/-- The next access; there is none after the string. -/
def request (p : SendCstr) : Option Request :=
  match p.str with
  | [] => none
  | ch :: _ =>
      if p.sent then some ⟨true, 0, 0b11, addressUartOut, ch.setWidth 32⟩
      else some ⟨true, 0b111, 0, addressUartOut, 0⟩

def next (data : Word) (p : SendCstr) : SendCstr :=
  match p.str with
  | [] => p
  | _ :: str => if p.sent then ⟨str, false⟩ else { p with sent := data = BitVec.allOnes 32 }

end SendCstr

/-- A cycle in which the program may make an access; otherwise there is the given
request. -/
structure Slot where
  acts : Bool
  input : Input

/-- A board that sends a string. -/
structure Host (T : ℕ) where
  uart : State T
  program : SendCstr

namespace Host

variable {T : ℕ}

def input (e : Slot) (h : Host T) : Input :=
  match h.program.request with
  | some request => if e.acts then { e.input with request } else e.input
  | none => e.input

def step (e : Slot) (h : Host T) : Host T where
  uart := Uart.step true (h.input e) h.uart
  program := if e.acts then h.program.next (dataOut (h.input e) h.uart) else h.program

def run (i : Input) (x : State T) (str : List Byte) (slots : ℕ → Slot) : ℕ → Host T :=
  Clocked.state step ⟨Uart.step false i x, ⟨str, false⟩⟩ slots

end Host

section Run

variable {T : ℕ} (i : Input) (x : State T) (str : List Byte) (slots : ℕ → Slot)

/-- What the UART of the board is given. -/
def inputs (n : ℕ) : Input := (Host.run i x str slots n).input (slots n)

theorem run_succ (n : ℕ) :
    Host.run i x str slots (n + 1) = (Host.run i x str slots n).step (slots n) := rfl

theorem uart_run (n : ℕ) : (Host.run i x str slots n).uart = run i x (inputs i x str slots) n := by
  induction n with
  | zero => rfl
  | succ n ih =>
      have hstep : (Host.run i x str slots (n + 1)).uart =
          step true (inputs i x str slots n) (Host.run i x str slots n).uart := rfl
      rw [hstep, ih]
      rfl

end Run

/-! ## One cycle -/

section Steps

variable {T : ℕ} {h : Host T} {e : Slot} {ch : Byte} {rest : List Byte}

/-- What the program does in a cycle. -/
inductive Acts (e : Slot) (h : Host T) : Prop
  | rests (hinput : h.input e = e.input) (hprogram : (h.step e).program = h.program)
      (hidle : e.acts = true → h.program.str = [])
  | loads (hacts : e.acts = true) (ch : Byte) (rest : List Byte) (hstr : h.program.str = ch :: rest)
      (hsent : h.program.sent = false)
      (hinput : h.input e = { e.input with request := ⟨true, 0b111, 0, addressUartOut, 0⟩ })
      (hprogram : (h.step e).program =
        ⟨ch :: rest, dataOut (h.input e) h.uart = BitVec.allOnes 32⟩)
  | stores (hacts : e.acts = true) (ch : Byte) (rest : List Byte)
      (hstr : h.program.str = ch :: rest) (hsent : h.program.sent = true)
      (hinput : h.input e =
        { e.input with request := ⟨true, 0, 0b11, addressUartOut, ch.setWidth 32⟩ })
      (hprogram : (h.step e).program = ⟨rest, false⟩)

theorem acts (e : Slot) (h : Host T) : Acts e h := by
  obtain ⟨uart, str, sent⟩ := h
  cases hacts : e.acts with
  | false =>
      refine .rests ?_ ?_ fun hcontra ↦ absurd (hacts.symm.trans hcontra) Bool.false_ne_true
      · unfold Host.input
        dsimp only
        split
        · rw [hacts]
          rfl
        · rfl
      · simp [Host.step, hacts]
  | true =>
      cases str with
      | nil => exact .rests rfl (by simp [Host.step, hacts, SendCstr.next]) fun _ ↦ rfl
      | cons ch rest =>
          cases sent with
          | false =>
              exact .loads hacts ch rest rfl rfl (by simp [Host.input, SendCstr.request, hacts])
                (by simp [Host.step, hacts, SendCstr.next])
          | true =>
              exact .stores hacts ch rest rfl rfl (by simp [Host.input, SendCstr.request, hacts])
                (by simp [Host.step, hacts, SendCstr.next])

theorem stores_char (i : Input) (ch : Byte) : Stores addressUartOut
    { i with request := ⟨true, 0, 0b11, addressUartOut, ch.setWidth 32⟩ } :=
  ⟨rfl, show (0b11 : BitVec 2) ≠ 0 by decide⟩

theorem stored_char (i : Input) (ch : Byte) :
    stored { i with request := ⟨true, 0, 0b11, addressUartOut, ch.setWidth 32⟩ } = some ch := by
  rw [stored, if_pos (stores_char i ch)]
  exact congrArg some (Bytes.byte_setWidth ch)

theorem stored_load (i : Input) :
    stored { i with request := ⟨true, 0b111, 0, addressUartOut, 0⟩ } = none :=
  if_neg fun hstores ↦ hstores.2 rfl

end Steps

/-! ## The run of a string -/

theorem storedBytes_succ (input : ℕ → Input) (n : ℕ) :
    storedBytes input (n + 1) = storedBytes input n ++ (stored (input n)).toList := by
  rw [storedBytes, storedBytes, List.range_succ, List.filterMap_append]
  cases hstored : stored (input n) <;> simp [hstored]

section Sending

variable {T : ℕ} {i : Input} {x : State T} {str : List Byte} {slots : ℕ → Slot}

/-- -1 has been loaded since the last store. -/
def Loaded (i : Input) (x : State T) (input : ℕ → Input) (n : ℕ) : Prop :=
  ∃ m < n, Loads addressUartOut (input m) ∧
    dataOut (input m) (run i x input m) = BitVec.allOnes 32 ∧
    ∀ u, m ≤ u → u < n → ¬ Stores addressUartOut (input u)

theorem Loaded.next {input : ℕ → Input} {n : ℕ} (h : Loaded i x input n)
    (hnot : ¬ Stores addressUartOut (input n)) : Loaded i x input (n + 1) := by
  obtain ⟨m, hm, hloads, hdata, hnone⟩ := h
  refine ⟨m, Nat.lt_succ_of_lt hm, hloads, hdata, fun u hmu hu ↦ ?_⟩
  rcases Nat.lt_succ_iff_lt_or_eq.mp hu with hless | rfl
  · exact hnone u hmu hless
  · exact hnot

theorem str_of_quiet {n : ℕ} (hnot : ¬ Stores addressUartOut (inputs i x str slots n)) :
    (Host.run i x str slots (n + 1)).program.str = (Host.run i x str slots n).program.str := by
  rw [run_succ]
  cases acts (slots n) (Host.run i x str slots n) with
  | rests _ hprogram => rw [hprogram]
  | loads _ ch rest hstr _ _ hprogram => rw [hprogram, hstr]
  | stores _ ch _ _ _ hinput =>
      rw [inputs, hinput] at hnot
      exact absurd (stores_char _ ch) hnot

theorem storedBytes_of_quiet {n : ℕ} (hnot : ¬ Stores addressUartOut (inputs i x str slots n)) :
    storedBytes (inputs i x str slots) (n + 1) ++ (Host.run i x str slots (n + 1)).program.str =
      storedBytes (inputs i x str slots) n ++ (Host.run i x str slots n).program.str := by
  have hnone : stored (inputs i x str slots n) = none := if_neg hnot
  rw [storedBytes_succ, hnone, Option.toList_none, List.append_nil, str_of_quiet hnot]

/-- What has been stored and what is left are the string. -/
structure Progress (i : Input) (x : State T) (str : List Byte) (slots : ℕ → Slot)
    (n : ℕ) : Prop where
  split : storedBytes (inputs i x str slots) n ++ (Host.run i x str slots n).program.str = str
  loaded : (Host.run i x str slots n).program.sent = true → Loaded i x (inputs i x str slots) n

variable (hother : ∀ n, ¬ Stores addressUartOut (slots n).input)
include hother

theorem stores_of_sent {n : ℕ} (hstores : Stores addressUartOut (inputs i x str slots n)) :
    (Host.run i x str slots n).program.sent = true := by
  cases acts (slots n) (Host.run i x str slots n) with
  | rests hinput =>
      rw [inputs, hinput] at hstores
      exact absurd hstores (hother n)
  | loads _ _ _ _ _ hinput =>
      rw [inputs, hinput] at hstores
      exact absurd (stored_load _) (stored_ne_none.mpr hstores)
  | stores _ _ _ _ hsent => exact hsent

theorem progress (n : ℕ) : Progress i x str slots n := by
  induction n with
  | zero => exact ⟨rfl, by rintro ⟨⟩⟩
  | succ n ih =>
      have hnext := run_succ i x str slots n
      cases acts (slots n) (Host.run i x str slots n) with
      | rests hinput hprogram =>
          have hnot : ¬ Stores addressUartOut (inputs i x str slots n) := by
            rw [inputs, hinput]
            exact hother n
          refine ⟨(storedBytes_of_quiet hnot).trans ih.split, fun hsent ↦ ?_⟩
          rw [hnext, hprogram] at hsent
          exact (ih.loaded hsent).next hnot
      | loads hacts ch rest hstr hsent hinput hprogram =>
          have hnot : ¬ Stores addressUartOut (inputs i x str slots n) := by
            rw [inputs, hinput]
            exact fun hstores ↦ stored_ne_none.mpr hstores (stored_load _)
          refine ⟨(storedBytes_of_quiet hnot).trans ih.split, fun hsent' ↦ ?_⟩
          rw [hnext, hprogram] at hsent'
          refine ⟨n, Nat.lt_succ_self n, ?_, ?_, fun u hnu hu ↦ ?_⟩
          · rw [inputs, hinput]
            exact ⟨rfl, rfl, show (0b111 : BitVec 3) ≠ 0 by decide⟩
          · rw [← uart_run]
            exact of_decide_eq_true hsent'
          · obtain rfl : u = n := by omega
            exact hnot
      | stores hacts ch rest hstr hsent hinput hprogram =>
          have hstored : stored (inputs i x str slots n) = some ch := by
            rw [inputs, hinput]
            exact stored_char _ ch
          refine ⟨?_, fun hsent' ↦ ?_⟩
          · rw [storedBytes_succ, hstored, Option.toList_some, hnext, hprogram, List.append_assoc,
              List.singleton_append, ← hstr]
            exact ih.split
          · rw [hnext, hprogram] at hsent'
            cases hsent'

theorem waitsForSent_inputs : WaitsForSent i x (inputs i x str slots) := fun n hstores ↦
  (progress hother n).loaded (stores_of_sent hother hstores)

/-- Long enough after the last store the register reads -1. -/
theorem free_of_quiet (hT : 1 ≤ T) {n m : ℕ} (hm : n + (10 * T + 1) ≤ m)
    (hquiet : ∀ u ≥ n, ¬ Stores addressUartOut (inputs i x str slots u)) :
    Free (run i x (inputs i x str slots) m) := by
  rcases orderly hT (waitsForSent_inputs hother) m with
    ⟨hfree, -⟩ | ⟨t, b, d, ht, rfl, -, hunderway⟩
  · exact hfree
  · have hd := hunderway.le
    exact absurd (stores_of_stored ht) (hquiet t (by omega))

/-- A string that is not at its end goes on. -/
theorem exists_store (hT : 1 ≤ T) (hacts : ∀ n, ∃ m ≥ n, (slots m).acts = true) {n : ℕ}
    (hstr : (Host.run i x str slots n).program.str ≠ []) :
    ∃ m ≥ n, Stores addressUartOut (inputs i x str slots m) := by
  by_contra hnone
  push Not at hnone
  have hrest : ∀ m ≥ n, (Host.run i x str slots m).program.str ≠ [] := by
    intro m hm
    induction m, hm using Nat.le_induction with
    | base => exact hstr
    | succ m hm ih =>
        rw [str_of_quiet (hnone m hm)]
        exact ih
  -- once -1 has been loaded the next access is a store
  have hsent : ∃ m ≥ n, (Host.run i x str slots m).program.sent = true := by
    obtain ⟨m, hm, hact⟩ := hacts (n + (10 * T + 1))
    have hnm : n ≤ m := by omega
    cases acts (slots m) (Host.run i x str slots m) with
    | rests _ _ hidle => exact absurd (hidle hact) (hrest m hnm)
    | loads _ _ _ _ _ hinput hprogram =>
        refine ⟨m + 1, by omega, ?_⟩
        rw [run_succ, hprogram]
        have hloads : Loads addressUartOut ((Host.run i x str slots m).input (slots m)) := by
          rw [hinput]
          exact ⟨rfl, rfl, show (0b111 : BitVec 3) ≠ 0 by decide⟩
        have hdata := dataOut_uartOut (Host.run i x str slots m).uart hloads
        rw [uart_run, (free_of_quiet hother hT hm hnone).data, ← uart_run] at hdata
        exact decide_eq_true hdata
    | stores _ _ _ _ hsent => exact ⟨m, hnm, hsent⟩
  obtain ⟨m, hm, hm'⟩ := hsent
  have hwait : ∀ u ≥ m, (Host.run i x str slots u).program.sent = true →
      ¬ (slots u).acts = true → (Host.run i x str slots (u + 1)).program.sent = true := by
    intro u _ hsent hrests
    cases acts (slots u) (Host.run i x str slots u) with
    | rests _ hprogram => rwa [run_succ, hprogram]
    | loads hact => exact absurd hact hrests
    | stores hact => exact absurd hact hrests
  obtain ⟨v, hv, hsent, hact⟩ := Clocked.exists_event hm' hwait hacts
  cases acts (slots v) (Host.run i x str slots v) with
  | rests _ _ hidle => exact hrest v (hm.le.trans hv) (hidle hact)
  | loads _ _ _ _ hnot => exact absurd (hsent.symm.trans hnot) (by decide)
  | stores _ ch _ _ _ hinput =>
      have hnot := hnone v (hm.le.trans hv)
      rw [inputs, hinput] at hnot
      exact hnot (stores_char _ ch)

omit hother in
theorem length_str_succ (n : ℕ) :
    (Host.run i x str slots (n + 1)).program.str.length ≤
      (Host.run i x str slots n).program.str.length := by
  rw [run_succ]
  cases acts (slots n) (Host.run i x str slots n) with
  | rests _ hprogram => rw [hprogram]
  | loads _ ch rest hstr _ _ hprogram => rw [hprogram, hstr]
  | stores _ ch rest hstr _ _ hprogram =>
      rw [hprogram, hstr]
      exact Nat.le_succ _

theorem exists_end (hT : 1 ≤ T) (hacts : ∀ n, ∃ m ≥ n, (slots m).acts = true) :
    ∃ m, (Host.run i x str slots m).program.str = [] := by
  by_contra hnever
  push Not at hnever
  refine Clocked.not_always_decreasing (Q := fun n ↦ Stores addressUartOut (inputs i x str slots n))
    (μ := fun n ↦ (Host.run i x str slots n).program.str.length) (fun n ↦ ?_)
    fun n ↦ exists_store hother hT hacts (hnever n)
  by_cases hstores : Stores addressUartOut (inputs i x str slots n)
  · left
    rw [run_succ]
    cases acts (slots n) (Host.run i x str slots n) with
    | rests hinput =>
        rw [inputs, hinput] at hstores
        exact absurd hstores (hother n)
    | loads _ _ _ _ _ hinput =>
        rw [inputs, hinput] at hstores
        exact absurd (stored_load _) (stored_ne_none.mpr hstores)
    | stores _ ch rest hstr _ _ hprogram =>
        rw [hprogram, hstr]
        exact Nat.lt_succ_self _
  · right
    exact ⟨hstores, congrArg List.length (str_of_quiet hstores)⟩

theorem storedBytes_end {m n : ℕ} (hm : (Host.run i x str slots m).program.str = []) (hmn : m ≤ n) :
    (Host.run i x str slots n).program.str = [] ∧ storedBytes (inputs i x str slots) n = str := by
  have hend : (Host.run i x str slots n).program.str = [] := by
    induction n, hmn using Nat.le_induction with
    | base => exact hm
    | succ n _ ih =>
        apply List.eq_nil_of_length_eq_zero
        have hle : (Host.run i x str slots (n + 1)).program.str.length ≤
            (Host.run i x str slots n).program.str.length := length_str_succ n
        rw [ih] at hle
        exact Nat.le_zero.mp hle
  have hprogress : Progress i x str slots n := progress hother n
  have hsplit := hprogress.split
  rw [hend, List.append_nil] at hsplit
  exact ⟨hend, hsplit⟩

end Sending

/-! ## A string across the line -/

/-- What calls of `uart_read_char`, one after the other, have returned. -/
def readChars {bitTime : ℕ} (j : Input) (y : State bitTime) (output : ℕ → Input) (n : ℕ) :
    List Byte := (returned j y output n).map fun ch ↦ ch.setWidth 8

section Strings

variable {bitTime T : ℕ} {i j : Input} {x : State T} {y : State bitTime} {str : List Byte}
  {slots : ℕ → Slot} {output : ℕ → Input}

theorem map_chars (chs : List Byte) :
    (chs.map (0#24 ++ ·)).map (fun ch : Word ↦ ch.setWidth 8) = chs := by
  rw [List.map_map]
  refine (List.map_congr_left fun ch _ ↦ ?_).trans (List.map_id chs)
  apply BitVec.eq_of_getLsbD_eq
  intro k hk
  rw [Function.comp_apply, BitVec.getLsbD_setWidth, BitVec.getLsbD_append, decide_eq_true hk,
    Bool.true_and, if_pos hk, id_eq]

section Calls

variable (hbit : 2 ≤ bitTime) (hnear : Near bitTime T) (hgap : Spaced bitTime T 2)
  (hother : ∀ n, ¬ Stores addressUartOut (slots n).input)
  (hline : ∀ n, (output n).uartRx = uartTx (run i x (inputs i x str slots) n))
  (henabled : ∀ n, Enabled (output n)) {period : ℕ} (hperiod : period ≤ 10 * T + 2)
  (hpolls : Polls period output)
include hbit hnear hgap hother hline henabled hperiod hpolls

theorem readChars_begins (n : ℕ) : readChars j y output n <+: str := by
  have hreturned := returned_begins (j := j) (y := y) hbit hnear hgap (waitsForSent_inputs hother)
    hline henabled hperiod hpolls n
  have hchars := hreturned.map fun ch : Word ↦ ch.setWidth 8
  rw [map_chars] at hchars
  have hprogress : Progress i x str slots n := progress hother n
  exact hchars.trans ⟨_, hprogress.split⟩

theorem storedBytes_begins (n : ℕ) : storedBytes (inputs i x str slots) n <+:
    readChars j y output (n + latency bitTime + period + 1) := by
  have hreturned := begins_returned (j := j) (y := y) hbit hnear hgap (waitsForSent_inputs hother)
    hline henabled hperiod hpolls n
  have hchars := hreturned.map fun ch : Word ↦ ch.setWidth 8
  rwa [map_chars] at hchars

end Calls

/-- A string across the line.  One board calls `uart_send_cstr`, and whatever it
does between two accesses it makes the next one some time; the other calls
`uart_read_char` often enough.  The calls return the string, and never anything
else. -/
theorem sends_cstr (hbit : 2 ≤ bitTime) (hnear : Near bitTime T) (hgap : Spaced bitTime T 2)
    (hother : ∀ n, ¬ Stores addressUartOut (slots n).input)
    (hacts : ∀ n, ∃ m ≥ n, (slots m).acts = true)
    (hline : ∀ n, (output n).uartRx = uartTx (run i x (inputs i x str slots) n))
    (henabled : ∀ n, Enabled (output n)) {period : ℕ} (hperiod : period ≤ 10 * T + 2)
    (hpolls : Polls period output) :
    (∀ n, readChars j y output n <+: str) ∧
      ∃ last, ∀ n ≥ last, (Host.run i x str slots n).program.str = [] ∧
        readChars j y output n = str := by
  have hbegins := readChars_begins (j := j) (y := y) hbit hnear hgap hother hline henabled hperiod
    hpolls
  refine ⟨hbegins, ?_⟩
  have hends : ∃ m, (Host.run i x str slots m).program.str = [] :=
    exists_end hother hnear.pos hacts
  obtain ⟨m, hm⟩ := hends
  refine ⟨m + latency bitTime + period + 1, fun n hn ↦ ?_⟩
  obtain ⟨k, rfl⟩ := Nat.exists_eq_add_of_le hn
  have hmk : m ≤ m + k := Nat.le_add_right m k
  have hstored := storedBytes_begins (j := j) (y := y) hbit hnear hgap hother hline henabled hperiod
    hpolls (m + k)
  rw [(storedBytes_end hother hm hmk).2] at hstored
  have htime : m + k + latency bitTime + period + 1 = m + latency bitTime + period + 1 + k := by
    omega
  rw [htime] at hstored
  have hle : m ≤ m + latency bitTime + period + 1 + k := by omega
  exact ⟨(storedBytes_end hother hm hle).1,
    (hbegins _).eq_of_length_le hstored.length_le⟩

/-! ## Two characters -/

def sendOnly : Slot := ⟨true, cycle ⟨false, 0, 0, 0, 0⟩ true⟩

/-- The line of the board that sends a string, and a load in every cycle. -/
def hearCstr (str : List Byte) (n : ℕ) : Input :=
  cycle ⟨true, 0b111, 0, addressUartIn, 0⟩
    (uartTx (run sendOnly.input (unknown 2)
      (inputs sendOnly.input (unknown 2) str fun _ ↦ sendOnly) n))

theorem sends_cstr_hi :
    (∀ n, readChars (hearCstr [] 0) (unknown 2) (hearCstr [0x68, 0x69]) n <+: [0x68, 0x69]) ∧
      ∃ last, ∀ n ≥ last,
        (Host.run sendOnly.input (unknown 2) [0x68, 0x69] (fun _ ↦ sendOnly) n).program.str = [] ∧
          readChars (hearCstr [] 0) (unknown 2) (hearCstr [0x68, 0x69]) n = [0x68, 0x69] := by
  apply sends_cstr le_rfl (near_self le_rfl) (by unfold Spaced; decide)
  · intro _ hstores
    exact absurd hstores.2 (by decide)
  · intro n
    exact ⟨n, le_rfl, rfl⟩
  · intro n
    rfl
  · intro n _
    rfl
  · exact show 1 ≤ 10 * 2 + 2 by decide
  · intro n
    exact ⟨n + 1, Nat.lt_succ_self n, le_rfl, rfl, rfl, show (0b111 : BitVec 3) ≠ 0 by decide⟩

end Strings

end TangNano.Uart
