import TangNano.Library.Serial
import TangNano.SdCard.Port

/-!
# An SD card in SPI mode

A card that is ready for commands: at rising edges of the clock it takes a bit
of a command or of a block, at falling edges it puts out the next bit of an
answer and ones when it has none.  How long it lets the host wait, its CRC and
the undefined bits of its answers are arbitrary.
-/

namespace TangNano.SpiCard

open Serial SdCardPort

/-- What a card is free to choose in one command. -/
structure Timing where
  /-- ones before the response -/
  response : ℕ
  /-- ones between the response and a block that is read -/
  token : ℕ
  crc : BitVec 16
  /-- the undefined bits of the data response -/
  undefinedBits : BitVec 3
  /-- zeros while a block is being stored -/
  busy : ℕ

/-- What the bits from the host belong to. -/
inductive Receiver
  | command (count : ℕ) (frame : BitVec 48)
  | token (sector : Word)
  | block (sector : Word) (count : ℕ) (shift : Byte) (bytes : ℕ → Byte)

structure Card where
  sclk : Bool
  miso : Bool
  /-- the bits to put out after `miso` -/
  out : List Bool
  receiver : Receiver
  sectors : Word → Sector
  served : ℕ

def ones (n : ℕ) : List Bool := List.replicate n true

def zeros (n : ℕ) : List Bool := List.replicate n false

/-- The bits of a sector from byte `i` on. -/
def sectorBits (sector : Sector) : ℕ → ℕ → List Bool
  | _, 0 => []
  | i, n + 1 => bits (sector (BitVec.ofNat 9 i)) ++ sectorBits sector (i + 1) n

/-- The answer to a read: response, token, data and CRC. -/
def readAnswer (t : Timing) (sector : Sector) : List Bool :=
  ones t.response ++ bits (0 : Byte) ++
    (ones t.token ++ bits (0xfe : Byte) ++ (sectorBits sector 0 512 ++ bits t.crc))

/-- The first answer to a write. -/
def writeAnswer (t : Timing) : List Bool := ones t.response ++ bits (0 : Byte)

/-- The answer to a block: it is accepted and the card is busy. -/
def blockAnswer (t : Timing) : List Bool :=
  bits t.undefinedBits ++ bits (0b00101 : BitVec 5) ++ zeros t.busy

/-- The answer to any other command. -/
def illegalAnswer (t : Timing) : List Bool := ones t.response ++ bits (0x04 : Byte)

section Model

variable (T : ℕ → Timing)

/-- A command is complete. -/
def execute (frame : BitVec 48) (c : Card) : Card :=
  let t := T c.served
  let argument : Word := frame.extractLsb' 8 32
  if frame.extractLsb' 40 8 = 0x51 then
    { c with
      out := c.out ++ readAnswer t (c.sectors argument)
      receiver := .command 0 0
      served := c.served + 1 }
  else if frame.extractLsb' 40 8 = 0x58 then
    { c with out := c.out ++ writeAnswer t, receiver := .token argument }
  else
    { c with
      out := c.out ++ illegalAnswer t
      receiver := .command 0 0
      served := c.served + 1 }

/-- A block is complete. -/
def storeBlock (sector : Word) (bytes : ℕ → Byte) (c : Card) : Card :=
  { c with
    out := c.out ++ blockAnswer (T c.served)
    receiver := .command 0 0
    sectors := Function.update c.sectors sector fun i ↦ bytes i.toNat
    served := c.served + 1 }

/-- A bit comes from the host.  A command and a block begin with a 0. -/
def receive (mosi : Bool) (c : Card) : Card :=
  match c.receiver with
  | .command count frame =>
      if count = 0 ∧ mosi = true then c
      else if count = 47 then execute T (frame.shiftConcat mosi) c
      else { c with receiver := .command (count + 1) (frame.shiftConcat mosi) }
  | .token sector =>
      if mosi then c else { c with receiver := .block sector 0 0 fun _ ↦ 0 }
  | .block sector count shift bytes =>
      let bytes' :=
        if count % 8 = 7 then Function.update bytes (count / 8) (shift.shiftConcat mosi) else bytes
      if count = 8 * 514 - 1 then storeBlock T sector bytes' c
      else { c with receiver := .block sector (count + 1) (shift.shiftConcat mosi) bytes' }

/-- The next bit goes to the host. -/
def shiftOut (c : Card) : Card := { c with miso := c.out.headD true, out := c.out.tail }

/-- The card sees its wires. -/
def observe (cs sclk mosi : Bool) (c : Card) : Card :=
  if cs then { c with sclk := sclk, miso := true, out := [], receiver := .command 0 0 }
  else if sclk = true ∧ c.sclk = false then { receive T mosi c with sclk := sclk }
  else if sclk = false ∧ c.sclk = true then { shiftOut c with sclk := sclk }
  else c

/-- A full cycle of the clock. -/
def cycle (mosi : Bool) (c : Card) : Card := shiftOut (receive T mosi c)

def cycles (l : List Bool) (c : Card) : Card := l.foldl (fun c b ↦ cycle T b c) c

end Model

/-- The card that puts out these bits. -/
def showing (l : List Bool) (c : Card) : Card := { c with miso := l.headD true, out := l.tail }

/-- The card that expects these bits. -/
def hearing (r : Receiver) (c : Card) : Card := { c with receiver := r }

/-- The card while its clock is high. -/
def raised (c : Card) : Card := { c with sclk := true }

/-- Ones from the host change nothing. -/
def Waits (r : Receiver) : Prop := (∃ frame, r = .command 0 frame) ∨ ∃ sector, r = .token sector

section Lemmas

variable {T : ℕ → Timing} {c : Card} {l : List Bool}

@[simp] theorem showing_showing (l l' : List Bool) : showing l' (showing l c) = showing l' c := rfl

@[simp] theorem showing_receiver : (showing l c).receiver = c.receiver := rfl

@[simp] theorem showing_miso : (showing l c).miso = l.headD true := rfl

@[simp] theorem showing_sclk : (showing l c).sclk = c.sclk := rfl

@[simp] theorem shiftOut_showing : shiftOut (showing l c) = showing l.tail c := rfl

@[simp] theorem cycles_nil : cycles T [] c = c := rfl

@[simp] theorem cycles_cons (b : Bool) :
    cycles T (b :: l) c = cycles T l (cycle T b c) := rfl

theorem cycles_append (l' : List Bool) :
    cycles T (l ++ l') c = cycles T l' (cycles T l c) := List.foldl_append

/-- What comes from the host does not change the wires at once. -/
theorem receive_wires (mosi : Bool) :
    (receive T mosi c).sclk = c.sclk ∧ (receive T mosi c).miso = c.miso := by
  unfold receive
  split
  · split
    · exact ⟨rfl, rfl⟩
    · split
      · unfold execute
        split_ifs <;> exact ⟨rfl, rfl⟩
      · exact ⟨rfl, rfl⟩
  · split <;> exact ⟨rfl, rfl⟩
  · dsimp only
    split <;> exact ⟨rfl, rfl⟩

theorem observe_rise (mosi : Bool) (h : c.sclk = false) :
    observe T false true mosi c = raised (receive T mosi c) := by
  simp [observe, h, raised]

theorem observe_fall (mosi mosi' : Bool) (h : c.sclk = false) :
    observe T false false mosi' (raised (receive T mosi c)) = cycle T mosi c := by
  have hsclk : (receive T mosi c).sclk = false := (receive_wires mosi).1.trans h
  rw [cycle]
  generalize receive T mosi c = d at hsclk
  obtain ⟨sclk, miso, out, receiver, sectors, served⟩ := d
  obtain rfl : sclk = false := hsclk
  rfl

theorem observe_sclk {cs sclk mosi : Bool} : (observe T cs sclk mosi c).sclk = sclk := by
  cases hcs : cs <;> cases hsclk : sclk <;> cases hcard : c.sclk <;> simp [observe, hcard]

theorem cycle_sclk (mosi : Bool) : (cycle T mosi c).sclk = c.sclk := (receive_wires mosi).1

theorem receive_true (h : Waits c.receiver) : receive T true c = c := by
  rcases h with ⟨frame, h⟩ | ⟨sector, h⟩
  · simp [receive, h]
  · simp [receive, h]

/-- While the host sends ones the answer comes out. -/
theorem cycle_true (h : Waits c.receiver) :
    cycle T true (showing l c) = showing l.tail c := by
  rw [cycle, receive_true (c := showing l c) h, shiftOut_showing]

theorem cycles_ones (h : Waits c.receiver) (n : ℕ) :
    cycles T (ones n) (showing l c) = showing (l.drop n) c := by
  induction n generalizing l with
  | zero => rfl
  | succ n ih =>
      rw [ones, List.replicate_succ, cycles_cons, cycle_true h]
      exact ih.trans (by rw [← List.drop_one, List.drop_drop, Nat.add_comm])

/-! ## Commands -/

theorem cycles_frame {bit : ℕ → Bool} (hstart : bit 0 = false) (frame : BitVec 48) {n : ℕ}
    (hn : n < 48) :
    cycles T ((List.range n).map bit) (hearing (.command 0 frame) (showing [] c)) =
      hearing (.command n (shiftIn frame ((List.range n).map bit))) (showing [] c) := by
  induction n with
  | zero => rfl
  | succ n ih =>
      have hne : ¬ (n = 0 ∧ bit n = true) := by
        rintro ⟨rfl, htrue⟩
        exact Bool.false_ne_true (hstart.symm.trans htrue)
      have hlt : n ≠ 47 := by omega
      rw [List.range_succ, List.map_append, cycles_append, ih (by omega)]
      simp only [List.map_cons, List.map_nil, cycles_cons, cycles_nil, cycle, receive, hearing,
        if_neg hne, if_neg hlt]
      simp [shiftOut, showing, shiftIn]

theorem cycles_execute {v : BitVec 48} (hstart : v.getMsbD 0 = false) (frame : BitVec 48) :
    ∃ frame', cycles T (bits v) (hearing (.command 0 frame) (showing [] c)) =
      shiftOut (execute T v (hearing (.command 47 frame') (showing [] c))) := by
  refine ⟨shiftIn frame ((List.range 47).map v.getMsbD), ?_⟩
  have hlast : (shiftIn frame ((List.range 47).map v.getMsbD)).shiftConcat (v.getMsbD 47) = v := by
    have hwhole := shiftIn_bits frame v
    rw [bits, firstBits, List.range_succ, List.map_append] at hwhole
    simpa [shiftIn] using hwhole
  have hne : ¬ (47 = 0 ∧ v.getMsbD 47 = true) := fun h ↦ absurd h.1 (by decide)
  rw [bits, firstBits, List.range_succ, List.map_append, cycles_append,
    cycles_frame hstart frame (by decide)]
  simp only [List.map_cons, List.map_nil, cycles_cons, cycles_nil, cycle, receive, hearing,
    if_neg hne, if_true, hlast]

/-- A command frame that begins with `code`. -/
def frame (code : Byte) (argument : Word) : BitVec 48 := code ++ argument ++ 0xff#8

theorem extract_frame (code : Byte) (argument : Word) :
    (frame code argument).extractLsb' 40 8 = code ∧
      (frame code argument).extractLsb' 8 32 = argument := by
  refine ⟨?_, ?_⟩
  · apply BitVec.eq_of_getLsbD_eq
    intro i hi
    rw [BitVec.getLsbD_extractLsb', frame, BitVec.getLsbD_append, BitVec.getLsbD_append,
      if_neg (show ¬ 40 + i < 8 by omega), if_neg (show ¬ 40 + i - 8 < 32 by omega),
      show 40 + i - 8 - 32 = i by omega, decide_eq_true hi, Bool.true_and]
  · apply BitVec.eq_of_getLsbD_eq
    intro i hi
    rw [BitVec.getLsbD_extractLsb', frame, BitVec.getLsbD_append, BitVec.getLsbD_append]
    simp [hi]

/-- What the host sends: eight ones and the frame. -/
theorem bits_command (code : Byte) (argument : Word) :
    bits (0xff#8 ++ frame code argument) = ones 8 ++ bits (frame code argument) := by
  have hsplit : List.range (8 + 48) = List.range 8 ++ (List.range 48).map (8 + ·) :=
    List.range_add
  rw [bits, firstBits, hsplit, List.map_append, List.map_map]
  congr 1
  · have hones : ones 8 = (List.range 8).map fun _ ↦ true := rfl
    rw [hones]
    apply List.map_congr_left
    intro i hi
    have hlt : i < 8 := List.mem_range.mp hi
    rw [BitVec.getMsbD_append, if_neg (Nat.not_le.mpr hlt)]
    interval_cases i <;> rfl
  · apply List.map_congr_left
    intro i _
    rw [Function.comp_apply, BitVec.getMsbD_append, if_pos (Nat.le_add_right 8 i),
      Nat.add_sub_cancel_left]

theorem cycles_command {code : Byte} (hcode : code.getMsbD 0 = false) (argument : Word)
    (f : BitVec 48) :
    ∃ f', cycles T (bits (0xff#8 ++ frame code argument))
      (hearing (.command 0 f) (showing [] c)) =
        shiftOut (execute T (frame code argument)
          (hearing (.command 47 f') (showing [] c))) := by
  have hstart : (frame code argument).getMsbD 0 = false := by
    rw [frame, BitVec.getMsbD_append, BitVec.getMsbD_append, if_neg (by decide),
      if_neg (by decide)]
    exact hcode
  have hones : cycles T (ones 8) (hearing (.command 0 f) (showing [] c)) =
      hearing (.command 0 f) (showing [] c) :=
    cycles_ones (c := hearing (.command 0 f) c) (l := []) (.inl ⟨f, rfl⟩) 8
  rw [bits_command, cycles_append, hones]
  exact cycles_execute hstart f

theorem cycles_read (argument : Word) (f : BitVec 48) :
    cycles T (bits (0xff#8 ++ frame 0x51 argument)) (hearing (.command 0 f) (showing [] c)) =
      hearing (.command 0 0) (showing (readAnswer (T c.served) (c.sectors argument))
        { c with served := c.served + 1 }) := by
  obtain ⟨f', hcommand⟩ :=
    cycles_command (T := T) (c := c) (show (0x51 : Byte).getMsbD 0 = false from rfl) argument f
  obtain ⟨hcode, hargument⟩ := extract_frame 0x51 argument
  rw [hcommand, execute, hcode, hargument, if_pos rfl]
  rfl

/-- Command 24 announces a block for a sector. -/
theorem cycles_write (argument : Word) (f : BitVec 48) :
    cycles T (bits (0xff#8 ++ frame 0x58 argument)) (hearing (.command 0 f) (showing [] c)) =
      hearing (.token argument) (showing (writeAnswer (T c.served)) c) := by
  obtain ⟨f', hcommand⟩ :=
    cycles_command (T := T) (c := c) (show (0x58 : Byte).getMsbD 0 = false from rfl) argument f
  obtain ⟨hcode, hargument⟩ := extract_frame 0x58 argument
  rw [hcommand, execute, hcode, hargument, if_neg (by decide), if_pos rfl]
  rfl

/-! ## Blocks -/

/-- The token ends in its only 0. -/
theorem ones_token (n : ℕ) (l : List Bool) :
    ones n ++ bits (0xfe : Byte) ++ l = ones (n + 7) ++ false :: l := by
  have htoken : bits (0xfe : Byte) = ones 7 ++ [false] := by decide
  have hones : ones (n + 7) = ones n ++ ones 7 := List.replicate_add n 7 true
  rw [htoken, hones]
  simp

theorem cycles_token (sector : Word) :
    cycles T (bits (0xfe : Byte)) (hearing (.token sector) (showing [] c)) =
      hearing (.block sector 0 0 fun _ ↦ 0) (showing [] c) := by
  have hbits : bits (0xfe : Byte) = ones 7 ++ [false] := by decide
  have hones : cycles T (ones 7) (hearing (.token sector) (showing [] c)) =
      hearing (.token sector) (showing [] c) :=
    cycles_ones (c := hearing (.token sector) c) (l := []) (.inr ⟨sector, rfl⟩) 7
  rw [hbits, cycles_append, hones]
  rfl

theorem cycles_block_bits {bit : ℕ → Bool} (sector : Word) {j n : ℕ} (hn : n < 8)
    (shift : Byte) (bytes : ℕ → Byte) :
    cycles T ((List.range n).map bit)
        (hearing (.block sector (8 * j) shift bytes) (showing [] c)) =
      hearing (.block sector (8 * j + n) (shiftIn shift ((List.range n).map bit)) bytes)
        (showing [] c) := by
  induction n with
  | zero => rfl
  | succ n ih =>
      have hmod : (8 * j + n) % 8 ≠ 7 := by omega
      have hlt : 8 * j + n ≠ 8 * 514 - 1 := by omega
      rw [List.range_succ, List.map_append, cycles_append, ih (by omega)]
      simp only [List.map_cons, List.map_nil, cycles_cons, cycles_nil, cycle, receive, hearing,
        if_neg hmod, if_neg hlt]
      simp [shiftOut, showing, shiftIn, Nat.add_assoc]

theorem cycles_block_byte (sector : Word) {j : ℕ} (v shift : Byte)
    (bytes : ℕ → Byte) :
    cycles T (bits v) (hearing (.block sector (8 * j) shift bytes) (showing [] c)) =
      shiftOut (if j = 513 then storeBlock T sector (Function.update bytes j v)
          (hearing (.block sector (8 * j + 7) (shiftIn shift ((List.range 7).map v.getMsbD)) bytes)
            (showing [] c))
        else hearing (.block sector (8 * (j + 1)) v (Function.update bytes j v))
          (showing [] c)) := by
  have hlast : (shiftIn shift ((List.range 7).map v.getMsbD)).shiftConcat (v.getMsbD 7) = v := by
    have hwhole := shiftIn_bits shift v
    rw [bits, firstBits, List.range_succ, List.map_append] at hwhole
    simpa [shiftIn] using hwhole
  have hmod : (8 * j + 7) % 8 = 7 := by omega
  have hdiv : (8 * j + 7) / 8 = j := by omega
  have hend : 8 * j + 7 = 8 * 514 - 1 ↔ j = 513 := by omega
  rw [bits, firstBits, List.range_succ, List.map_append, cycles_append,
    cycles_block_bits sector (by decide)]
  simp only [List.map_cons, List.map_nil, cycles_cons, cycles_nil, cycle, receive, hearing,
    hmod, if_true, hdiv, hlast, hend]
  rfl

theorem cycles_block (sector : Word) {j : ℕ} (hj : j < 513) (v shift : Byte) (bytes : ℕ → Byte) :
    cycles T (bits v) (hearing (.block sector (8 * j) shift bytes) (showing [] c)) =
      hearing (.block sector (8 * (j + 1)) v (Function.update bytes j v)) (showing [] c) := by
  rw [cycles_block_byte sector, if_neg (by omega)]
  rfl

theorem cycles_block_last (sector : Word) (v shift : Byte) (bytes : ℕ → Byte) :
    cycles T (bits v) (hearing (.block sector (8 * 513) shift bytes) (showing [] c)) =
      hearing (.command 0 0) (showing (blockAnswer (T c.served))
        { c with
          sectors := Function.update c.sectors sector fun i ↦ Function.update bytes 513 v i.toNat
          served := c.served + 1 }) := by
  rw [cycles_block_byte sector, if_pos rfl]
  rfl

end Lemmas

end TangNano.SpiCard
