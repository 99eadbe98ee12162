import TangNano.Cache.Coherence

/-!
# The cache is transparent

Seen through `data_out` the cache and the SDRAM behave as one memory: the
words present at the start, changed by the writes accepted since.
-/

namespace TangNano.Cache

/-- The words the client finds at first: a valid line's columns, the SDRAM
elsewhere. -/
def view (p : Params) (y : System) : WordMemory := fun a ↦
  if lineValid p y.cache (lineOf p a) ∧ cachedTag p y.cache (lineOf p a) = tagOf p a then
    y.cache.column (columnOf p a) (lineOf p a)
  else y.sdram.data a

/-- A reset cache without a command on its wires, a controller without a
transfer, and tags left over by an earlier use of both. -/
structure PowerUp (p : Params) (y : System) : Prop where
  reset : AfterReset p y.cache
  quiet : y.sdram.Quiet p.waitsPriorToDataAtRead
  valid_of_dirty : ∀ l < 2 ^ p.lineIndexBitwidth,
    lineDirty p y.cache l = true → lineValid p y.cache l = true

/-- The clean lines hold what the SDRAM holds. -/
def CleanLines (p : Params) (y : System) : Prop :=
  ∀ l < 2 ^ p.lineIndexBitwidth, lineValid p y.cache l = true → lineDirty p y.cache l = false →
    ∀ c < p.columnCount,
      y.cache.column c l = y.sdram.data (lineAddress p (cachedTag p y.cache l) l + c)

namespace System

variable (p : Params)

/-- The inputs of the cache in cycle `n`. -/
def input (start : System) (drive : ℕ → Drive) (n : ℕ) : Input :=
  cacheInput p (drive n) (run p start drive n)

/-- Up to cycle `n` the client holds its request while the cache is busy and
never writes without `enable`. -/
structure Client (start : System) (drive : ℕ → Drive) (n : ℕ) : Prop where
  hold : ∀ m < n, busy p (input p start drive m) (run p start drive m).cache = true →
    SameRequest (input p start drive m) (input p start drive (m + 1))
  idle : ∀ m < n, (drive m).enable = false → (drive m).writeEnable = 0#4

/-- The writes accepted before cycle `n`, in order. -/
def acceptedWrites (start : System) (drive : ℕ → Drive) (n : ℕ) : List MaskedWrite :=
  (List.range n).flatMap fun m ↦ accepted p (input p start drive m) (run p start drive m).cache

variable {p} {start : System} {drive : ℕ → Drive}

theorem acceptedWrites_succ (n : ℕ) :
    acceptedWrites p start drive (n + 1) = acceptedWrites p start drive n ++
      accepted p (input p start drive n) (run p start drive n).cache := by
  simp [acceptedWrites, List.range_succ]

/-- The words of a power-up state are where their line says. -/
theorem coherentLines_view (hmode : p.ramAddressingMode = 2) (hstart : PowerUp p start)
    (hclean : CleanLines p start) :
    CoherentLines p start.cache start.sdram.data (view p start) := by
  intro l hl
  have hview : ∀ t, ∀ c < p.columnCount, view p start (lineAddress p t l + c) =
      if lineValid p start.cache l = true ∧ cachedTag p start.cache l = t then
        start.cache.column c l
      else start.sdram.data (lineAddress p t l + c) := by
    intro t c hc
    rw [view, lineOf_add hmode hc hl, tagOf_add hmode hc hl, columnOf_add hmode hc]
  constructor
  · exact hstart.valid_of_dirty l hl
  · intro hvalid c hc
    rw [hview _ c hc, if_pos ⟨hvalid, rfl⟩]
  · intro t ht htagged c hc
    rw [hview t c hc]
    by_cases hcached : lineValid p start.cache l = true ∧ cachedTag p start.cache l = t
    · obtain ⟨hvalid, rfl⟩ := hcached
      have hdirty : lineDirty p start.cache l = false := by
        rw [← Bool.not_eq_true]
        exact fun hdirty ↦ htagged hdirty rfl
      rw [if_pos ⟨hvalid, rfl⟩]
      exact (hclean l hl hvalid hdirty c hc).symm
    · rw [if_neg hcached]

/-- Lines that are coherent with a memory show its words. -/
theorem view_of_coherent (hmode : p.ramAddressingMode = 2) {y : System} {M : WordMemory}
    (hlines : CoherentLines p y.cache y.sdram.data M) {a : ℕ} (ha : a < 2 ^ p.ramAddressBitwidth) :
    view p y a = M a := by
  have hwidth : p.ramAddressBitwidth =
      p.columnIndexBitwidth + (p.lineIndexBitwidth + p.tagBitwidth) := by
    have hsum := bitwidth_sum p
    simp only [Params.lineToRamAddressLeftShift, zerosBitwidth, hmode] at hsum
    omega
  have hcolumn : columnOf p a < p.columnCount := Nat.mod_lt _ (Nat.two_pow_pos _)
  have hline : lineOf p a < 2 ^ p.lineIndexBitwidth := Nat.mod_lt _ (Nat.two_pow_pos _)
  have htag : tagOf p a < 2 ^ p.tagBitwidth := by
    rw [hwidth, Nat.pow_add, Nat.pow_add] at ha
    exact Nat.div_lt_of_lt_mul (Nat.div_lt_of_lt_mul ha)
  have hplace : lineAddress p (tagOf p a) (lineOf p a) + columnOf p a = a := by
    rw [lineAddress_eq hmode, tagOf, lineOf, columnOf, Nat.div_add_mod', Nat.div_add_mod']
  have hcoherent := hlines _ hline
  unfold view
  split
  · next hcached =>
      have hword := hcoherent.cached hcached.1 _ hcolumn
      rwa [hcached.2, hplace] at hword
  · next hother =>
      have hword := hcoherent.stored _ htag
        (fun hdirty heq ↦ hother ⟨hcoherent.valid hdirty, heq⟩) _ hcolumn
      rwa [hplace] at hword

/-- The shapes of the cache and the agreement with the SDRAM along a run. -/
theorem agrees_of_client (hmode : p.ramAddressingMode = 2) (hstart : PowerUp p start)
    (hclean : CleanLines p start) {n : ℕ} (hclient : Client p start drive n) :
    Control p (input p start drive n) (run p start drive n).cache ∧
      Agrees p (input p start drive n) (run p start drive n).cache (run p start drive n).sdram
        ((view p start).writeAll (acceptedWrites p start drive n)) := by
  induction n with
  | zero =>
      have hcontrol := Control.of_afterReset p hstart.reset (input p start drive 0)
      refine ⟨hcontrol, ?_⟩
      have hidle : start.cache.state = .idle := by
        obtain ⟨i, s, hrst, -, heq⟩ := hstart.reset
        simp [heq, Cache.step, hrst, reset]
      simp only [Agrees, Clocked.state_zero, hidle]
      exact ⟨hstart.quiet, coherentLines_view hmode hstart hclean⟩
  | succ n ih =>
      obtain ⟨hcontrol, hagrees⟩ :=
        ih ⟨fun m hm ↦ hclient.hold m (by omega), fun m hm ↦ hclient.idle m (by omega)⟩
      have hheld := hclient.hold n (Nat.lt_succ_self n)
      have hedge := hcontrol.edge rfl
      have hsupported := hagrees.supported hmode hcontrol
      refine ⟨hedge.control hheld, ?_⟩
      have hidle : (input p start drive n).writeEnable ≠ 0#4 →
          (input p start drive n).enable = true := by
        intro hwrite
        rw [← Bool.not_eq_false]
        exact fun henable ↦ hwrite (hclient.idle n (Nat.lt_succ_self n) henable)
      have hnext := hagrees.step hmode hedge hcontrol hheld hidle rfl
      have hsdram : (run p start drive (n + 1)).sdram = (run p start drive n).sdram.step
          (run p start drive n).cache.bus (input p start drive n).oSdrcCmdAck :=
        if_pos hsupported
      rw [acceptedWrites_succ, WordMemory.writeAll_append, hsdram]
      exact hnext

/-- A cached line answers with the words of the memory it is coherent with. -/
theorem dataOut_of_coherent (hmode : p.ramAddressingMode = 2) {i : Input} {s : Regs}
    {d M : WordMemory} (hlines : CoherentLines p s d M) (hhit : cacheLineHit p i s = true) :
    dataOut p i s = M (wordAddress p i.address) := by
  obtain ⟨hvalid, hsame⟩ : lineValid p s (lineIx p i.address) = true ∧
      addressTag p i.address = cachedTag p s (lineIx p i.address) := by
    simpa [cacheLineHit] using hhit
  have hcached := (hlines _ (lineIx_lt p i.address)).cached hvalid _ (columnIx_lt p i.address)
  rw [wordAddress_eq hmode, hsame]
  exact hcached

/-- Whenever `data_out_ready` is high, `data_out` is the word of the memory
that the accepted writes have made of the initial view. -/
theorem dataOut_eq (hmode : p.ramAddressingMode = 2) (hstart : PowerUp p start)
    (hclean : CleanLines p start) {n : ℕ} (hclient : Client p start drive n)
    (hready : dataOutReady p (input p start drive n) (run p start drive n).cache = true) :
    dataOut p (input p start drive n) (run p start drive n).cache =
      (view p start).writeAll (acceptedWrites p start drive n)
        (wordAddress p (drive n).address) := by
  obtain ⟨hcontrol, hagrees⟩ := agrees_of_client hmode hstart hclean hclient
  have hhit : cacheLineHit p (input p start drive n) (run p start drive n).cache = true := by
    unfold dataOutReady at hready
    split at hready
    · exact absurd hready Bool.false_ne_true
    · exact (Bool.and_eq_true_iff.mp hready).2
  have hnever : ¬Missing p (input p start drive n) (run p start drive n).cache := by
    intro hmissing
    exact Bool.false_ne_true (hmissing.miss.symm.trans hhit)
  suffices hlines : CoherentLines p (run p start drive n).cache (run p start drive n).sdram.data
      ((view p start).writeAll (acceptedWrites p start drive n)) from
    dataOut_of_coherent hmode hlines hhit
  cases hcontrol with
  | idle h =>
      simp only [Agrees, h.state_eq] at hagrees
      exact hagrees.2
  | refresh h =>
      simp only [Agrees, h.state_eq] at hagrees
      exact hagrees.2
  | write1 h => exact absurd h.toMissing hnever
  | write2 h => exact absurd h.toMissing hnever
  | write3 h => exact absurd h.toMissing hnever
  | read1 h => exact absurd h.toMissing hnever
  | read2 h => exact absurd h.toMissing hnever
  | read3 h => exact absurd h.toMissing hnever
  | read4 h => exact absurd h.toMissing hnever

/-! ## A run with an eviction -/

def quietSdram (data : WordMemory) : Sdram := ⟨data, none, false, none, none⟩

/-- A reset system whose SDRAM holds the word `a` at address `a`. -/
def blankSystem : System :=
  ⟨resetRegs, quietSdram fun a ↦ BitVec.ofNat 32 a⟩

/-- Write two bytes at address 16, read address 0 and then address 16. -/
def evictDrive (n : ℕ) : Drive where
  enable := true
  address := if 9 ≤ n ∧ n < 26 then 0 else 16
  dataIn := 0xAABBCCDD
  writeEnable := if n < 9 then 0b0011 else 0
  ack := true
  junk := 0x55
  wreck := quietSdram fun _ ↦ 0

theorem powerUp_blankSystem : PowerUp smallParams blankSystem :=
  ⟨afterReset_resetRegs, ⟨⟨rfl, rfl⟩, rfl, rfl⟩, by decide +kernel⟩

theorem dataOut_evicted :
    dataOut smallParams (input smallParams blankSystem evictDrive 32)
        (run smallParams blankSystem evictDrive 32).cache = 0xCCDD#32 := by
  have hclient : Client smallParams blankSystem evictDrive 32 :=
    ⟨by decide +kernel, by decide +kernel⟩
  rw [dataOut_eq rfl powerUp_blankSystem (by unfold CleanLines; decide +kernel) hclient
    (by decide +kernel)]
  decide +kernel

/-! ## What the initial conditions exclude -/

/-- Line 0 is valid and clean, but its columns are not what the SDRAM holds. -/
def staleSystem : System :=
  ⟨Cache.step smallParams resetInput
    { blankRegs with tag := fun _ ↦ tagWord smallParams false 0, column := fun _ _ ↦ 7 },
    quietSdram fun _ ↦ 0⟩

/-- Nothing is cached, but ACTIVE was left on the wires when the reset came. -/
def strayCommandSystem : System :=
  ⟨Cache.step smallParams resetInput
    { blankRegs with iSdrcCmdEn := true, iSdrcCmd := cmdActive }, quietSdram fun _ ↦ 0⟩

/-- Read address 16 and then address 0. -/
def rereadDrive (n : ℕ) : Drive where
  enable := true
  address := if n < 9 then 16 else 0
  dataIn := 0
  writeEnable := 0
  ack := true
  junk := 0
  wreck := quietSdram fun _ ↦ 9

/-- A refill replaces the columns of a stale clean line by the words of the
SDRAM, and a command left on the wires precedes the first auto-refresh. -/
theorem dataOut_ne_view :
    (PowerUp smallParams staleSystem ∧ Client smallParams staleSystem rereadDrive 18 ∧
      dataOutReady smallParams (input smallParams staleSystem rereadDrive 18)
        (run smallParams staleSystem rereadDrive 18).cache = true ∧
      dataOut smallParams (input smallParams staleSystem rereadDrive 18)
          (run smallParams staleSystem rereadDrive 18).cache ≠
        (view smallParams staleSystem).writeAll
          (acceptedWrites smallParams staleSystem rereadDrive 18)
          (wordAddress smallParams (rereadDrive 18).address)) ∧
    (CleanLines smallParams strayCommandSystem ∧
      Client smallParams strayCommandSystem rereadDrive 8 ∧
      dataOutReady smallParams (input smallParams strayCommandSystem rereadDrive 8)
        (run smallParams strayCommandSystem rereadDrive 8).cache = true ∧
      dataOut smallParams (input smallParams strayCommandSystem rereadDrive 8)
          (run smallParams strayCommandSystem rereadDrive 8).cache ≠
        (view smallParams strayCommandSystem).writeAll
          (acceptedWrites smallParams strayCommandSystem rereadDrive 8)
          (wordAddress smallParams (rereadDrive 8).address)) := by
  refine ⟨⟨?_, ⟨?_, ?_⟩, ?_, ?_⟩, ?_, ⟨?_, ?_⟩, ?_, ?_⟩
  · exact ⟨⟨resetInput, _, rfl, rfl, rfl⟩, ⟨⟨rfl, rfl⟩, rfl, rfl⟩, by decide +kernel⟩
  · decide +kernel
  · decide +kernel
  · decide +kernel
  · decide +kernel
  · unfold CleanLines
    decide +kernel
  · decide +kernel
  · decide +kernel
  · decide +kernel
  · decide +kernel

end System

end TangNano.Cache
