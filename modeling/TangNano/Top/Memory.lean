import TangNano.Cache.Serving
import TangNano.Cache.Transparency
import TangNano.Ramio.Acceptance
import TangNano.Ramio.RamPath
import TangNano.Top.Model

/-!
# The memory of the board

The core keeps its request until `ramio` has served it, so the cache and the
SDRAM hold one memory of words in every cycle of a run.  A request for RAM
reads or writes a word of it as soon as the line is cached, and every request
finds its line cached in the end.
-/

namespace TangNano.Top.Board

open Ramio

variable {bitTime : ℕ} {p : Params} {memory : BitVec 24 → Byte} {e e' : Surroundings}
  {b : Board bitTime} {M : WordMemory}

/-! ## Requests -/

theorem Running.rstN (h : Running e) : (b.pins p e).rstN = true := by
  simp [Pins.rstN, pins, h.1, h.2]

theorem rstN_of_not_running (h : ¬ Running e) : (b.pins p e).rstN = false := by
  unfold Running at h
  cases hrst : e.rst <;> cases hdone : e.oSdrcInitDone <;> simp_all [Pins.rstN, pins]

theorem asked_congr {x y : Chip bitTime} (h : Soc.request y.core = Soc.request x.core) :
    cacheRequest y.asked = cacheRequest x.asked := by
  unfold Chip.asked
  rw [h]
  exact cacheRequest_congr

theorem sameRequest_of_asked {b' : Board bitTime}
    (h : cacheRequest b'.chip.asked = cacheRequest b.chip.asked) :
    Cache.SameRequest (b.cacheInput p e) (b'.cacheInput p e') :=
  ⟨congrArg Prod.fst h, congrArg (fun w ↦ w.2.1) h, congrArg (fun w ↦ w.2.2.1) h,
    congrArg (fun w ↦ w.2.2.2) h⟩

theorem enable_of_write (h : (b.cacheInput p e).writeEnable ≠ 0#4) :
    (b.cacheInput p e).enable = true := by
  change b.chip.asked.cacheWriteEnable ≠ 0#4 at h
  change b.chip.asked.cacheEnable = true
  unfold Chip.asked at h ⊢
  cases hport : isPort (Soc.request b.chip.core).address with
  | true =>
      have hidle := congrArg (fun w ↦ w.2.2.2)
        (cacheRequest_of_port (q := b.chip.devices) (s := b.chip.ramio) hport)
      exact absurd hidle h
  | false =>
      unfold wires at h ⊢
      dsimp only at h ⊢
      simp only [readWires_ram hport, writeWires_ram hport] at h ⊢
      split_ifs at h ⊢ <;> first | rfl | exact absurd rfl h

/-- While the cache is busy `ramio` is busy and has no data. -/
theorem waits (hbusy : Cache.busy p.cache (b.cacheInput p e) b.chip.cache = true) :
    b.chip.core.ramioEnable = true ∧ isPort b.chip.core.ramioAddress = false ∧
      (b.chip.coreInput p (b.pins p e)).ramioBusy = true ∧
      (b.chip.coreInput p (b.pins p e)).ramioDataOutReady = false := by
  have hmiss := hbusy
  simp only [Cache.busy, Bool.and_eq_true, Bool.not_eq_true'] at hmiss
  obtain ⟨henable, hport⟩ := of_cacheEnable hmiss.1
  refine ⟨henable, hport, (busy_of_ram hport).trans hbusy, (dataOutReady_of_ram hport).trans ?_⟩
  change Cache.dataOutReady p.cache (b.cacheInput p e) b.chip.cache = false
  simp [Cache.dataOutReady, hmiss.2]

theorem held (hshape : Soc.Shape b.chip.core) (hrun : Running e)
    (hbusy : Cache.busy p.cache (b.cacheInput p e) b.chip.cache = true) :
    Soc.request (b.step p memory e).chip.core = Soc.request b.chip.core ∧
      (b.step p memory e).chip.core.state = b.chip.core.state := by
  obtain ⟨henable, -, hwaits, hready⟩ := waits hbusy
  exact hshape.held (i := b.chip.coreInput p (b.pins p e)) hrun.rstN henable hwaits hready

/-! ## Coherence -/

/-- The cache and the SDRAM hold the words of `M`, whatever the rest of the
board is given. -/
def Coherent (p : Params) (b : Board bitTime) (M : WordMemory) : Prop :=
  ∀ e, Cache.Control p.cache (b.cacheInput p e) b.chip.cache ∧
    Cache.Agrees p.cache (b.cacheInput p e) b.chip.cache b.sdram M

theorem Coherent.edge (h : Coherent p b M) (hrun : Running e) :
    Cache.Edge p.cache (b.cacheInput p e) b.chip.cache (b.step p memory e).chip.cache :=
  (h e).1.edge hrun.rstN

/-- What the cache accepts in a cycle is written to the memory. -/
theorem Coherent.step (h : Coherent p b M) (hmode : p.cache.ramAddressingMode = 2)
    (hshape : Soc.Shape b.chip.core) (hrun : Running e) :
    Coherent p (b.step p memory e)
      (M.writeAll (Cache.accepted p.cache (b.cacheInput p e) b.chip.cache)) := by
  intro e'
  obtain ⟨hcontrol, hagrees⟩ := h e
  have hedge : Cache.Edge p.cache (b.cacheInput p e) b.chip.cache
      (b.step p memory e).chip.cache := h.edge hrun
  have hheld (hbusy : Cache.busy p.cache (b.cacheInput p e) b.chip.cache = true) :
      Cache.SameRequest (b.cacheInput p e) ((b.step p memory e).cacheInput p e') :=
    sameRequest_of_asked (asked_congr (held hshape hrun hbusy).1)
  have hsdram : (b.step p memory e).sdram =
      b.sdram.step b.chip.cache.bus (b.cacheInput p e).oSdrcCmdAck :=
    if_pos (hagrees.supported hmode hcontrol)
  refine ⟨hedge.control hheld, ?_⟩
  rw [hsdram]
  exact hagrees.step hmode hedge hcontrol hheld enable_of_write rfl

/-- The cache is in none of the states of a burst. -/
def Rests (b : Board bitTime) : Prop := b.chip.cache.state = .idle ∨ b.chip.cache.state = .refresh

theorem Coherent.lines (h : Coherent p b M) (hrests : Rests b) :
    Cache.CoherentLines p.cache b.chip.cache b.sdram.data M := by
  have hagrees := (h ⟨false, true, false, false, false, 0, b.sdram⟩).2
  rcases hrests with hstate | hstate
  · simp only [Cache.Agrees, hstate] at hagrees
    exact hagrees.2
  · simp only [Cache.Agrees, hstate] at hagrees
    exact hagrees.2

theorem Coherent.rests (h : Coherent p b M)
    (hfree : Cache.busy p.cache (b.cacheInput p e) b.chip.cache = false) : Rests b := by
  have hnever (hmissing : Cache.Missing p.cache (b.cacheInput p e) b.chip.cache) : False :=
    Bool.false_ne_true (hfree.symm.trans hmissing.busy)
  cases (h e).1 with
  | idle hs => exact .inl hs.state_eq
  | refresh hs => exact .inr hs.state_eq
  | write1 hs => exact (hnever hs.toMissing).elim
  | write2 hs => exact (hnever hs.toMissing).elim
  | write3 hs => exact (hnever hs.toMissing).elim
  | read1 hs => exact (hnever hs.toMissing).elim
  | read2 hs => exact (hnever hs.toMissing).elim
  | read3 hs => exact (hnever hs.toMissing).elim
  | read4 hs => exact (hnever hs.toMissing).elim

theorem Coherent.word (h : Coherent p b M) (hmode : p.cache.ramAddressingMode = 2)
    (hhit : Cache.cacheLineHit p.cache (b.cacheInput p e) b.chip.cache = true) :
    Cache.dataOut p.cache (b.cacheInput p e) b.chip.cache =
      M (Cache.wordAddress p.cache (b.cacheInput p e).address) := by
  have hfree : Cache.busy p.cache (b.cacheInput p e) b.chip.cache = false := by
    simp [Cache.busy, hhit]
  exact Cache.System.dataOut_of_coherent hmode (h.lines (h.rests hfree)) hhit

/-- Outside bursts the words of RAM are seen in the cache and the SDRAM. -/
theorem Coherent.view_eq (h : Coherent p b M) (hmode : p.cache.ramAddressingMode = 2)
    (hrests : Rests b) {a : ℕ} (ha : a < 2 ^ p.cache.ramAddressBitwidth) :
    Cache.view p.cache b.system a = M a :=
  Cache.System.view_of_coherent (y := b.system) hmode (h.lines hrests) ha

/-! ## Requests for RAM -/

/-- The RAM that the cache addresses is the RAM of the memory map. -/
structure Configured (p : Params) : Prop where
  mode : p.cache.ramAddressingMode = 2
  bitwidth : p.cache.ramAddressBitwidth = 21

theorem configured_configuration : Configured configuration := ⟨rfl, rfl⟩

/-- The core asks for a word, a half word or a byte behind the cache. -/
structure Reads (b : Board bitTime) : Prop where
  enable : b.chip.core.ramioEnable = true
  readType : b.chip.core.ramioReadType ≠ 0
  writeType : b.chip.core.ramioWriteType = 0
  address : isPort b.chip.core.ramioAddress = false

theorem reads_of_shape (hshape : Soc.Shape b.chip.core)
    (hstate : b.chip.core.state = .cpuFetch ∨ b.chip.core.state = .cpuLoad)
    (haddress : isPort b.chip.core.ramioAddress = false) : Reads b := by
  rcases hstate with hstate | hstate
  · obtain ⟨henable, hread, hwrite⟩ := hshape.of_fetch hstate
    exact ⟨henable, by rw [hread]; decide, hwrite, haddress⟩
  · obtain ⟨henable, hread, hwrite⟩ := hshape.of_load hstate
    exact ⟨henable, hread, hwrite, haddress⟩

/-- The core stores to RAM. -/
structure Writes (b : Board bitTime) : Prop where
  enable : b.chip.core.ramioEnable = true
  readType : b.chip.core.ramioReadType = 0
  writeType : b.chip.core.ramioWriteType ≠ 0
  address : b.chip.core.ramioAddress.toNat < Emulator.memoryEnd

section Accesses

variable (h : Coherent p b M) (hp : Configured p)

theorem wordAddress_below (hp : Configured p) {address : Word}
    (ha : address.toNat < Emulator.memoryEnd) :
    Cache.wordAddress p.cache (address.extractLsb' 2 30 ++ 0#2) = address.toNat / 4 := by
  unfold Emulator.memoryEnd at ha
  rw [Cache.wordAddress, cacheAddress_div, hp.bitwidth, Nat.mod_eq_of_lt (by omega)]

theorem Reads.asked_eq (hr : Reads b) : b.chip.asked =
    { idleWires b.chip.core.ramioAddress with
      cacheEnable := true
      dataOut := loadData b.chip.core.ramioReadType b.chip.core.ramioAddress 0 } := by
  have hport : isPort (Soc.request b.chip.core).address = false := hr.address
  unfold Chip.asked
  rw [wires_of_read hr.enable hr.readType hr.writeType, readWires_ram hport]
  rfl

theorem Writes.asked_eq (hw : Writes b) : b.chip.asked =
    { idleWires b.chip.core.ramioAddress with
      cacheEnable := true
      cacheWriteEnable := storeMask b.chip.core.ramioWriteType b.chip.core.ramioAddress
      cacheDataIn := storeData b.chip.core.ramioWriteType b.chip.core.ramioAddress
        b.chip.core.ramioDataIn } :=
  (wires_of_write (r := Soc.request b.chip.core) hw.enable hw.readType hw.writeType).trans
    (writeWires_ram (RamPath.not_port hw.address) _)

theorem busy_of_enable (henable : b.chip.asked.cacheEnable = true) :
    Cache.busy p.cache (b.cacheInput p e) b.chip.cache =
      !Cache.cacheLineHit p.cache (b.cacheInput p e) b.chip.cache := by
  have henable : (b.cacheInput p e).enable = true := henable
  simp [Cache.busy, henable]

theorem accepted_of_disabled (henable : b.chip.core.ramioEnable = false) :
    Cache.accepted p.cache (b.cacheInput p e) b.chip.cache = [] := by
  have hasked : b.chip.asked = idleWires b.chip.core.ramioAddress := wires_of_disabled henable
  have hmask : (b.cacheInput p e).writeEnable = 0 := by
    change b.chip.asked.cacheWriteEnable = 0
    rw [hasked]
    rfl
  simp [Cache.accepted, hmask]

/-- A read is answered when the cache is not busy, with the word that is there. -/
theorem Reads.input (hr : Reads b) :
    (b.chip.coreInput p (b.pins p e)).ramioDataOutReady =
      !Cache.busy p.cache (b.cacheInput p e) b.chip.cache ∧
    Cache.accepted p.cache (b.cacheInput p e) b.chip.cache = [] := by
  have henable : b.chip.asked.cacheEnable = true := by rw [hr.asked_eq]
  have hread : (b.cacheInput p e).writeEnable = 0 := by
    change b.chip.asked.cacheWriteEnable = 0
    rw [hr.asked_eq]
    rfl
  refine ⟨?_, ?_⟩
  · refine (dataOutReady_of_ram (r := Soc.request b.chip.core) hr.address).trans ?_
    change Cache.dataOutReady p.cache (b.cacheInput p e) b.chip.cache = _
    have henabled : (b.cacheInput p e).enable = true := henable
    simp [Cache.dataOutReady, Cache.busy, hread, henabled]
  · simp [Cache.accepted, hread]

include h hp in
theorem Reads.dataOut (hr : Reads b) (ha : b.chip.core.ramioAddress.toNat < Emulator.memoryEnd)
    (hfree : Cache.busy p.cache (b.cacheInput p e) b.chip.cache = false) :
    (b.chip.coreInput p (b.pins p e)).ramioDataOut =
      loadData b.chip.core.ramioReadType b.chip.core.ramioAddress
        (M (b.chip.core.ramioAddress.toNat / 4)) := by
  have henable : b.chip.asked.cacheEnable = true := by rw [hr.asked_eq]
  have hhit : Cache.cacheLineHit p.cache (b.cacheInput p e) b.chip.cache = true := by
    rw [busy_of_enable henable, Bool.not_eq_false'] at hfree
    exact hfree
  have haddress : (b.cacheInput p e).address =
      b.chip.core.ramioAddress.extractLsb' 2 30 ++ 0#2 := by
    change b.chip.asked.cacheAddress = _
    rw [hr.asked_eq]
    rfl
  have hword := h.word hp.mode hhit
  rw [haddress, wordAddress_below hp ha] at hword
  have hdata : (b.chip.coreInput p (b.pins p e)).ramioDataOut =
      (wires (Soc.request b.chip.core) (b.chip.parts p (b.pins p e)) b.chip.ramio).dataOut := rfl
  rw [hdata, wires_of_read hr.enable hr.readType hr.writeType,
    readWires_ram (r := Soc.request b.chip.core) hr.address, ← hword]
  rfl

/-- A fetch gets its word, whatever its address, unless the cache is busy. -/
theorem fetch_ready (hshape : Soc.Shape b.chip.core) (hstate : b.chip.core.state = .cpuFetch)
    (hfree : Cache.busy p.cache (b.cacheInput p e) b.chip.cache = false) :
    (b.chip.coreInput p (b.pins p e)).ramioDataOutReady = true := by
  cases hport : isPort b.chip.core.ramioAddress with
  | true => exact dataOutReady_of_port (r := Soc.request b.chip.core) hport
  | false =>
      rw [(reads_of_shape hshape (.inl hstate) hport).input.1, hfree]
      rfl

theorem Writes.input (hw : Writes b) :
    (b.chip.coreInput p (b.pins p e)).ramioBusy =
      Cache.busy p.cache (b.cacheInput p e) b.chip.cache :=
  busy_of_ram (r := Soc.request b.chip.core) (RamPath.not_port hw.address)

include hp in
theorem Writes.written (hw : Writes b)
    (hfree : Cache.busy p.cache (b.cacheInput p e) b.chip.cache = false) :
    M.writeAll (Cache.accepted p.cache (b.cacheInput p e) b.chip.cache) =
      M.write ⟨b.chip.core.ramioAddress.toNat / 4,
        storeMask b.chip.core.ramioWriteType b.chip.core.ramioAddress,
        storeData b.chip.core.ramioWriteType b.chip.core.ramioAddress
          b.chip.core.ramioDataIn⟩ := by
  have hinput : b.cacheInput p e = { b.cacheInput p e with
      enable := true
      address := b.chip.core.ramioAddress.extractLsb' 2 30 ++ 0#2
      dataIn := storeData b.chip.core.ramioWriteType b.chip.core.ramioAddress
        b.chip.core.ramioDataIn
      writeEnable := storeMask b.chip.core.ramioWriteType b.chip.core.ramioAddress } := by
    unfold cacheInput Chip.cacheInput
    rw [hw.asked_eq]
    rfl
  by_cases hmask : storeMask b.chip.core.ramioWriteType b.chip.core.ramioAddress = 0
  · rw [hmask, WordMemory.write_disabled]
    have hnone : (b.cacheInput p e).writeEnable = 0 := by rw [hinput, hmask]
    simp [Cache.accepted, hnone]
  · have hwrite : ¬ storeMask b.chip.core.ramioWriteType b.chip.core.ramioAddress = 0#4 := hmask
    rw [Cache.accepted, hfree, hinput]
    simp [hwrite, wordAddress_below hp hw.address]

end Accesses

/-! ## Runs -/

/-- The wires of the core have their shape and the memory holds the words of `M`. -/
structure Sound (p : Params) (b : Board bitTime) (M : WordMemory) : Prop where
  shape : Soc.Shape b.chip.core
  coherent : Coherent p b M

/-- The boot image ends below the ports. -/
def Fits (p : Params) : Prop := p.core.flashTransferByteCount.toNat ≤ Emulator.memoryEnd

theorem fits_configuration : Fits configuration := by
  unfold Fits
  decide

theorem Sound.step (h : Sound p b M) (hp : Configured p) (hfits : Fits p)
    (hrun : Running e)
    (hfetch : b.chip.core.state = .cpuFetch → isPort b.chip.core.ramioAddress = false) :
    Sound p (b.step p memory e)
      (M.writeAll (Cache.accepted p.cache (b.cacheInput p e) b.chip.cache)) where
  shape := h.shape.step (i := b.chip.coreInput p (b.pins p e)) hrun.rstN
    (hfits.trans (by decide)) hfetch
  coherent := h.coherent.step hp.mode h.shape hrun

theorem Sound.keep (h : Sound p b M) (hp : Configured p) (hfits : Fits p) (hrun : Running e)
    (hfetch : b.chip.core.state = .cpuFetch → isPort b.chip.core.ramioAddress = false)
    (hnone : Cache.accepted p.cache (b.cacheInput p e) b.chip.cache = []) :
    Sound p (b.step p memory e) M := by
  have hnext : Sound p (b.step p memory e)
      (M.writeAll (Cache.accepted p.cache (b.cacheInput p e) b.chip.cache)) :=
    h.step hp hfits hrun hfetch
  rwa [hnone] at hnext

theorem Sound.wait (h : Sound p b M) (hp : Configured p) (hfits : Fits p)
    (hrun : Running e)
    (hbusy : Cache.busy p.cache (b.cacheInput p e) b.chip.cache = true) :
    Sound p (b.step p memory e) M :=
  h.keep hp hfits hrun (fun _ ↦ (waits hbusy).2.1) (Cache.accepted_of_busy hbusy)

section Runs

variable {start : Board bitTime} {env : ℕ → Surroundings}

/-- A controller that keeps acknowledging lets the cache serve every request. -/
theorem Sound.served (hp : Configured p) (hfits : Fits p) (hrun : ∀ n, Running (env n))
    (hfair : ∀ n, ∃ u ≥ n, (env u).ack = true) {n : ℕ} (h : Sound p (run p memory start env n) M) :
    ∃ u ≥ n, Sound p (run p memory start env u) M ∧
      Cache.busy p.cache ((run p memory start env u).cacheInput p (env u))
        (run p memory start env u).chip.cache = false := by
  by_contra hnever
  have hbusy (k : ℕ) : Sound p (run p memory start env (n + k)) M ∧
      Cache.busy p.cache ((run p memory start env (n + k)).cacheInput p (env (n + k)))
        (run p memory start env (n + k)).chip.cache = true := by
    induction k with
    | zero =>
        refine ⟨h, ?_⟩
        rw [← Bool.not_eq_false]
        exact fun hfree ↦ hnever ⟨n, le_rfl, h, hfree⟩
    | succ k ih =>
        have hnext : Sound p (run p memory start env (n + k + 1)) M :=
          ih.1.wait hp hfits (hrun (n + k)) ih.2
        refine ⟨hnext, ?_⟩
        rw [← Bool.not_eq_false]
        exact fun hfree ↦ hnever ⟨n + k + 1, by omega, hnext, hfree⟩
  refine Clocked.not_always_decreasing (Q := fun k ↦ (env (n + k)).ack = true)
    (μ := fun k ↦ Cache.toServe p.cache 1 1
      ((run p memory start env (n + k)).cacheInput p (env (n + k)))
      (run p memory start env (n + k)).chip.cache) ?_ ?_
  · intro k
    obtain ⟨hsound, hwaits⟩ := hbusy k
    have hnext : run p memory start env (n + (k + 1)) =
        (run p memory start env (n + k)).step p memory (env (n + k)) := rfl
    have hsame : Cache.SameRequest
        ((run p memory start env (n + k)).cacheInput p (env (n + k)))
        ((run p memory start env (n + (k + 1))).cacheInput p (env (n + (k + 1)))) := by
      rw [hnext]
      exact sameRequest_of_asked (asked_congr (held hsound.shape (hrun (n + k)) hwaits).1)
    have hedge : Cache.Edge p.cache ((run p memory start env (n + k)).cacheInput p (env (n + k)))
        (run p memory start env (n + k)).chip.cache
        (run p memory start env (n + (k + 1))).chip.cache := by
      rw [hnext]
      exact hsound.coherent.edge (hrun (n + k))
    rcases hedge.serves (K := 1) hwaits hsame (hbusy (k + 1)).2 with hstalls | hadvances
    · obtain ⟨r, hr⟩ := hstalls.rest
      refine .inr ⟨by rw [Bool.not_eq_true]; exact hstalls.ack, ?_⟩
      exact (hr 1).2.trans (hr 1).1.symm
    · exact .inl (hadvances.less 1 le_rfl)
  · intro k
    obtain ⟨u, hu, hack⟩ := hfair (n + k)
    exact ⟨u - n, by omega, by rwa [Nat.add_sub_cancel' (by omega)]⟩

end Runs

end TangNano.Top.Board
