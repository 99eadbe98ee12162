import TangNano.Ramio.Model

/-!
# What a request does

Off the ports a request goes to the cache; at a port the cache sees nothing and
at most the SD card gets a command.
-/

namespace TangNano.Ramio

theorem cacheAddress_div (address : Word) :
    (address.extractLsb' 2 30 ++ 0#2).toNat / 4 = address.toNat / 4 := by
  have hlt := address.isLt
  rw [BitVec.toNat_append, BitVec.extractLsb'_toNat]
  simp [Nat.shiftLeft_eq, Nat.shiftRight_eq_div_pow]
  omega

section Decoding

variable {r : Request} {q q' : Parts} {s s' : Regs}

/-- What the cache is asked. -/
def cacheRequest (w : Wires) : Bool × Word × Word × BitVec 4 :=
  (w.cacheEnable, w.cacheAddress, w.cacheDataIn, w.cacheWriteEnable)

theorem isPort_iff (address : Word) : isPort address = true ↔
    address = addressUartOut ∨ address = addressUartIn ∨ address = addressLed ∨
      address = addressSDCardBusy ∨ address = addressSDCardReadSector ∨
      address = addressSDCardWriteSector ∨ address = addressSDCardNextByte ∨
      address = addressSDCardStatus := by
  simp [isPort, or_assoc]

theorem dataOutReady_of_port (h : isPort r.address = true) : dataOutReady r q = true := if_pos h

theorem dataOutReady_of_ram (h : isPort r.address = false) :
    dataOutReady r q = q.cacheDataOutReady := by
  rw [dataOutReady, h]
  rfl

theorem busy_of_port (h : isPort r.address = true) : busy r q = false := if_pos h

theorem busy_of_ram (h : isPort r.address = false) : busy r q = q.cacheBusy := by
  rw [busy, h]
  rfl

theorem wires_of_disabled (henable : r.enable = false) :
    wires r q s = idleWires r.address := by
  simp [wires, henable]

theorem wires_of_read (henable : r.enable = true) (hread : r.readType ≠ 0)
    (hwrite : r.writeType = 0) :
    wires r q s = readWires r q s (idleWires r.address) := by
  unfold wires
  dsimp only
  rw [if_pos henable, if_pos hread, if_neg (not_not.mpr hwrite)]

theorem wires_of_write (henable : r.enable = true) (hread : r.readType = 0)
    (hwrite : r.writeType ≠ 0) :
    wires r q s = writeWires r (idleWires r.address) := by
  unfold wires
  dsimp only
  rw [if_pos henable, if_neg (not_not.mpr hread), if_pos hwrite]

theorem wires_of_neither (hread : r.readType = 0) (hwrite : r.writeType = 0) :
    wires r q s = idleWires r.address := by
  unfold wires
  dsimp only
  rw [if_neg (not_not.mpr hread), if_neg (not_not.mpr hwrite), ite_self]

/-- At a port only the SD card gets something. -/
theorem readWires_port (hport : isPort r.address = true) (w : Wires) :
    cacheRequest (readWires r q s w) = cacheRequest w ∧
      (readWires r q s w).sdcardCommand =
        if r.address = addressSDCardNextByte then 2 else w.sdcardCommand := by
  rcases (isPort_iff _).mp hport with h | h | h | h | h | h | h | h <;>
    · unfold readWires
      rw [h]
      exact ⟨rfl, rfl⟩

theorem readWires_ram (hport : isPort r.address = false) (w : Wires) :
    readWires r q s w = { w with
      cacheEnable := true
      dataOut := loadData r.readType r.address q.cacheDataOut } := by
  have hne := (isPort_iff r.address).not.mp (Bool.eq_false_iff.mp hport)
  simp only [not_or] at hne
  obtain ⟨hout, hin, hled, hbusy, hsector, hwrite, hbyte, hstatus⟩ := hne
  unfold readWires
  rw [if_neg hled, if_neg hsector, if_neg hwrite, if_neg hout, if_neg hin, if_neg hbusy,
    if_neg hstatus, if_neg hbyte]

theorem cacheEnable_of_read (henable : r.enable = true) (hread : r.readType ≠ 0)
    (hwrite : r.writeType = 0) (hport : isPort r.address = false) :
    (wires r q s).cacheEnable = true ∧ (wires r q s).cacheWriteEnable = 0 := by
  rw [wires_of_read henable hread hwrite, readWires_ram hport]
  exact ⟨rfl, rfl⟩

theorem writeWires_port (hport : isPort r.address = true) (w : Wires) :
    cacheRequest (writeWires r w) = cacheRequest w ∧
      (writeWires r w).sdcardCommand =
        if r.address = addressSDCardNextByte then 3
        else if r.address = addressSDCardReadSector then 1
        else if r.address = addressSDCardWriteSector then 4
        else w.sdcardCommand := by
  rcases (isPort_iff _).mp hport with h | h | h | h | h | h | h | h <;>
    · unfold writeWires
      rw [h]
      exact ⟨rfl, rfl⟩

theorem writeWires_ram (hport : isPort r.address = false) (w : Wires) :
    writeWires r w = { w with
      cacheEnable := true
      cacheWriteEnable := storeMask r.writeType r.address
      cacheDataIn := storeData r.writeType r.address r.dataIn } := by
  have hne := (isPort_iff r.address).not.mp (Bool.eq_false_iff.mp hport)
  simp only [not_or] at hne
  obtain ⟨hout, hin, hled, hbusy, hsector, hwrite, hbyte, hstatus⟩ := hne
  unfold writeWires
  rw [if_neg hout, if_neg hin, if_neg hled, if_neg hbusy, if_neg hstatus, if_neg hbyte,
    if_neg hsector, if_neg hwrite]

/-- The cache sees the request and nothing else. -/
theorem cacheRequest_congr :
    cacheRequest (wires r q s) = cacheRequest (wires r q' s') := by
  unfold wires
  dsimp only
  by_cases hread : r.readType ≠ 0
  · rw [if_pos hread, if_pos hread]
    cases hport : isPort r.address with
    | true =>
        split
        · rw [(readWires_port hport _).1, (readWires_port hport _).1]
        · rfl
    | false =>
        rw [readWires_ram hport, readWires_ram hport]
        split <;> rfl
  · rw [if_neg hread, if_neg hread]

theorem cacheRequest_of_port (hport : isPort r.address = true) :
    cacheRequest (wires r q s) = cacheRequest (idleWires r.address) := by
  have hwritten : cacheRequest (if r.writeType ≠ 0 then writeWires r (idleWires r.address)
      else idleWires r.address) = cacheRequest (idleWires r.address) := by
    split
    · exact (writeWires_port hport _).1
    · rfl
  unfold wires
  dsimp only
  split
  · split
    · rw [(readWires_port hport _).1, hwritten]
    · exact hwritten
  · rfl

/-- Only an enabled request off the ports goes to the cache. -/
theorem of_cacheEnable (h : (wires r q s).cacheEnable = true) :
    r.enable = true ∧ isPort r.address = false := by
  refine ⟨?_, ?_⟩
  · by_contra hdisabled
    rw [wires_of_disabled (Bool.eq_false_iff.mpr hdisabled)] at h
    exact Bool.false_ne_true h
  · by_contra hport
    have hidle := congrArg Prod.fst
      (cacheRequest_of_port (q := q) (s := s) (Bool.not_eq_false _ ▸ hport))
    exact Bool.false_ne_true (hidle.symm.trans h)

theorem sdcardCommand_ram (hport : isPort r.address = false) :
    (wires r q s).sdcardCommand = 0 := by
  unfold wires
  simp only [readWires_ram hport, writeWires_ram hport]
  split_ifs <;> rfl

end Decoding

end TangNano.Ramio
