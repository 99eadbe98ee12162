import TangNano.Os.Run
import TangNano.SdCard.FirstUse

/-!
# The game on the card

On the board the commands for the SD card call its drivers.  A session on the
hardware, from power-up on, shows what one on a store of sectors shows.
-/

namespace TangNano.Os

open SdCardPort SdDriver Service

/-! ## The commands -/

def sectorText (buf : Sector) : Text := (List.range sectorSize).map fun i ↦ buf (BitVec.ofNat 9 i)

/-- A text in a buffer of zeros. -/
def textSector (text : Text) : Sector := fun i ↦ text.getD i.toNat 0

/-- `old` is what the array holds that is not initialised. -/
def actionSdcardReadOn {σ : Type} (P : Ports σ) (fuel : ℕ) (old : Sector) (args : Text) (os : State)
    (x : σ) : Option (State × σ) :=
  let w1 := stringNextWord args
  if w1.word.isEmpty then some (os.uartSendCstr "<sector>\r\n", x)
  else do
    let (buf, x) ← sdcardReadBlocking P fuel (stringToUint32 w1.word) old x
    some ((os.stringPrint (sectorText buf)).uartSendCstr "\r\n", x)

def actionSdcardWriteOn {σ : Type} (P : Ports σ) (fuel : ℕ) (args : Text) (os : State) (x : σ) :
    Option (State × σ) :=
  let w1 := stringNextWord args
  if w1.word.isEmpty then some (os.uartSendCstr "<sector> <text>\r\n", x)
  else if w1.rem.length > sectorSize then
    some (os.uartSendCstr "<text> exceeds sector size\r\n", x)
  else do
    let x ← sdcardWriteBlocking P fuel (stringToUint32 w1.word) (textSector w1.rem) x
    some (os, x)

/-- The port is loaded when the command is handled. -/
def actionSdcardStatusOn {σ : Type} (P : Ports σ) (os : State) (x : σ) : Option (State × σ) := do
  let (status, x) ← P.load sdcardStatus x
  some (actionSdcardStatus status os, x)

/-- Lines are handled with a device behind the ports.  The sectors in the state are
not used. -/
def onDrivers {σ : Type} (memTest : Text) (P : Ports σ) (fuel : ℕ) (old : State → Sector) :
    Handler σ := fun eid line os x ↦
  let w1 := stringNextWord line
  if stringEqualsCstr w1.word (cstr "sds") then actionSdcardStatusOn P os x
  else if stringEqualsCstr w1.word (cstr "sdr") then actionSdcardReadOn P fuel (old os) w1.rem os x
  else if stringEqualsCstr w1.word (cstr "sdw") then actionSdcardWriteOn P fuel w1.rem os x
  else
    -- no other command asks for the status
    (handleInput ⟨memTest, 0⟩ eid line os).map fun os ↦ (os, x)

/-! ## Texts in sectors -/

theorem sectorText_textSector {text : Text} (h : text.length ≤ sectorSize) :
    sectorText (textSector text) = text ++ List.replicate (sectorSize - text.length) 0 := by
  have hlength : (text ++ List.replicate (sectorSize - text.length) (0 : Byte)).length =
      sectorSize := by
    rw [List.length_append, List.length_replicate, Nat.add_sub_cancel' h]
  apply List.ext_getElem
  · rw [hlength, sectorText, List.length_map, List.length_range]
  · intro i hi hi'
    have hlt : i < sectorSize := lt_of_lt_of_eq hi' hlength
    have hsize : i < 2 ^ 9 := lt_of_lt_of_eq hlt (by decide)
    have hindex : (BitVec.ofNat 9 i).toNat = i := by
      rw [BitVec.toNat_ofNat]
      exact Nat.mod_eq_of_lt hsize
    rw [← List.getD_eq_getElem _ 0 hi']
    simp only [sectorText, List.getElem_map, List.getElem_range, textSector, hindex]
    rcases Nat.lt_or_ge i text.length with hlt | hge
    · rw [List.getD_append _ _ _ _ hlt]
    · rw [List.getD_append_right _ _ _ _ hge, List.getD_eq_default _ _ hge]
      exact (List.getD_replicate _ (by omega)).symm

/-! ## What lines store -/

/-- The sector that a line stores and its bytes. -/
def stored (line : Text) : Option (Word × Text) :=
  let w1 := stringNextWord line
  let w2 := stringNextWord w1.rem
  if w1.word = cstr "sdw" ∧ w2.word ≠ [] ∧ w2.rem.length ≤ sectorSize then
    some (stringToUint32 w2.word, w2.rem ++ List.replicate (sectorSize - w2.rem.length) 0)
  else none

/-- The sector that a line reads or stores. -/
def addressed (line : Text) : Option Word :=
  let w1 := stringNextWord line
  let w2 := stringNextWord w1.rem
  if w1.word = cstr "sdr" ∧ w2.word ≠ [] then some (stringToUint32 w2.word)
  else (stored line).map Prod.fst

theorem addressed_read {line : Text} (h : (stringNextWord line).word = cstr "sdr") :
    addressed line = if (stringNextWord (stringNextWord line).rem).word ≠ [] then
      some (stringToUint32 (stringNextWord (stringNextWord line).rem).word) else none := by
  have hwrite : cstr "sdr" ≠ cstr "sdw" := by decide
  simp only [addressed, stored, h, hwrite, true_and, false_and, if_false, Option.map_none]

theorem addressed_write {line : Text} (h : (stringNextWord line).word = cstr "sdw") :
    addressed line = if (stringNextWord (stringNextWord line).rem).word ≠ [] ∧
        (stringNextWord (stringNextWord line).rem).rem.length ≤ sectorSize then
      some (stringToUint32 (stringNextWord (stringNextWord line).rem).word) else none := by
  have hread : cstr "sdw" ≠ cstr "sdr" := by decide
  simp only [addressed, stored, h, hread, true_and, false_and, if_false]
  split <;> rfl

theorem addressed_of_ne {line : Text} (hread : (stringNextWord line).word ≠ cstr "sdr")
    (hwrite : (stringNextWord line).word ≠ cstr "sdw") : addressed line = none := by
  unfold addressed stored
  dsimp only
  rw [if_neg fun h ↦ hread h.1, if_neg fun h ↦ hwrite h.1]
  rfl

/-- If the line reads or stores a sector it is one of these. -/
def Inside (valid : Word → Prop) (line : Text) : Prop :=
  ∀ sector, addressed line = some sector → valid sector

def storeLine (card : Word → Text) (line : Text) : Word → Text :=
  match stored line with
  | some (sector, text) => Function.update card sector text
  | none => card

/-- What the sectors hold after some lines. -/
def storeLines (lines : List Text) (card : Word → Text) : Word → Text := lines.foldl storeLine card

/-- The line is one that shows the status of the card. -/
def AsksStatus (line : Text) : Prop := (stringNextWord line).word = cstr "sds"

instance (line : Text) : Decidable (AsksStatus line) :=
  inferInstanceAs (Decidable ((stringNextWord line).word = cstr "sds"))

theorem AsksStatus.addressed {line : Text} (h : AsksStatus line) : addressed line = none := by
  have hword : (stringNextWord line).word = cstr "sds" := h
  exact addressed_of_ne (hword ▸ by decide) (hword ▸ by decide)

/-- What lines find in `SDCARD_STATUS`: 6, or something else if it is asked for before a sector
has been read or stored. -/
def Finds (early : Word → Prop) : Bool → List Text → Stream' Word → Prop
  | _, [], status => status = Stream'.const 6
  | used, line :: lines, status =>
      (status.head = 6 ∨ used = false ∧ AsksStatus line ∧ early status.head) ∧
        Finds early (used || (addressed line).isSome) lines status.tail

/-! ## One command -/

/-- The same is shown, whatever the state holds of the card. -/
structure SameShown (os os' : State) : Prop where
  world : os.world = os'.world
  output : os.output = os'.output
  exited : os.exited = os'.exited

theorem SameShown.symm {os os' : State} (h : SameShown os os') : SameShown os' os :=
  ⟨h.world.symm, h.output.symm, h.exited.symm⟩

theorem respected_sameShown : Respected SameShown where
  world h := h.world
  print h str := ⟨h.world, congrArg (· ++ str) h.output, h.exited⟩
  change h _ := ⟨rfl, h.output, h.exited⟩
  exit h := ⟨h.world, h.output, rfl⟩

section Platform

variable {p : Platform} {eid : Id} {line : Text} {os os' : State}

theorem handleInput_status (h : AsksStatus line) :
    handleInput p eid line os = some (actionSdcardStatus p.sdcardStatus os) := by
  have hword : (stringNextWord line).word = cstr "sds" := h
  rw [handleInput, hword]
  rfl

theorem handleInput_read (h : (stringNextWord line).word = cstr "sdr") :
    handleInput p eid line os = some (actionSdcardRead (stringNextWord line).rem os) := by
  rw [handleInput, h]
  rfl

theorem handleInput_write (h : (stringNextWord line).word = cstr "sdw") :
    handleInput p eid line os = some (actionSdcardWrite (stringNextWord line).rem os) := by
  rw [handleInput, h]
  rfl

theorem actionSdcardRead_card (args : Text) : (actionSdcardRead args os).card = os.card := by
  unfold actionSdcardRead
  dsimp only
  split <;> rfl

theorem actionSdcardWrite_card (args : Text) :
    (actionSdcardWrite args os).card =
      if (stringNextWord args).word ≠ [] ∧ (stringNextWord args).rem.length ≤ sectorSize then
        Function.update os.card (stringToUint32 (stringNextWord args).word)
          ((stringNextWord args).rem ++
            List.replicate (sectorSize - (stringNextWord args).rem.length) 0)
      else os.card := by
  unfold actionSdcardWrite
  generalize stringNextWord args = w1
  by_cases hempty : w1.word = []
  · simp [hempty, State.uartSendCstr, State.stringPrint]
  by_cases hlong : w1.rem.length > sectorSize
  · simp [hempty, hlong, State.uartSendCstr, State.stringPrint]
  · have hfits : w1.rem.length ≤ sectorSize := Nat.le_of_not_lt hlong
    simp [hempty, hlong, hfits, State.sdcardWriteBlocking]

/-- A command that does not write leaves the card as it is. -/
theorem handleInput_card (h : handleInput p eid line os = some os') :
    os'.card = storeLine os.card line := by
  unfold storeLine stored
  by_cases hsdw : (stringNextWord line).word = cstr "sdw"
  · rw [handleInput_write hsdw] at h
    obtain rfl := Option.some.inj h
    rw [actionSdcardWrite_card]
    simp only [hsdw, true_and]
    split <;> rfl
  · have hR : Respected fun os₁ os₂ ↦ os₁ = os₂ ∧ os₁.card = os.card :=
      ⟨fun h ↦ congrArg State.world h.1, fun h _ ↦ ⟨by rw [h.1], h.2⟩,
        fun h _ ↦ ⟨by rw [h.1], h.2⟩, fun h ↦ ⟨by rw [h.1], h.2⟩⟩
    have hstart : os = os ∧ os.card = os.card := ⟨rfl, rfl⟩
    obtain ⟨-, -, -, hcard⟩ := hR.handleInput hstart eid p p line
      (fun _ ↦ hR.memTest hstart p) (fun _ ↦ hR.status hstart p.sdcardStatus)
      (fun _ ↦ ⟨rfl, actionSdcardRead_card _⟩) (fun hword ↦ absurd hword hsdw) os' h
    simp only [hsdw, false_and, if_false]
    exact hcard

end Platform

section Devices

variable {σ : Type} {P : Ports σ} {valid early : Word → Prop}
  {R : Bool → σ → (Word → Sector) → Prop}

theorem sdcardReadBlocking_of_driver {fuel : ℕ} {sector : Word} {old buf : Sector} {x y : σ}
    (h : driver P fuel (.read sector old) x = some (some buf, y)) :
    sdcardReadBlocking P fuel sector old x = some (buf, y) := by
  cases hread : sdcardReadBlocking P fuel sector old x with
  | none =>
      simp only [driver, hread, Option.bind_eq_bind, Option.bind_none] at h
      cases h
  | some r =>
      simp only [driver, hread, Option.bind_eq_bind, Option.bind_some] at h
      obtain ⟨hbuf, rfl⟩ := Prod.mk.inj (Option.some.inj h)
      rw [← Option.some.inj hbuf]

theorem sdcardWriteBlocking_of_driver {fuel : ℕ} {sector : Word} {buf : Sector} {x y : σ}
    (h : driver P fuel (.write sector buf) x = some (none, y)) :
    sdcardWriteBlocking P fuel sector buf x = some y := by
  cases hwrite : sdcardWriteBlocking P fuel sector buf x with
  | none =>
      simp only [driver, hwrite, Option.bind_eq_bind, Option.bind_none] at h
      cases h
  | some z =>
      simp only [driver, hwrite, Option.bind_eq_bind, Option.bind_some] at h
      exact congrArg some (Prod.mk.inj (Option.some.inj h)).2

/-- The drivers make a store of the device, which is used from the first call on.  Then
its status is 6. -/
structure Drives (P : Ports σ) (valid early : Word → Prop)
    (R : Bool → σ → (Word → Sector) → Prop) : Prop where
  call : ∀ c used x sectors, valid c.block → R used x sectors → ∃ y n,
    (∀ fuel ≥ n, driver P fuel c x = some ((Service.store c sectors).1, y)) ∧
      R true y (Service.store c sectors).2
  status : ∀ used x sectors, R used x sectors → ∃ v y,
    P.load sdcardStatus x = some (v, y) ∧ (v = 6 ∨ used = false ∧ early v) ∧ R used y sectors

def cardTexts (sectors : Word → Sector) (sector : Word) : Text := sectorText (sectors sector)

theorem cardTexts_update (sectors : Word → Sector) (sector : Word) {text : Text}
    (h : text.length ≤ sectorSize) :
    cardTexts (Function.update sectors sector (textSector text)) =
      Function.update (cardTexts sectors) sector
        (text ++ List.replicate (sectorSize - text.length) 0) := by
  funext k
  unfold cardTexts
  by_cases hk : k = sector
  · rw [hk, Function.update_self, Function.update_self, sectorText_textSector h]
  · rw [Function.update_of_ne hk, Function.update_of_ne hk]

variable (hP : Drives P valid early R) {os os' : State} (hsame : SameShown os' os) {x : σ}
  {sectors : Word → Sector} {used : Bool} (hx : R used x sectors)
  (hcard : os.card = cardTexts sectors)
  {line : Text} (hinside : Inside valid line)
include hP hsame hx hcard hinside

theorem Drives.read (hword : (stringNextWord line).word = cstr "sdr") (old : Sector) :
    ∃ os'' y n, (∀ fuel ≥ n,
        actionSdcardReadOn P fuel old (stringNextWord line).rem os' x = some (os'', y)) ∧
      SameShown os'' (actionSdcardRead (stringNextWord line).rem os) ∧
      R (used || (addressed line).isSome) y sectors := by
  rw [Inside, addressed_read hword] at hinside
  rw [addressed_read hword]
  unfold actionSdcardReadOn actionSdcardRead
  dsimp only
  generalize stringNextWord (stringNextWord line).rem = w1 at hinside ⊢
  by_cases hempty : w1.word = []
  · simp only [hempty, List.isEmpty_nil, if_true, ne_eq, not_true, if_false, Option.isSome_none,
      Bool.or_false]
    exact ⟨_, x, 0, fun _ _ ↦ rfl, respected_sameShown.send hsame _, hx⟩
  · obtain ⟨y, n, hcall, hy⟩ := hP.call (.read (stringToUint32 w1.word) old) used x sectors
      (hinside _ (if_pos hempty)) hx
    have hread (fuel : ℕ) (hfuel : fuel ≥ n) := sdcardReadBlocking_of_driver (hcall fuel hfuel)
    have htext : sectorText (sectors (stringToUint32 w1.word)) =
        os.card (stringToUint32 w1.word) := by
      rw [hcard]
      rfl
    have hprint : SameShown os' { os with
        accesses := os.accesses ++ [.read (stringToUint32 w1.word)] } :=
      ⟨hsame.world, hsame.output, hsame.exited⟩
    simp only [List.isEmpty_iff, hempty, if_false, ne_eq, not_false_eq_true, if_true,
      Option.isSome_some, Bool.or_true]
    refine ⟨(os'.stringPrint (sectorText (sectors (stringToUint32 w1.word)))).uartSendCstr "\r\n",
      y, n, fun fuel hfuel ↦ ?_, ?_, hy⟩
    · simp only [hread fuel hfuel, Option.bind_eq_bind, Option.bind_some]
    · rw [htext]
      exact respected_sameShown.send (respected_sameShown.print hprint _) _

theorem Drives.write (hword : (stringNextWord line).word = cstr "sdw") :
    ∃ os'' y sectors' n, (∀ fuel ≥ n,
        actionSdcardWriteOn P fuel (stringNextWord line).rem os' x = some (os'', y)) ∧
      SameShown os'' (actionSdcardWrite (stringNextWord line).rem os) ∧
      R (used || (addressed line).isSome) y sectors' ∧
      (actionSdcardWrite (stringNextWord line).rem os).card = cardTexts sectors' := by
  rw [Inside, addressed_write hword] at hinside
  rw [addressed_write hword]
  unfold actionSdcardWriteOn actionSdcardWrite
  dsimp only
  generalize stringNextWord (stringNextWord line).rem = w1 at hinside ⊢
  by_cases hempty : w1.word = []
  · simp only [hempty, List.isEmpty_nil, if_true, ne_eq, not_true, false_and, if_false,
      Option.isSome_none, Bool.or_false]
    exact ⟨_, x, sectors, 0, fun _ _ ↦ rfl, respected_sameShown.send hsame _, hx, hcard⟩
  by_cases hlong : w1.rem.length > sectorSize
  · simp only [List.isEmpty_iff, hempty, hlong, Nat.not_le.mpr hlong, and_false, if_false, if_true,
      Option.isSome_none, Bool.or_false]
    exact ⟨_, x, sectors, 0, fun _ _ ↦ rfl, respected_sameShown.send hsame _, hx, hcard⟩
  · have hfits : w1.rem.length ≤ sectorSize := Nat.le_of_not_lt hlong
    obtain ⟨y, n, hcall, hy⟩ := hP.call (.write (stringToUint32 w1.word) (textSector w1.rem)) used x
      sectors (hinside _ (if_pos ⟨hempty, hfits⟩)) hx
    have hwrite (fuel : ℕ) (hfuel : fuel ≥ n) := sdcardWriteBlocking_of_driver (hcall fuel hfuel)
    simp only [List.isEmpty_iff, hempty, hlong, hfits, ne_eq, not_false_eq_true, and_self, if_false,
      if_true, Option.isSome_some, Bool.or_true]
    refine ⟨os', y, _, n, fun fuel hfuel ↦ ?_, ⟨hsame.world, hsame.output, hsame.exited⟩, hy, ?_⟩
    · simp only [hwrite fuel hfuel, Option.bind_eq_bind, Option.bind_some]
    · rw [Service.store, cardTexts_update _ _ hfits, ← hcard]
      rfl

/-- A line does with the drivers what it does with the sectors in the state and what it finds
in the port of the status. -/
theorem Drives.handle (memTest : Text) (old : State → Sector) {eid : Id}
    (hworld : os.world.Playable) (heid : IsPlayer eid) :
    ∃ v os₁ os₂ y sectors' n, (v = 6 ∨ used = false ∧ AsksStatus line ∧ early v) ∧
      handleInput ⟨memTest, v⟩ eid line os = some os₁ ∧
      (∀ fuel ≥ n, onDrivers memTest P fuel old eid line os' x = some (os₂, y)) ∧
      SameShown os₂ os₁ ∧ R (used || (addressed line).isSome) y sectors' ∧
      os₁.card = cardTexts sectors' := by
  unfold onDrivers
  dsimp only
  by_cases hsds : stringEqualsCstr (stringNextWord line).word (cstr "sds") = true
  · have hword : AsksStatus line := (stringEqualsCstr_iff _ _).mp hsds
    obtain ⟨v, y, hload, hv, hy⟩ := hP.status used x sectors hx
    rw [hword.addressed, Option.isSome_none, Bool.or_false]
    simp only [hsds, if_true, actionSdcardStatusOn, hload, Option.bind_eq_bind, Option.bind_some]
    exact ⟨v, _, _, y, sectors, 0, hv.imp_right fun h ↦ ⟨h.1, hword, h.2⟩,
      handleInput_status hword, fun _ _ ↦ rfl, respected_sameShown.status hsame v, hy, hcard⟩
  by_cases hsdr : stringEqualsCstr (stringNextWord line).word (cstr "sdr") = true
  · have hword := (stringEqualsCstr_iff _ _).mp hsdr
    obtain ⟨os₂, y, n, hread, hshown, hy⟩ := hP.read hsame hx hcard hinside hword (old os')
    simp only [hsds, hsdr, if_true, Bool.false_eq_true, if_false]
    exact ⟨6, _, os₂, y, sectors, n, .inl rfl, handleInput_read hword, hread, hshown, hy,
      (actionSdcardRead_card _).trans hcard⟩
  by_cases hsdw : stringEqualsCstr (stringNextWord line).word (cstr "sdw") = true
  · have hword := (stringEqualsCstr_iff _ _).mp hsdw
    obtain ⟨os₂, y, sectors', n, hwrite, hshown, hy, hcard'⟩ :=
      hP.write hsame hx hcard hinside hword
    simp only [hsds, hsdr, hsdw, if_true, Bool.false_eq_true, if_false]
    exact ⟨6, _, os₂, y, sectors', n, .inl rfl, handleInput_write hword, hwrite, hshown, hy, hcard'⟩
  · have hstatus := (stringEqualsCstr_iff _ _).not.mp hsds
    have hread := (stringEqualsCstr_iff _ _).not.mp hsdr
    have hwrite := (stringEqualsCstr_iff _ _).not.mp hsdw
    obtain ⟨os₁, hos₁, -, -⟩ := hworld.handleInput heid ⟨memTest, 6⟩ line
    obtain ⟨os₂, hos₂, hshown⟩ := respected_sameShown.handleInput hsame.symm eid ⟨memTest, 6⟩
      ⟨memTest, 0⟩ line (fun _ ↦ respected_sameShown.memTest hsame.symm _)
      (fun h ↦ absurd h hstatus) (fun h ↦ absurd h hread) (fun h ↦ absurd h hwrite) os₁ hos₁
    have hkept : storeLine os.card line = os.card := by
      unfold storeLine stored
      simp only [hwrite, false_and, if_false]
    rw [addressed_of_ne hread hwrite, Option.isSome_none, Bool.or_false]
    simp only [hsds, hsdr, hsdw, Bool.false_eq_true, if_false]
    exact ⟨6, os₁, os₂, x, sectors, 0, .inl rfl, hos₁, fun _ _ ↦ by rw [hos₂]; rfl, hshown.symm, hx,
      (handleInput_card hos₁).trans (hkept.trans hcard)⟩

end Devices

/-! ## Sessions -/

namespace Session

/-- The session on another device. -/
def on {σ τ : Type} (s : Session σ) (x : τ) : Session τ := ⟨s.os, x, s.activeEntity, s.input⟩

variable {σ : Type} {P : Ports σ} {valid early : Word → Prop}
  {R : Bool → σ → (Word → Sector) → Prop} {used : Bool}

/-- On the device the session is where it is with the sectors in the state. -/
structure Mirrors (R : Bool → σ → (Word → Sector) → Prop) (used : Bool) (s : Session Unit)
    (s' : Session σ) : Prop where
  shown : SameShown s.os s'.os
  active : s'.activeEntity = s.activeEntity
  input : s'.input = s.input
  playable : s.os.world.Playable
  player : IsPlayer s.activeEntity
  device : ∃ sectors, R used s'.device sectors ∧ s.os.card = cardTexts sectors

theorem Mirrors.output {τ : Type} {s : Session Unit} {s' : Session σ} (h : Mirrors R used s s')
    (x : τ) : s'.output = (s.on x).output := by
  rw [Session.output, Session.output, h.input, ← h.shown.output]
  rfl

theorem lifts_await {os os' : State} (h : SameShown os os') (x : σ) (eid : Id)
    (cmdBuf : CursorBuffer commandBufferSize) :
    Lifts (fun s s' ↦ SameShown s.os s'.os ∧ s'.device = x ∧ s'.activeEntity = s.activeEntity ∧
      s'.input = s.input) (await eid cmdBuf os ()) (await eid cmdBuf os' x) := by
  unfold await
  dsimp only
  rw [h.world]
  refine (respected_sameShown.printLocation h _ _).bind fun os₁ os₁' h₁ ↦ ?_
  refine (respected_sameShown.sendName h₁ _).bind fun os₂ os₂' h₂ ↦ lifts_some ?_
  exact ⟨respected_sameShown.send h₂ " > ", rfl, rfl, rfl⟩

theorem mirrors_await {os os' : State} (h : SameShown os os') (hworld : os.world.Playable)
    {eid : Id} (heid : IsPlayer eid) {x : σ} {sectors : Word → Sector} (hx : R used x sectors)
    (hcard : os.card = cardTexts sectors) (cmdBuf : CursorBuffer commandBufferSize) :
    ∃ t t', (∀ {τ : Type} (device : τ), await eid cmdBuf os device = some (t.on device)) ∧
      await eid cmdBuf os' x = some t' ∧ Mirrors R used t t' ∧ t.os.card = os.card ∧
      t.input = .start cmdBuf := by
  obtain ⟨os₁, hawait, hsame, -⟩ := hworld.await heid cmdBuf
  obtain ⟨t', hawait', hshown, hdevice, hactive, hinput⟩ :=
    lifts_await h x eid cmdBuf _ (hawait ())
  have hplayable : os₁.world.Playable := by
    rw [hsame.world]
    exact hworld
  refine ⟨⟨os₁, (), eid, .start cmdBuf⟩, t', hawait, hawait', ⟨hshown, hactive, hinput, hplayable,
    heid, sectors, ?_, hsame.card.trans hcard⟩, hsame.card, rfl⟩
  rw [hdevice]
  exact hx

theorem Mirrors.goes_on {s : Session Unit} {s' : Session σ} (h : Mirrors R used s s') {ch : Byte}
    (hreturned : (s.input.readChar charCarriageReturn ch).returned = false) (handle : Handler σ) :
    s'.receive handle ch = some { s' with input := s.input.readChar charCarriageReturn ch } ∧
      Mirrors R used { s with input := s.input.readChar charCarriageReturn ch }
        { s' with input := s.input.readChar charCarriageReturn ch } := by
  refine ⟨?_, h.shown, h.active, rfl, h.playable, h.player, h.device⟩
  rw [← h.input] at hreturned ⊢
  exact receive_goes_on hreturned

variable (hP : Drives P valid early R) (memTest : Text) (old : State → Sector)
include hP

theorem Mirrors.receive {s : Session Unit} {s' : Session σ} (h : Mirrors R used s s') {ch : Byte}
    (hreturned : (s.input.readChar charCarriageReturn ch).returned = true)
    (hinside : Inside valid (s.input.readChar charCarriageReturn ch).cmdBuf.span) :
    ∃ v t t' n, (v = 6 ∨ used = false ∧
        AsksStatus (s.input.readChar charCarriageReturn ch).cmdBuf.span ∧ early v) ∧
      (∀ ps, (s.on (Stream'.cons ⟨memTest, v⟩ ps)).receive onStore ch = some (t.on ps)) ∧
      (∀ fuel ≥ n, s'.receive (onDrivers memTest P fuel old) ch = some t') ∧
      Mirrors R (used || (addressed (s.input.readChar charCarriageReturn ch).cmdBuf.span).isSome)
        t t' ∧
      t.os.card = storeLine s.os.card (s.input.readChar charCarriageReturn ch).cmdBuf.span ∧
      t.input = .start (s.input.readChar charCarriageReturn ch).cmdBuf := by
  obtain ⟨sectors, hdevice, hcard⟩ := h.device
  generalize hinput : s.input.readChar charCarriageReturn ch = input at hreturned hinside ⊢
  have hsent : SameShown ((s'.os.stringPrint input.output).uartSendCstr "\r\n")
      ((s.os.stringPrint input.output).uartSendCstr "\r\n") :=
    respected_sameShown.send (respected_sameShown.print h.shown.symm _) _
  have hworld : ((s.os.stringPrint input.output).uartSendCstr "\r\n").world.Playable := h.playable
  obtain ⟨v, os₁, os₂, y, sectors', n, hv, hos₁, hos₂, hshown, hy, hcard'⟩ :=
    hP.handle hsent hdevice hcard hinside memTest old hworld h.player
  obtain ⟨_, heq, hplayable, -⟩ := hworld.handleInput h.player ⟨memTest, v⟩ input.cmdBuf.span
  obtain rfl := Option.some.inj (hos₁.symm.trans heq)
  obtain ⟨t, t', hawait, hawait', hmirrors, hkept, hstart⟩ :=
    mirrors_await hshown.symm hplayable (isPlayer_nextEntity _) hy hcard' input.cmdBuf
  have hstored := handleInput_card hos₁
  refine ⟨v, t, t', n, hv, fun ps ↦ ?_, fun fuel hfuel ↦ ?_, hmirrors, hkept.trans hstored, hstart⟩
  · unfold Session.receive onStore
    dsimp only [on]
    rw [hinput, hreturned, if_pos rfl, Stream'.head_cons, Stream'.tail_cons, hos₁]
    exact hawait ps
  · unfold Session.receive
    dsimp only
    rw [h.input, hinput, hreturned, if_pos rfl, h.active, hos₂ fuel hfuel]
    exact hawait'

theorem Mirrors.receiveAll {s : Session Unit} {s' : Session σ} (h : Mirrors R used s s')
    {chs : Text}
    (hinside : ∀ line ∈ (Input.calls charCarriageReturn s.input chs).1, Inside valid line) :
    ∃ status t t' n used',
      Finds early used (Input.calls charCarriageReturn s.input chs).1 status ∧
      Session.receiveAll onStore chs (s.on (status.map (Platform.mk memTest))) =
        some (t.on ((Stream'.const 6).map (Platform.mk memTest))) ∧
      (∀ fuel ≥ n, Session.receiveAll (onDrivers memTest P fuel old) chs s' = some t') ∧
      Mirrors R used' t t' ∧
      t.os.card = storeLines (Input.calls charCarriageReturn s.input chs).1 s.os.card := by
  induction chs generalizing s s' used with
  | nil => exact ⟨Stream'.const 6, s, s', 0, used, rfl, rfl, fun _ _ ↦ rfl, h, rfl⟩
  | cons ch chs ih =>
      cases hreturned : (s.input.readChar charCarriageReturn ch).returned with
      | false =>
          rw [calls_goes_on hreturned] at hinside ⊢
          have hnext (fuel : ℕ) := (h.goes_on hreturned (onDrivers memTest P fuel old)).1
          obtain ⟨status, t, t', n, used', hfinds, hall, hall', hmirrors, hcard⟩ :=
            ih (h.goes_on hreturned (onDrivers memTest P 0 old)).2 hinside
          refine ⟨status, t, t', n, used', hfinds, ?_, fun fuel hfuel ↦ ?_, hmirrors, hcard⟩
          · rw [receiveAll_cons, receive_goes_on (by exact hreturned)]
            exact hall
          · rw [receiveAll_cons, hnext]
            exact hall' fuel hfuel
      | true =>
          rw [calls_returns hreturned] at hinside ⊢
          obtain ⟨v, s₁, s₁', n, hv, hreceive, hreceive', h₁, hcard₁, hinput₁⟩ :=
            h.receive hP memTest old hreturned (hinside _ List.mem_cons_self)
          rw [← hinput₁] at hinside ⊢
          obtain ⟨status, t, t', m, used', hfinds, hall, hall', hmirrors, hcard⟩ :=
            ih h₁ fun line hline ↦ hinside line (List.mem_cons_of_mem _ hline)
          refine ⟨Stream'.cons v status, t, t', max n m, used', ⟨hv, hfinds⟩, ?_,
            fun fuel hfuel ↦ ?_, hmirrors, ?_⟩
          · rw [receiveAll_cons, Stream'.map_cons, hreceive]
            exact hall
          · rw [receiveAll_cons, hreceive' fuel (le_of_max_le_left hfuel)]
            exact hall' fuel (le_of_max_le_right hfuel)
          · rw [hcard, hcard₁]
            rfl

omit hP in
theorem mirrors_start {start start' : State} (hstart : SameShown start start')
    (hworld : start.world = .initial) {x : σ} {sectors : Word → Sector} (hx : R used x sectors)
    (hcard : start.card = cardTexts sectors) :
    ∃ s s', (∀ {τ : Type} (handle : Handler τ) (device : τ) (chs : Text),
        run handle start device chs = Session.receiveAll handle chs (s.on device)) ∧
      (∀ (handle : Handler σ) (chs : Text),
        run handle start' x chs = Session.receiveAll handle chs s') ∧
      Mirrors R used s s' ∧ s.os.card = start.card ∧ s.input = .start Input.emptyBuffer := by
  have hsent := respected_sameShown.send (respected_sameShown.send hstart asciiArt) hello
  have hplayable : ((start.uartSendCstr asciiArt).uartSendCstr hello).world.Playable := by
    change start.world.Playable
    rw [hworld]
    exact playable_initial
  obtain ⟨s, s', hawait, hawait', hmirrors, hkept, hinput⟩ :=
    mirrors_await hsent hplayable (.inl rfl) hx hcard Input.emptyBuffer
  refine ⟨s, s', fun handle device chs ↦ ?_, fun handle chs ↦ ?_, hmirrors, hkept, hinput⟩
  · unfold run
    dsimp only
    rw [hawait]
    rfl
  · unfold run
    dsimp only
    rw [hawait']
    rfl

/-- The game on a device shows what it shows with the sectors in the state. -/
theorem run_mirrors (used : Bool) {start start' : State} (hstart : SameShown start start')
    (hworld : start.world = .initial) {x : σ} {sectors : Word → Sector} (hx : R used x sectors)
    (hcard : start.card = cardTexts sectors) {chs : Text} (hinside : ∀ line ∈
      (Input.calls charCarriageReturn (.start Input.emptyBuffer) chs).1, Inside valid line) :
    ∃ status t t' n used',
      Finds early used (Input.calls charCarriageReturn (.start Input.emptyBuffer) chs).1 status ∧
      run onStore start (status.map (Platform.mk memTest)) chs =
        some (t.on ((Stream'.const 6).map (Platform.mk memTest))) ∧
      (∀ fuel ≥ n, run (onDrivers memTest P fuel old) start' x chs = some t') ∧
      Mirrors R used' t t' ∧ t.os.card =
        storeLines (Input.calls charCarriageReturn (.start Input.emptyBuffer) chs).1
          start.card := by
  obtain ⟨s, s', hrun, hrun', hmirrors, hkept, hinput⟩ := mirrors_start hstart hworld hx hcard
  rw [← hinput] at hinside ⊢
  obtain ⟨status, t, t', n, used', hfinds, hall, hall', hmirrors', hcard'⟩ :=
    hmirrors.receiveAll hP memTest old hinside
  rw [hkept] at hcard'
  exact ⟨status, t, t', n, used', hfinds, (hrun _ _ _).trans hall,
    fun fuel hfuel ↦ (hrun' _ _).trans (hall' fuel hfuel), hmirrors', hcard'⟩

end Session

/-! ## The hardware -/

theorem card_initial (card : Word → Text) :
    (⟨.initial, [], card, [], false⟩ : State).card = card := by
  dsimp only

theorem sameShown_initial (card card' : Word → Text) :
    SameShown ⟨.initial, [], card, [], false⟩ ⟨.initial, [], card', [], false⟩ := ⟨rfl, rfl, rfl⟩

/-- What `SDCARD_STATUS` shows while the card is initialised from this state on. -/
def InitialisingStatus (T : ℕ → SpiCard.Timing) (start : SdPowerUp.System) (v : Word) : Prop :=
  ∃ n, v = (SdController.status
    ((SdPowerUp.System.step ⟨0, 0⟩ T SdSystem.noCommand)^[n] start).engine.controller).setWidth 32

theorem freshHardware_drives (T : ℕ → SpiCard.Timing) (q : Ramio.Parts) (r : Ramio.Regs)
    (start : SdPowerUp.System) :
    Drives (freshHardware ⟨0, 0⟩ T q r) (fun _ ↦ True) (InitialisingStatus T start)
      (FreshHardware.Stores T start) where
  call c _ _ _ _ h := h.call c
  status _ _ _ h := h.status

section Board

variable {T : ℕ → SpiCard.Timing} {x : SdPowerUp.System} {clocks : ℕ}
  (hpower : x.engine.card.stage = .power clocks) {i : SdCardPort.Input} (hi : i.rstN = false)
  (gaps : ℕ → ℕ) (q : Ramio.Parts) (r : Ramio.Regs) (memTest : Text) (old : State → Sector)
  (chs : Text)
include hpower hi

/-- From power-up on the player sees on the board what he would see if the card were a
store of sectors, and the lines that `input` has returned are stored on it.  `sds` shows 6,
or before a sector has been used what the initialisation has come to. -/
theorem plays_on_hardware :
    let start : State := ⟨.initial, [], fun _ ↦ [], [], false⟩
    let card := cardTexts x.engine.card.card.sectors
    let lines := (Input.calls charCarriageReturn (.start Input.emptyBuffer) chs).1
    ∃ status s s' n, Finds (InitialisingStatus T (x.step ⟨0, 0⟩ T i)) false lines status ∧
      Session.run onStore { start with card } (status.map (Platform.mk memTest)) chs = some s ∧
      (∀ fuel ≥ n, Session.run (onDrivers memTest (freshHardware ⟨0, 0⟩ T q r) fuel old) start
        ⟨x.step ⟨0, 0⟩ T i, gaps⟩ chs = some s') ∧
      s'.output = s.output ∧ s'.os.world = s.os.world ∧ s'.activeEntity = s.activeEntity ∧
      cardTexts s'.device.system.engine.card.card.sectors = storeLines lines card := by
  dsimp only
  have hstores := stores_reset (T := T) hpower hi gaps
  obtain ⟨status, t, s', n, used, hfinds, hrun, hrun', hmirrors, hcard⟩ :=
    Session.run_mirrors (freshHardware_drives T q r _) memTest old false
      (sameShown_initial _ fun _ ↦ []) rfl hstores (card_initial _) fun _ _ _ _ ↦ trivial
  obtain ⟨sectors, hsectors, hcard'⟩ := hmirrors.device
  refine ⟨status, _, s', n, hfinds, hrun, hrun', hmirrors.output _, hmirrors.shown.world.symm,
    hmirrors.active, ?_⟩
  rw [hsectors.sectors_eq, ← hcard', hcard]

end Board

/-- Somebody asks for the status, writes to sector 5 and asks for it. -/
theorem plays_on_hardware_unpowered :
    ∃ status s s' n, Finds (InitialisingStatus SdSystem.prompt
        (SdPowerUp.unpowered.step ⟨0, 0⟩ SdSystem.prompt ⟨false, 0, 0, 0⟩)) false
        (Input.calls charCarriageReturn (.start Input.emptyBuffer)
          (cstr "sds\rsdw 5 hello\rsdr 5\r")).1 status ∧
      Session.run onStore
        ⟨.initial, [], cardTexts SdPowerUp.unpowered.engine.card.card.sectors, [], false⟩
        (status.map (Platform.mk [])) (cstr "sds\rsdw 5 hello\rsdr 5\r") = some s ∧
      (∀ fuel ≥ n, Session.run (onDrivers [] (freshHardware ⟨0, 0⟩ SdSystem.prompt
          ⟨0, false, false, 0, false, 0, false, false, 0⟩ ⟨0, 0, false, 0, false⟩) fuel
          fun _ _ ↦ 0xff)
        ⟨.initial, [], fun _ ↦ [], [], false⟩
        ⟨SdPowerUp.unpowered.step ⟨0, 0⟩ SdSystem.prompt ⟨false, 0, 0, 0⟩, fun n ↦ n⟩
        (cstr "sds\rsdw 5 hello\rsdr 5\r") = some s') ∧
      s'.output = s.output ∧ s'.os.world = s.os.world ∧ s'.activeEntity = s.activeEntity ∧
      cardTexts s'.device.system.engine.card.card.sectors =
        storeLines (Input.calls charCarriageReturn (.start Input.emptyBuffer)
            (cstr "sds\rsdw 5 hello\rsdr 5\r")).1
          (cardTexts SdPowerUp.unpowered.engine.card.card.sectors) :=
  plays_on_hardware rfl rfl _ _ _ _ _ _

end TangNano.Os
