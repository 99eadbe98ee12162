import TangNano.Os.OnCard

/-!
# The game on the emulator

The emulator runs the same program with an image file for the card.  It stops when
a line names a sector past the end of the image.  Otherwise it shows what the board
shows, apart from the status of a card that has not been used.
-/

namespace TangNano.Os

open SdCardPort SdSystem SdDriver Service

/-! ## Sectors that are refused -/

section Devices

variable {σ : Type} {P : Ports σ} {valid early : Word → Prop}
  {R : Bool → σ → (Word → Sector) → Prop}

theorem drives_of_conforms {Q : σ → Contents → Prop} {start : BitVec 9 → Prop}
    (hP : Conforms P Q start valid)
    (hstatus : ∀ x d, Q x d → P.load sdcardStatus x = some (6, x)) :
    Drives P valid early fun _ x sectors ↦ ∃ d, Q x d ∧ start d.index ∧ d.sectors = sectors where
  call := by
    rintro c - x _ hc ⟨d, hx, hstart, rfl⟩
    obtain ⟨y, n, hcall, d', hy, hsectors, hstart'⟩ := hP.call hx hstart c hc
    exact ⟨y, n, hcall, d', hy, hstart', hsectors⟩
  status := by
    rintro used x sectors ⟨d, hx, hd⟩
    exact ⟨6, x, hstatus x d hx, .inl rfl, d, hx, hd⟩

/-- A call for another sector fails. -/
def Refuses (P : Ports σ) (valid : Word → Prop) (R : Bool → σ → (Word → Sector) → Prop) : Prop :=
  ∀ c used x sectors fuel, ¬ valid c.block → R used x sectors → driver P fuel c x = none

variable {x : σ} {sectors : Word → Sector} {used : Bool} (hP : Refuses P valid R)
  (hx : R used x sectors)
include hP hx

theorem Refuses.sdcardReadBlocking {sector : Word} (h : ¬ valid sector) (fuel : ℕ) (old : Sector) :
    SdDriver.sdcardReadBlocking P fuel sector old x = none := by
  have hcall := hP (.read sector old) used x sectors fuel h hx
  cases hread : SdDriver.sdcardReadBlocking P fuel sector old x with
  | none => rfl
  | some r =>
      simp only [driver, hread, Option.bind_eq_bind, Option.bind_some] at hcall
      cases hcall

theorem Refuses.sdcardWriteBlocking {sector : Word} (h : ¬ valid sector) (fuel : ℕ) (buf : Sector) :
    SdDriver.sdcardWriteBlocking P fuel sector buf x = none := by
  have hcall := hP (.write sector buf) used x sectors fuel h hx
  cases hwrite : SdDriver.sdcardWriteBlocking P fuel sector buf x with
  | none => rfl
  | some y =>
      simp only [driver, hwrite, Option.bind_eq_bind, Option.bind_some] at hcall
      cases hcall

/-- A line that names another sector is not handled. -/
theorem Refuses.handle (memTest : Text) (eid : Id) {line : Text} (houtside : ¬ Inside valid line)
    (old : State → Sector) (fuel : ℕ) (os : State) :
    onDrivers memTest P fuel old eid line os x = none := by
  unfold Inside at houtside
  push Not at houtside
  obtain ⟨sector, haddressed, hinvalid⟩ := houtside
  by_cases hread : (stringNextWord line).word = cstr "sdr"
  · rw [addressed_read hread, Option.ite_none_right_eq_some] at haddressed
    obtain ⟨hargs, hsector⟩ := haddressed
    obtain rfl := Option.some.inj hsector
    have hfails := hP.sdcardReadBlocking hx hinvalid fuel (old os)
    have hstatus : stringEqualsCstr (cstr "sdr") (cstr "sds") = false := by decide
    simp [onDrivers, actionSdcardReadOn, hread, hstatus, hargs, hfails, stringEqualsCstr_iff]
  by_cases hwrite : (stringNextWord line).word = cstr "sdw"
  · rw [addressed_write hwrite, Option.ite_none_right_eq_some] at haddressed
    obtain ⟨⟨hargs, hfits⟩, hsector⟩ := haddressed
    obtain rfl := Option.some.inj hsector
    have hfails := hP.sdcardWriteBlocking hx hinvalid fuel
      (textSector (stringNextWord (stringNextWord line).rem).rem)
    have hstatus : stringEqualsCstr (cstr "sdw") (cstr "sds") = false := by decide
    have hother : stringEqualsCstr (cstr "sdw") (cstr "sdr") = false := by decide
    simp [onDrivers, actionSdcardWriteOn, hwrite, hstatus, hother, hargs, Nat.not_lt.mpr hfits,
      hfails, stringEqualsCstr_iff]
  · rw [addressed_of_ne hread hwrite] at haddressed
    cases haddressed

end Devices

/-! ## Sessions that stop -/

namespace Session

variable {σ : Type} {P : Ports σ} {valid early : Word → Prop}
  {R : Bool → σ → (Word → Sector) → Prop} {used : Bool} (hdrives : Drives P valid early R)
  (hrefuses : Refuses P valid R) (memTest : Text) (old : State → Sector)
include hdrives hrefuses

theorem Mirrors.receiveAll_stops {s : Session Unit} {s' : Session σ} (h : Mirrors R used s s')
    {chs : Text}
    (houtside : ¬ ∀ line ∈ (Input.calls charCarriageReturn s.input chs).1, Inside valid line) :
    ∃ n, ∀ fuel ≥ n, Session.receiveAll (onDrivers memTest P fuel old) chs s' = none := by
  induction chs generalizing s s' used with
  | nil => exact absurd (fun line hline ↦ absurd hline List.not_mem_nil) houtside
  | cons ch chs ih =>
      cases hreturned : (s.input.readChar charCarriageReturn ch).returned with
      | false =>
          rw [calls_goes_on hreturned] at houtside
          have hnext (fuel : ℕ) := (h.goes_on hreturned (onDrivers memTest P fuel old)).1
          obtain ⟨n, hstops⟩ := ih (h.goes_on hreturned (onDrivers memTest P 0 old)).2 houtside
          refine ⟨n, fun fuel hfuel ↦ ?_⟩
          rw [receiveAll_cons, hnext]
          exact hstops fuel hfuel
      | true =>
          rw [calls_returns hreturned, List.forall_mem_cons] at houtside
          by_cases hinside : Inside valid (s.input.readChar charCarriageReturn ch).cmdBuf.span
          · obtain ⟨v, s₁, s₁', n, -, -, hreceive, h₁, -, hinput⟩ :=
              h.receive hdrives memTest old hreturned hinside
            have hlater : ¬ ∀ line ∈ (Input.calls charCarriageReturn s₁.input chs).1,
                Inside valid line := by
              rw [hinput]
              exact fun hall ↦ houtside ⟨hinside, hall⟩
            obtain ⟨m, hstops⟩ := ih h₁ hlater
            refine ⟨max n m, fun fuel hfuel ↦ ?_⟩
            rw [receiveAll_cons, hreceive fuel (le_of_max_le_left hfuel), Option.bind_some]
            exact hstops fuel (le_of_max_le_right hfuel)
          · -- the line that ends here is the first one outside
            obtain ⟨sectors, hdevice, -⟩ := h.device
            refine ⟨0, fun fuel _ ↦ ?_⟩
            rw [receiveAll_cons]
            unfold Session.receive
            dsimp only
            rw [h.input, hreturned, if_pos rfl, hrefuses.handle hdevice memTest _ hinside]
            rfl

/-- The game on a device stops at a sector that is refused. -/
theorem run_stops (used : Bool) {start start' : State} (hstart : SameShown start start')
    (hworld : start.world = .initial) {x : σ} {sectors : Word → Sector} (hx : R used x sectors)
    (hcard : start.card = cardTexts sectors) {chs : Text} (houtside : ¬ ∀ line ∈
      (Input.calls charCarriageReturn (.start Input.emptyBuffer) chs).1, Inside valid line) :
    ∃ n, ∀ fuel ≥ n, run (onDrivers memTest P fuel old) start' x chs = none := by
  obtain ⟨s, s', -, hrun', hmirrors, -, hinput⟩ := mirrors_start hstart hworld hx hcard
  rw [← hinput] at houtside
  obtain ⟨n, hstops⟩ := hmirrors.receiveAll_stops hdrives hrefuses memTest old houtside
  exact ⟨n, fun fuel hfuel ↦ (hrun' _ _).trans (hstops fuel hfuel)⟩

end Session

/-! ## The emulator -/

section Emulator

variable {count : ℕ} {m : Emulator.Machine} {d : Contents} {s : Word}

theorem emulator_readSector_refused (hs : ¬ s.toNat < m.sdcard.sectorCount) :
    emulator.store sdcardReadSector s m = none := by
  have hbus : Emulator.bus m sdcardReadSector .word true s = _ := Emulator.bus_readSector m .word s
  rw [Emulator.SdCard.readSector, if_pos (Nat.not_lt.mp hs)] at hbus
  simp only [emulator, hbus]
  rfl

theorem emulator_writeSector_refused (hs : ¬ s.toNat < m.sdcard.sectorCount) :
    emulator.store sdcardWriteSector s m = none := by
  have hbus : Emulator.bus m sdcardWriteSector .word true s = _ :=
    Emulator.bus_writeSector m .word s
  rw [Emulator.SdCard.writeSector, if_pos (Nat.not_lt.mp hs)] at hbus
  simp only [emulator, hbus]
  rfl

theorem emulator_refuses : Refuses emulator (fun sector ↦ sector.toNat < count)
    fun _ m sectors ↦ ∃ d, Holds count m d ∧ d.index = 0 ∧ d.sectors = sectors := by
  rintro c - m _ fuel hc ⟨d, hm, -, rfl⟩
  cases fuel with
  | zero => cases c <;> rfl
  | succ fuel =>
      have hwait : waitWhileBusy emulator (fuel + 1) m = some m := emulator_wait (Nat.succ_pos fuel)
      cases c with
      | read s old =>
          have hrefused : emulator.store sdcardReadSector s m = none :=
            emulator_readSector_refused (by rwa [hm.sectorCount])
          simp only [driver, sdcardReadBlocking, hwait, hrefused, Option.bind_eq_bind,
            Option.bind_some, Option.bind_none]
      | write s buffer =>
          obtain ⟨y, hbytes, hy⟩ := emulator_conforms.storeBytes hm buffer 512
          have hrefused : emulator.store sdcardWriteSector s y = none :=
            emulator_writeSector_refused (by rwa [hy.sectorCount])
          simp only [driver, sdcardWriteBlocking, hwait, hbytes, hrefused, Option.bind_eq_bind,
            Option.bind_some, Option.bind_none]

end Emulator

/-! ## What is found of the platform -/

/-- The status is asked for before a sector has been read or stored. -/
def AsksEarly (lines : List Text) : Prop :=
  ∃ line ∈ lines.takeWhile fun line ↦ addressed line = none, AsksStatus line

theorem Finds.eq_const {early : Word → Prop} {used : Bool} {lines : List Text}
    {status : Stream' Word} (h : Finds early used lines status)
    (hused : used = true ∨ ¬ AsksEarly lines) : status = Stream'.const 6 := by
  have htake {line : Text} {lines : List Text} (h : addressed line = none) :
      (line :: lines).takeWhile (fun line ↦ addressed line = none) =
        line :: lines.takeWhile fun line ↦ addressed line = none :=
    List.takeWhile_cons_of_pos (p := fun line ↦ addressed line = none) (decide_eq_true h)
  induction lines generalizing used status with
  | nil => exact h
  | cons line lines ih =>
      obtain ⟨hhead, htail⟩ := h
      have hsix : status.head = 6 := by
        refine hhead.resolve_right ?_
        rintro ⟨rfl, hasks, -⟩
        refine hused.resolve_left Bool.false_ne_true ⟨line, ?_, hasks⟩
        rw [htake hasks.addressed]
        exact List.mem_cons_self
      have hrest : status.tail = Stream'.const 6 := by
        refine ih htail ?_
        cases haddressed : addressed line with
        | some sector => exact .inl (Bool.or_true used)
        | none =>
            refine hused.imp (fun hused ↦ by rw [hused]; rfl) ?_
            rintro hearly ⟨line', hline', hasks⟩
            refine hearly ⟨line', ?_, hasks⟩
            rw [htake haddressed]
            exact List.mem_cons_of_mem _ hline'
      rw [← Stream'.eta status, hsix, hrest]
      exact (Stream'.const_eq 6).symm

theorem SameGame.handleLines {os os' : State} (h : SameGame os os') (ps ps' : Stream' Platform)
    (eid : Id) (lines : List Text) :
    Lifts SameGame (Os.handleLines (turns ps eid lines) os)
      (Os.handleLines (turns ps' eid lines) os') := by
  induction lines generalizing os os' ps ps' eid with
  | nil => exact lifts_some h
  | cons line lines ih =>
      exact (h.handleInput ps.head ps'.head eid line).bind fun _ _ hnext ↦ ih hnext _ _ _

/-- What is found of the platform does not change the game. -/
theorem run_sameGame {start : State} (hworld : start.world = .initial)
    (hnothing : start.output = []) {ps ps' : Stream' Platform} {chs : Text}
    {s s' : Session (Stream' Platform)} (hs : Session.run onStore start ps chs = some s)
    (hs' : Session.run onStore start ps' chs = some s') :
    s'.os.world = s.os.world ∧ s'.activeEntity = s.activeEntity := by
  obtain ⟨os, hrun, hsame, hplayable, hawaits, -⟩ :=
    Session.run_start onStore ps hworld hnothing
  obtain ⟨os', hrun', hsame', hplayable', hawaits', -⟩ :=
    Session.run_start onStore ps' hworld hnothing
  generalize hcalls : Input.calls charCarriageReturn (.start Input.emptyBuffer) chs = r
  obtain ⟨_, _, hall, -, hactive, hlines, hgame, -⟩ := Session.receiveAll_onStore
    (s := ⟨os, ps, 1, .start Input.emptyBuffer⟩) hplayable (.inl rfl) hawaits hsame hcalls
  obtain ⟨_, _, hall', -, hactive', hlines', hgame', -⟩ := Session.receiveAll_onStore
    (s := ⟨os', ps', 1, .start Input.emptyBuffer⟩) hplayable' (.inl rfl) hawaits' hsame' hcalls
  obtain rfl := Option.some.inj (hs.symm.trans ((hrun chs).trans hall))
  obtain rfl := Option.some.inj (hs'.symm.trans ((hrun' chs).trans hall'))
  have hstart : SameGame start start := ⟨rfl, rfl, rfl, rfl⟩
  obtain ⟨_, heq, hend⟩ := hstart.handleLines ps ps' 1 _ _ hlines
  obtain rfl := Option.some.inj (heq.symm.trans hlines')
  exact ⟨hgame'.world.trans (hend.world.symm.trans hgame.world.symm), hactive'.trans hactive.symm⟩

/-! ## Board and emulator -/

theorem cardTexts_injective : Function.Injective cardTexts := by
  intro sectors sectors' h
  funext sector i
  have htext : sectorText (sectors sector) = sectorText (sectors' sector) := congrFun h sector
  have hbyte := congrArg (fun text : Text ↦ text[i.toNat]?) htext
  have hi : i.toNat < sectorSize := i.isLt
  simpa [sectorText, hi] using hbyte

end TangNano.Os
