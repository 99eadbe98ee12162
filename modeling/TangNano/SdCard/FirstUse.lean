import TangNano.SdCard.Initialization
import TangNano.SdCard.Storage

/-!
# The drivers from power-up on

A program may use the drivers at once.  The first loop on `SDCARD_BUSY` waits
until the card is initialised, and from then on the sectors are a store.
-/

namespace TangNano.SdDriver

open SdCardPort SdSystem Service

/-! ## Devices that contain a device -/

section Projection

variable {σ τ : Type*} {P : Ports σ} {Q : Ports τ}

theorem waitWhileBusy_mono {x y : σ} {m n : ℕ} (hmn : m ≤ n) (h : waitWhileBusy P m x = some y) :
    waitWhileBusy P n x = some y := by
  induction m generalizing n x with
  | zero => cases h
  | succ m ih =>
      obtain ⟨n, rfl⟩ := Nat.exists_eq_succ_of_ne_zero (show n ≠ 0 by omega)
      cases hload : P.load sdcardBusy x with
      | none =>
          simp only [waitWhileBusy, hload, Option.bind_eq_bind, Option.bind_none] at h
          cases h
      | some r =>
          simp only [waitWhileBusy, hload, Option.bind_eq_bind, Option.bind_some] at h ⊢
          by_cases hbusy : r.1 = 0
          · rw [if_pos hbusy] at h ⊢
            exact h
          · rw [if_neg hbusy] at h ⊢
            exact ih (by omega) h

/-- In some of its states a device does what the one inside does. -/
structure Contains (P : Ports σ) (Q : Ports τ) (inner : τ → σ) (S : τ → Prop) : Prop where
  load : ∀ a x v y, S x → P.load a (inner x) = some (v, y) →
    ∃ z, Q.load a x = some (v, z) ∧ inner z = y ∧ S z
  store : ∀ a v x y, S x → P.store a v (inner x) = some y →
    ∃ z, Q.store a v x = some z ∧ inner z = y ∧ S z

variable {inner : τ → σ} {S : τ → Prop}

theorem Contains.waitWhileBusy (h : Contains P Q inner S) {x : τ} (hx : S x) {n : ℕ} {y : σ}
    (hwait : SdDriver.waitWhileBusy P n (inner x) = some y) :
    ∃ z, SdDriver.waitWhileBusy Q n x = some z ∧ inner z = y ∧ S z := by
  induction n generalizing x with
  | zero => cases hwait
  | succ n ih =>
      cases hload : P.load sdcardBusy (inner x) with
      | none =>
          simp only [SdDriver.waitWhileBusy, hload, Option.bind_eq_bind, Option.bind_none] at hwait
          cases hwait
      | some r =>
          obtain ⟨v, w⟩ := r
          obtain ⟨z, hz, rfl, hinner⟩ := h.load _ _ _ _ hx hload
          simp only [SdDriver.waitWhileBusy, hload, hz, Option.bind_eq_bind, Option.bind_some]
            at hwait ⊢
          by_cases hbusy : v = 0
          · rw [if_pos hbusy] at hwait ⊢
            exact ⟨z, rfl, Option.some_inj.mp hwait, hinner⟩
          · rw [if_neg hbusy] at hwait ⊢
            exact ih hinner hwait

theorem Contains.wait_all (h : Contains P Q inner S) {x : τ} (hx : S x) {n : ℕ} {y : σ}
    (hwait : ∀ fuel ≥ n, SdDriver.waitWhileBusy P fuel (inner x) = some y) :
    ∃ z, (∀ fuel ≥ n, SdDriver.waitWhileBusy Q fuel x = some z) ∧ inner z = y ∧ S z := by
  obtain ⟨z, hz, hinner, hS⟩ := h.waitWhileBusy hx (hwait n le_rfl)
  exact ⟨z, fun fuel hfuel ↦ waitWhileBusy_mono hfuel hz, hinner, hS⟩

/-- What the drivers need of a device they find in one that contains it. -/
theorem Contains.conforms (h : Contains P Q inner S) {R : σ → Contents → Prop}
    {start : BitVec 9 → Prop} {valid : Word → Prop} (hP : Conforms P R start valid) :
    Conforms Q (fun x d ↦ S x ∧ R (inner x) d) start valid where
  wait x d hx := by
    obtain ⟨y, hwait, hy⟩ := hP.wait _ _ hx.2
    obtain ⟨z, hz, rfl, hS⟩ := h.wait_all hx.1 hwait
    exact ⟨z, hz, hS, hy⟩
  load x d hx := by
    obtain ⟨v, y, hload, hv, hy⟩ := hP.load _ _ hx.2
    obtain ⟨z, hz, rfl, hS⟩ := h.load _ _ _ _ hx.1 hload
    exact ⟨v, z, hz, hv, hS, hy⟩
  store x d v hx := by
    obtain ⟨y, hstore, hy⟩ := hP.store _ _ v hx.2
    obtain ⟨z, hz, rfl, hS⟩ := h.store _ _ _ _ hx.1 hstore
    exact ⟨z, hz, hS, hy⟩
  read x d s hx hstart hs := by
    obtain ⟨y, z, n, d', hstore, hwait, hz, hbuffer, hsectors, hstart'⟩ :=
      hP.read _ _ s hx.2 hstart hs
    obtain ⟨y', hy', rfl, hS⟩ := h.store _ _ _ _ hx.1 hstore
    obtain ⟨z', hz', rfl, hS'⟩ := h.wait_all hS hwait
    exact ⟨y', z', n, d', hy', hz', ⟨hS', hz⟩, hbuffer, hsectors, hstart'⟩
  write x d s hx hstart hs := by
    obtain ⟨y, z, n, d', hstore, hwait, hz, hsectors, hstart'⟩ := hP.write _ _ s hx.2 hstart hs
    obtain ⟨y', hy', rfl, hS⟩ := h.store _ _ _ _ hx.1 hstore
    obtain ⟨z', hz', rfl, hS'⟩ := h.wait_all hS hwait
    exact ⟨y', z', n, d', hy', hz', ⟨hS', hz⟩, hsectors, hstart'⟩

end Projection

/-! ## The hardware after a reset -/

/-- As `Hardware`, with a card that has just been switched on. -/
structure FreshHardware where
  system : SdPowerUp.System
  gaps : ℕ → ℕ

def FreshHardware.initialised (h : FreshHardware) : Hardware := ⟨h.system.initialised, h.gaps⟩

section Hardware

variable (p : Params) (T : ℕ → SpiCard.Timing) (q : Ramio.Parts) (s : Ramio.Regs)

/-- The system when the next access comes. -/
def FreshHardware.next (h : FreshHardware) : SdPowerUp.System :=
  (SdPowerUp.System.step p T noCommand)^[h.gaps 0] h.system

/-- One access, made in one cycle. -/
def FreshHardware.access (r : Ramio.Request) (h : FreshHardware) : Word × FreshHardware :=
  let w := Ramio.wires r (parts q (h.next p T).initialised) s
  (w.dataOut,
    ⟨(h.next p T).step p T ⟨true, w.sdcardCommand, w.sdcardSector, w.sdcardDataIn⟩,
      fun n ↦ h.gaps (n + 1)⟩)

def freshHardware : Ports FreshHardware where
  load address h := some (h.access p T q s ⟨true, 0b111, 0, address, 0⟩)
  store address data h := some (h.access p T q s ⟨true, 0, 0b11, address, data⟩).2

end Hardware

section Fresh

variable {p : Params} {T : ℕ → SpiCard.Timing} {q : Ramio.Parts} {s : Ramio.Regs}
  {h : FreshHardware} {d : Contents}

def FreshHardware.CardReady (h : FreshHardware) : Prop :=
  h.system.engine.card.stage = .ready

theorem iterate_initialised {x : SdPowerUp.System} (hready : x.engine.card.stage = .ready) (n : ℕ) :
    ((SdPowerUp.System.step p T noCommand)^[n] x).engine.card.stage = .ready ∧
      ((SdPowerUp.System.step p T noCommand)^[n] x).initialised =
        (idle p T)^[n] x.initialised := by
  induction n with
  | zero => exact ⟨hready, rfl⟩
  | succ n ih =>
      rw [Function.iterate_succ_apply', Function.iterate_succ_apply', ← ih.2]
      obtain ⟨hstep, hkeep⟩ :=
        SdPowerUp.System.step_initialised (p := p) (T := T) (i := noCommand) ih.1
      exact ⟨hkeep, hstep⟩

theorem FreshHardware.CardReady.next (hready : h.CardReady) :
    (h.next p T).engine.card.stage = .ready ∧
      (h.next p T).initialised = h.initialised.next p T :=
  iterate_initialised hready (h.gaps 0)

theorem FreshHardware.CardReady.access (hready : h.CardReady) (r : Ramio.Request) :
    (h.access p T q s r).1 = (h.initialised.access p T q s r).1 ∧
      (h.access p T q s r).2.initialised = (h.initialised.access p T q s r).2 ∧
      (h.access p T q s r).2.CardReady := by
  obtain ⟨hstage, hnext⟩ := hready.next (p := p) (T := T)
  obtain ⟨hstep, hkeep⟩ := SdPowerUp.System.step_initialised (p := p) (T := T)
    (i := ⟨true, (Ramio.wires r (parts q (h.next p T).initialised) s).sdcardCommand,
      (Ramio.wires r (parts q (h.next p T).initialised) s).sdcardSector,
      (Ramio.wires r (parts q (h.next p T).initialised) s).sdcardDataIn⟩) hstage
  refine ⟨?_, ?_, hkeep⟩
  · rw [FreshHardware.access, Hardware.access, hnext]
  · rw [Hardware.access, ← hnext, ← hstep]
    rfl

/-- Once the card is initialised the hardware is that of a card that was ready. -/
theorem freshHardware_contains :
    Contains (hardware p T q s) (freshHardware p T q s) FreshHardware.initialised
      FreshHardware.CardReady where
  load a x v y hx hload := by
    obtain ⟨hdata, hstate, hkeep⟩ := hx.access (p := p) (T := T) (q := q) (s := s)
      ⟨true, 0b111, 0, a, 0⟩
    have hresult := Option.some_inj.mp hload
    have hv : (x.access p T q s ⟨true, 0b111, 0, a, 0⟩).1 = v :=
      hdata.trans (congrArg Prod.fst hresult)
    refine ⟨_, ?_, hstate.trans (congrArg Prod.snd hresult), hkeep⟩
    rw [← hv]
    rfl
  store a v x y hx hstore := by
    obtain ⟨-, hstate, hkeep⟩ := hx.access (p := p) (T := T) (q := q) (s := s)
      ⟨true, 0, 0b11, a, v⟩
    exact ⟨_, rfl, hstate.trans (Option.some_inj.mp hstore), hkeep⟩

theorem freshHardware_load_busy :
    (freshHardware p T q s).load sdcardBusy h =
      some (if busy (h.next p T).port then 1 else 0,
        ⟨(h.next p T).step p T noCommand, fun n ↦ h.gaps (n + 1)⟩) := rfl

theorem freshHardware_load_status :
    (freshHardware p T q s).load sdcardStatus h =
      some ((SdController.status (h.next p T).engine.controller).setWidth 32,
        ⟨(h.next p T).step p T noCommand, fun n ↦ h.gaps (n + 1)⟩) := rfl

theorem freshHardware_wait_busy (hnow : busy (h.next p T).port = true) (fuel : ℕ) :
    waitWhileBusy (freshHardware p T q s) (fuel + 1) h =
      waitWhileBusy (freshHardware p T q s) fuel
        ⟨(h.next p T).step p T noCommand, fun n ↦ h.gaps (n + 1)⟩ := by
  simp only [waitWhileBusy, freshHardware_load_busy, hnow, if_true, Option.bind_eq_bind,
    Option.bind_some]
  rfl

theorem freshHardware_wait_free (hfree : busy (h.next p T).port = false) {fuel : ℕ}
    (hfuel : 0 < fuel) : waitWhileBusy (freshHardware p T q s) fuel h =
      some ⟨(h.next p T).step p T noCommand, fun n ↦ h.gaps (n + 1)⟩ := by
  obtain ⟨fuel, rfl⟩ := Nat.exists_eq_succ_of_ne_zero hfuel.ne'
  simp only [waitWhileBusy, freshHardware_load_busy, hfree, Option.bind_eq_bind, Option.bind_some]
  rfl

/-- The loop ends when the card is initialised, in the state in which it would end
if it began then. -/
theorem freshHardware_wait {n : ℕ}
    (hbusy : ∀ k < n, busy ((SdPowerUp.System.step p T noCommand)^[k] h.system).port = true)
    (hstage : ((SdPowerUp.System.step p T noCommand)^[n] h.system).engine.card.stage = .ready)
    (hready : Ready p ((SdPowerUp.System.step p T noCommand)^[n] h.system).initialised d) :
    ∃ y z, (FreshHardware.CardReady y ∧ Ready p y.system.initialised d) ∧
      (∀ fuel > n, waitWhileBusy (freshHardware p T q s) fuel h = some z) ∧
      ∀ fuel > 0, waitWhileBusy (freshHardware p T q s) fuel y = some z := by
  induction n using Nat.strong_induction_on generalizing h with
  | _ n ih =>
      rcases Nat.lt_or_ge (h.gaps 0) n with hless | hge
      · have hnow : busy (h.next p T).port = true := hbusy _ hless
        have hsplit (k : ℕ) : (SdPowerUp.System.step p T noCommand)^[k]
            ((h.next p T).step p T noCommand) =
              (SdPowerUp.System.step p T noCommand)^[k + (h.gaps 0 + 1)] h.system := by
          rw [Function.iterate_add_apply, Function.iterate_succ_apply']
          rfl
        obtain ⟨y, z, hy, hwait, hwait'⟩ := ih (n - (h.gaps 0 + 1)) (by omega)
          (h := ⟨(h.next p T).step p T noCommand, fun n ↦ h.gaps (n + 1)⟩) (by
            intro k hk
            rw [hsplit]
            exact hbusy _ (by omega)) (by
            rw [hsplit, Nat.sub_add_cancel hless]
            exact hstage) (by
            rw [hsplit, Nat.sub_add_cancel hless]
            exact hready)
        refine ⟨y, z, hy, ?_, hwait'⟩
        intro fuel hfuel
        obtain ⟨fuel, rfl⟩ := Nat.exists_eq_succ_of_ne_zero (Nat.ne_zero_of_lt hfuel)
        rw [freshHardware_wait_busy hnow]
        exact hwait fuel (by omega)
      · obtain ⟨hstage', hinitialised⟩ :=
          iterate_initialised (p := p) (T := T) hstage (h.gaps 0 - n)
        rw [← Function.iterate_add_apply, Nat.sub_add_cancel hge] at hstage' hinitialised
        have hnext : Ready p (h.next p T).initialised d := by
          have hlater := hready.iterate (T := T) (h.gaps 0 - n)
          rwa [← hinitialised] at hlater
        have hfree : busy (h.next p T).port = false := hnext.not_busy
        have hgaps : (fun n ↦ Function.update h.gaps 0 0 (n + 1)) = fun n ↦ h.gaps (n + 1) := by
          funext n
          exact Function.update_of_ne (Nat.succ_ne_zero n) _ _
        refine ⟨⟨h.next p T, Function.update h.gaps 0 0⟩,
          ⟨(h.next p T).step p T noCommand, fun n ↦ h.gaps (n + 1)⟩, ⟨hstage', hnext⟩, ?_, ?_⟩
        · intro fuel hfuel
          exact freshHardware_wait_free hfree (Nat.zero_lt_of_lt hfuel)
        · intro fuel hfuel
          have hsame : FreshHardware.next p T ⟨h.next p T, Function.update h.gaps 0 0⟩ =
              h.next p T := by
            rw [FreshHardware.next]
            dsimp only
            rw [Function.update_self]
            rfl
          rw [freshHardware_wait_free (by rw [hsame]; exact hfree) hfuel, hsame, hgaps]

end Fresh

/-! ## The store -/

theorem driver_congr {σ : Type*} {P : Ports σ} {fuel : ℕ} {x y : σ}
    (h : waitWhileBusy P fuel x = waitWhileBusy P fuel y) (c : Call Word Sector) :
    driver P fuel c x = driver P fuel c y := by
  cases c with
  | read sector old => simp only [driver, sdcardReadBlocking, h]
  | write sector buffer => simp only [driver, sdcardWriteBlocking, h]

theorem iterate_eq_state (p : Params) (T : ℕ → SpiCard.Timing) (x : SdPowerUp.System) (n : ℕ) :
    (SdPowerUp.System.step p T noCommand)^[n] x =
      Clocked.state (SdPowerUp.System.step p T) x (fun _ ↦ noCommand) n := by
  induction n with
  | zero => rfl
  | succ n ih => rw [Function.iterate_succ_apply', ih, Clocked.state_succ]

/-- From this state on the card is initialised, which takes `n` cycles. -/
structure Initialises (T : ℕ → SpiCard.Timing) (start : SdPowerUp.System) (n : ℕ) (d : Contents) :
    Prop where
  busy : ∀ k < n, busy ((SdPowerUp.System.step ⟨0, 0⟩ T noCommand)^[k] start).port = true
  sectors : ∀ k < n,
    ((SdPowerUp.System.step ⟨0, 0⟩ T noCommand)^[k] start).engine.card.card.sectors = d.sectors
  stage : ((SdPowerUp.System.step ⟨0, 0⟩ T noCommand)^[n] start).engine.card.stage = .ready
  ready : Ready ⟨0, 0⟩ ((SdPowerUp.System.step ⟨0, 0⟩ T noCommand)^[n] start).initialised d

/-- The drivers find these sectors: on a card that they have not used since `start`, or on one
that is initialised. -/
inductive FreshHardware.Stores (T : ℕ → SpiCard.Timing) (start : SdPowerUp.System) :
    Bool → FreshHardware → (Word → Sector) → Prop
  | unused {n : ℕ} {d : Contents} (h : Initialises T start n d) (m : ℕ) (gaps : ℕ → ℕ) :
      Stores T start false ⟨(SdPowerUp.System.step ⟨0, 0⟩ T noCommand)^[m] start, gaps⟩ d.sectors
  | used {h : FreshHardware} {d : Contents} (hstage : h.CardReady)
      (hready : Ready ⟨0, 0⟩ h.system.initialised d) : Stores T start true h d.sectors

section Stores

variable {T : ℕ → SpiCard.Timing} {q : Ramio.Parts} {s : Ramio.Regs}
  {x start : SdPowerUp.System} {used : Bool} {h : FreshHardware} {sectors : Word → Sector}

/-- From the reset on, with a card that has just been switched on. -/
theorem stores_reset {clocks : ℕ} (hpower : x.engine.card.stage = .power clocks) {i : Input}
    (hi : i.rstN = false) (gaps : ℕ → ℕ) :
    FreshHardware.Stores T (x.step ⟨0, 0⟩ T i) false ⟨x.step ⟨0, 0⟩ T i, gaps⟩
      x.engine.card.card.sectors := by
  obtain ⟨n, hbusy, hstage, hready⟩ := SdPowerUp.exists_ready (p := ⟨0, 0⟩) (T := T) hpower hi
    (fun _ ↦ noCommand) fun _ ↦ rfl
  simp only [SdPowerUp.System.run, ← iterate_eq_state] at hbusy hstage hready
  exact .unused ⟨fun k hk ↦ (hbusy k hk).1, fun k hk ↦ (hbusy k hk).2, hstage, hready⟩ 0 gaps

/-- After `n` cycles the card stays initialised. -/
theorem Initialises.ready_of_le {n m : ℕ} {d : Contents} (h : Initialises T start n d)
    (hle : n ≤ m) :
    ((SdPowerUp.System.step ⟨0, 0⟩ T noCommand)^[m] start).engine.card.stage = .ready ∧
      Ready ⟨0, 0⟩ ((SdPowerUp.System.step ⟨0, 0⟩ T noCommand)^[m] start).initialised d := by
  obtain ⟨k, rfl⟩ := Nat.exists_eq_add_of_le' hle
  obtain ⟨hstage, hinitialised⟩ := iterate_initialised (p := ⟨0, 0⟩) (T := T) h.stage k
  rw [← Function.iterate_add_apply] at hstage hinitialised
  rw [hinitialised]
  exact ⟨hstage, h.ready.iterate k⟩

theorem FreshHardware.Stores.sectors_eq (hstores : h.Stores T start used sectors) :
    h.system.engine.card.card.sectors = sectors := by
  cases hstores with
  | @unused n d hinit m gaps =>
      rcases Nat.lt_or_ge m n with hless | hge
      · exact hinit.sectors m hless
      · exact (hinit.ready_of_le hge).2.sectors
  | used _ hready => exact hready.sectors

/-- The status of a card that is initialised is 6. -/
theorem FreshHardware.Stores.status (hstores : h.Stores T start used sectors) :
    ∃ v y, (freshHardware ⟨0, 0⟩ T q s).load sdcardStatus h = some (v, y) ∧
      (v = 6 ∨ used = false ∧ ∃ m, v = (SdController.status
        ((SdPowerUp.System.step ⟨0, 0⟩ T noCommand)^[m] start).engine.controller).setWidth 32) ∧
      y.Stores T start used sectors := by
  refine ⟨_, _, freshHardware_load_status, ?_⟩
  cases hstores with
  | unused hinit m gaps =>
      have hnext : FreshHardware.next ⟨0, 0⟩ T
          ⟨(SdPowerUp.System.step ⟨0, 0⟩ T noCommand)^[m] start, gaps⟩ =
            (SdPowerUp.System.step ⟨0, 0⟩ T noCommand)^[gaps 0 + m] start := by
        rw [Function.iterate_add_apply]
        rfl
      have hlater := (Function.iterate_succ_apply' (SdPowerUp.System.step ⟨0, 0⟩ T noCommand)
        (gaps 0 + m) start).symm
      rw [hnext, hlater]
      exact ⟨.inr ⟨rfl, gaps 0 + m, rfl⟩, .unused hinit _ _⟩
  | @used _ d hstage hready =>
      obtain ⟨hstage₁, hnext⟩ := hstage.next (p := ⟨0, 0⟩) (T := T)
      have hready₁ : Ready ⟨0, 0⟩ (h.next ⟨0, 0⟩ T).initialised d := by
        rw [hnext]
        exact hready.iterate (h.gaps 0)
      obtain ⟨hstep, hstage₂⟩ := SdPowerUp.System.step_initialised (p := ⟨0, 0⟩) (T := T)
        (i := noCommand) hstage₁
      have hidle : (h.next ⟨0, 0⟩ T).engine.controller.state = .idle := hready₁.controller
      refine ⟨.inl ?_, .used hstage₂ ?_⟩
      · rw [SdController.status, hidle]
        rfl
      · rw [hstep]
        exact hready₁.idle

theorem FreshHardware.Stores.call (hstores : h.Stores T start used sectors)
    (c : Call Word Sector) :
    ∃ y n, (∀ fuel ≥ n, driver (freshHardware ⟨0, 0⟩ T q s) fuel c h =
        some ((Service.store c sectors).1, y)) ∧
      y.Stores T start true (Service.store c sectors).2 := by
  have hready {h : FreshHardware} {d : Contents} (hstage : h.CardReady)
      (hready : Ready ⟨0, 0⟩ h.system.initialised d) :
      ∃ y n, (∀ fuel ≥ n, driver (freshHardware ⟨0, 0⟩ T q s) fuel c h =
          some ((Service.store c d.sectors).1, y)) ∧
        y.Stores T start true (Service.store c d.sectors).2 := by
    obtain ⟨y, n, hcall, d', ⟨hstage', hd⟩, hsectors, -⟩ :=
      (freshHardware_contains.conforms (hardware_conforms (T := T) (q := q) (s := s) rfl)).call
        (x := h) ⟨hstage, hready⟩ trivial c trivial
    rw [← hsectors]
    exact ⟨y, n, hcall, .used hstage' hd⟩
  cases hstores with
  | @unused n d hinit m gaps =>
      rcases Nat.lt_or_ge m n with hless | hge
      · have hsplit (k : ℕ) : (SdPowerUp.System.step ⟨0, 0⟩ T noCommand)^[k]
            ((SdPowerUp.System.step ⟨0, 0⟩ T noCommand)^[m] start) =
              (SdPowerUp.System.step ⟨0, 0⟩ T noCommand)^[k + m] start :=
          (Function.iterate_add_apply _ k m start).symm
        have hrest : n - m + m = n := Nat.sub_add_cancel (Nat.le_of_lt hless)
        obtain ⟨y, z, hy, hwait, hwait'⟩ := freshHardware_wait (q := q) (s := s) (n := n - m)
          (d := d) (h := ⟨(SdPowerUp.System.step ⟨0, 0⟩ T noCommand)^[m] start, gaps⟩)
          (fun k hk ↦ by rw [hsplit]; exact hinit.busy _ (by omega))
          (by rw [hsplit, hrest]; exact hinit.stage) (by rw [hsplit, hrest]; exact hinit.ready)
        obtain ⟨y', k, hcall, hstores⟩ := hready hy.1 hy.2
        refine ⟨y', max (n - m + 1) k, fun fuel hfuel ↦ ?_, hstores⟩
        have hsame := (hwait fuel (le_of_max_le_left hfuel)).trans
          (hwait' fuel (Nat.zero_lt_of_lt (le_of_max_le_left hfuel))).symm
        rw [driver_congr hsame]
        exact hcall fuel (le_of_max_le_right hfuel)
      · obtain ⟨hstage, hinitialised⟩ := hinit.ready_of_le hge
        exact hready hstage hinitialised
  | used hstage hinitialised => exact hready hstage hinitialised

end Stores

/-- From the reset on, with a card that has just been switched on: a program may
call the drivers at once and whenever it likes.  The calls return what a store of
the sectors of the card returns and leave the sectors of the store on it. -/
theorem store_from_power_up {T : ℕ → SpiCard.Timing} {x : SdPowerUp.System} {clocks : ℕ}
    (hpower : x.engine.card.stage = .power clocks) {i : Input} (hi : i.rstN = false)
    (gaps : ℕ → ℕ) (q : Ramio.Parts) (s : Ramio.Regs) (calls : List (Call Word Sector)) :
    ∃ y n, (∀ fuel ≥ n, serve (driver (freshHardware ⟨0, 0⟩ T q s) fuel) calls
          ⟨x.step ⟨0, 0⟩ T i, gaps⟩ =
        some ((perform Service.store calls x.engine.card.card.sectors).1, y)) ∧
      y.system.engine.card.card.sectors =
        (perform Service.store calls x.engine.card.card.sectors).2 := by
  have hcalls (c : Call Word Sector) (h : FreshHardware) (sectors : Word → Sector) (_ : True)
      (hstores : ∃ used, h.Stores T (x.step ⟨0, 0⟩ T i) used sectors) :
      ∃ y n, (∀ fuel ≥ n, driver (freshHardware ⟨0, 0⟩ T q s) fuel c h =
          some ((Service.store c sectors).1, y)) ∧
        ∃ used, y.Stores T (x.step ⟨0, 0⟩ T i) used (Service.store c sectors).2 := by
    obtain ⟨used, hstores⟩ := hstores
    obtain ⟨y, n, hcall, hnext⟩ := hstores.call c
    exact ⟨y, n, hcall, true, hnext⟩
  obtain ⟨y, n, hserve, used, hstores⟩ := serve_refines hcalls
    (fun c (_ : c ∈ calls) ↦ trivial) ⟨false, stores_reset hpower hi gaps⟩
  exact ⟨y, n, hserve, hstores.sectors_eq⟩

/-- Right after the reset sector 5 is written and read back. -/
theorem store_from_power_up_unpowered :
    ∃ y n, ∀ fuel ≥ n,
      serve (driver (freshHardware ⟨0, 0⟩ prompt ⟨0, false, false, 0, false, 0, false, false, 0⟩
          ⟨0, 0, false, 0, false⟩) fuel)
        [.write 5 fun i ↦ i.setWidth 8 + 1, .read 5 fun _ ↦ 0, .read 6 fun _ ↦ 0]
        ⟨SdPowerUp.unpowered.step ⟨0, 0⟩ prompt ⟨false, 0, 0, 0⟩, fun n ↦ n⟩ =
      some ([fun i ↦ i.setWidth 8 + 1, fun i ↦ i.setWidth 8], y) := by
  obtain ⟨y, n, hserve, -⟩ := store_from_power_up (T := prompt) (x := SdPowerUp.unpowered)
    rfl (i := ⟨false, 0, 0, 0⟩) rfl (fun n ↦ n)
    ⟨0, false, false, 0, false, 0, false, false, 0⟩ ⟨0, 0, false, 0, false⟩
    [.write 5 fun i ↦ i.setWidth 8 + 1, .read 5 fun _ ↦ 0, .read 6 fun _ ↦ 0]
  have hresult : (perform Service.store
      [.write 5 fun i ↦ i.setWidth 8 + 1, .read 5 fun _ ↦ 0, .read 6 fun _ ↦ 0]
      SdPowerUp.unpowered.engine.card.card.sectors).1 =
        [fun i ↦ i.setWidth 8 + 1, fun i ↦ i.setWidth 8] := by
    simp [perform, Service.store, SdPowerUp.unpowered, rested]
  rw [hresult] at hserve
  exact ⟨y, n, hserve⟩

end TangNano.SdDriver
