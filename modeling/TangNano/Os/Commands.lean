import TangNano.Os.Conservation

/-!
# What commands have in common

Commands change nothing of a world but who is where and has what, and what they
do depends on little of the state.
-/

namespace TangNano.Os

/-! ## What commands leave alone -/

/-- Names and links stay the same, and an entity goes where a link leads. -/
structure World.Moves (w w' : World) : Prop where
  objects : w'.objects = w.objects
  objectCount : w'.objectCount = w.objectCount
  entityCount : w'.entityCount = w.entityCount
  names : ∀ i, (w'.entities i).name = (w.entities i).name
  links : ∀ i, (w'.locations i).links = (w.locations i).links
  location : ∀ i, (w'.entities i).location = (w.entities i).location ∨
    ∃ j, ∃ lnk ∈ (w.locations j).links.toList, (w'.entities i).location = lnk.location

namespace World

variable {w w' w'' : World}

theorem Moves.refl (w : World) : w.Moves w :=
  ⟨rfl, rfl, rfl, fun _ ↦ rfl, fun _ ↦ rfl, fun _ ↦ .inl rfl⟩

theorem Moves.trans (h : w.Moves w') (h' : w'.Moves w'') : w.Moves w'' where
  objects := h'.objects.trans h.objects
  objectCount := h'.objectCount.trans h.objectCount
  entityCount := h'.entityCount.trans h.entityCount
  names i := (h'.names i).trans (h.names i)
  links i := (h'.links i).trans (h.links i)
  location i := by
    rcases h'.location i with heq | ⟨j, lnk, hlnk, heq⟩
    · rw [heq]
      exact h.location i
    · rw [h.links j] at hlnk
      exact .inr ⟨j, lnk, hlnk, heq⟩

theorem Moves.mapLocation (h : w.Moves w') (id : Id) {f : Location → Location}
    (hf : ∀ l, (f l).links = l.links) : w.Moves (w'.mapLocation id f) := by
  refine h.trans ⟨rfl, rfl, rfl, fun _ ↦ rfl, fun i ↦ ?_, fun _ ↦ .inl rfl⟩
  by_cases hi : i = index w'.locationCount id
  · simp [World.mapLocation, hi, hf]
  · simp [World.mapLocation, hi]

theorem Moves.mapEntity (h : w.Moves w') (id : Id) {f : Entity → Entity}
    (hname : ∀ e, (f e).name = e.name)
    (hlocation : ∀ e, (f e).location = e.location ∨
      ∃ j, ∃ lnk ∈ (w.locations j).links.toList, (f e).location = lnk.location) :
    w.Moves (w'.mapEntity id f) := by
  refine h.trans ⟨rfl, rfl, rfl, fun i ↦ ?_, fun _ ↦ rfl, fun i ↦ ?_⟩
  · by_cases hi : i = index w'.entityCount id
    · simp [World.mapEntity, hi, hname]
    · simp [World.mapEntity, hi]
  · by_cases hi : i = index w'.entityCount id
    · rcases hlocation (w'.entities i) with heq | ⟨j, lnk, hlnk, heq⟩
      · refine .inl ?_
        simp only [World.mapEntity, hi, Function.update_self]
        rw [← hi]
        exact heq
      · refine .inr ⟨j, lnk, (h.links j).symm ▸ hlnk, ?_⟩
        simp only [World.mapEntity, hi, Function.update_self]
        rw [← hi]
        exact heq
    · refine .inl ?_
      simp [World.mapEntity, hi]

/-- What an entity has changes. -/
theorem Moves.mapObjects (h : w.Moves w') (id : Id)
    (f : BoundedList Id entityMaxObjects → BoundedList Id entityMaxObjects) :
    w.Moves (w'.mapEntity id fun ent ↦ { ent with objects := f ent.objects }) :=
  h.mapEntity id (fun _ ↦ rfl) fun _ ↦ .inl rfl

end World

theorem World.Conserves.trans {w w' w'' : World} (h : w.Conserves w') (h' : w'.Conserves w'') :
    w.Conserves w'' :=
  ⟨h'.wellFormed, h'.objectIds.trans h.objectIds, fun id hid ↦ h'.isEntity id (h.isEntity id hid)⟩

section Commands

variable (eid : Id) (args : Text) (os : State)

theorem moves_take : os.world.Moves (actionTake eid args os).world := by
  have hadd (id : Id) := (World.Moves.refl os.world).mapObjects eid fun l ↦ (l.add id).2
  unfold actionTake
  split
  · exact .refl _
  dsimp only
  split
  · exact .refl _
  split
  · dsimp only
    exact (hadd _).mapLocation _ fun _ ↦ rfl
  · exact hadd _

theorem moves_drop : os.world.Moves (actionDrop eid args os).world := by
  unfold actionDrop
  split
  · exact .refl _
  dsimp only
  split
  · exact .refl _
  have hadd (id lid : Id) : os.world.Moves (os.world.mapLocation lid fun loc ↦
      { loc with objects := (loc.objects.add id).2 }) :=
    (World.Moves.refl os.world).mapLocation lid fun _ ↦ rfl
  split
  · exact (hadd _ _).mapObjects eid fun l ↦ (l.removeAt _).2
  · exact hadd _ _

theorem moves_give : os.world.Moves (actionGive eid args os).world := by
  have hadd (id dest : Id) := (World.Moves.refl os.world).mapObjects dest fun l ↦ (l.add id).2
  unfold actionGive
  dsimp only
  split
  · exact .refl _
  split
  · exact .refl _
  split
  · exact .refl _
  split
  · exact .refl _
  split
  · exact (hadd _ _).mapObjects eid fun l ↦ (l.removeAt _).2
  · exact hadd _ _

theorem moves_go (linkId : Id) : os.world.Moves (actionGo eid linkId os).world := by
  unfold actionGo
  dsimp only
  split
  · exact .refl _
  next hend =>
  have hlink := BoundedList.at'_mem (BoundedList.lt_of_not_isAtEnd hend)
  generalize BoundedList.forEachUntilFalse _ _ = pos at hlink
  generalize BoundedList.at' pos (os.world.locationById (os.world.entityById eid).location).links =
    lnk at hlink
  have harrive := (World.Moves.refl os.world).mapLocation lnk.location
    (f := fun loc ↦ { loc with entities := (loc.entities.add eid).2 }) fun _ ↦ rfl
  split
  · have hleave (lid : Id) := harrive.mapLocation lid
      (f := fun loc ↦ { loc with entities := (loc.entities.remove eid).2 }) fun _ ↦ rfl
    exact (hleave _).mapEntity eid (f := fun ent ↦ { ent with location := lnk.location })
      (fun _ ↦ rfl) fun _ ↦ .inr ⟨_, lnk, hlink, rfl⟩
  · exact harrive

theorem World.Moves.of_eq {w w' : World} (h : w' = w) : w.Moves w' := h ▸ .refl w

theorem moves_handleInput (p : Platform) (h : os.world.WellFormed) (heid : os.world.IsEntity eid)
    (line : Text) : Yields (fun os' ↦ os.world.Moves os'.world) (handleInput p eid line os) := by
  have hsame {os' : State} (hworld : os'.world = os.world) :
      Yields (fun os' ↦ os.world.Moves os'.world) (some os') := .some (.of_eq hworld)
  have hinventory : Yields (fun os' ↦ os.world.Moves os'.world)
      ((actionInventory eid os).map fun os ↦ os.uartSendCstr "\r\n") :=
    (actionInventory_world h heid).map fun _ hworld ↦ .of_eq hworld
  have hgo (linkId : Id) :
      Yields (fun os' ↦ os.world.Moves os'.world) (some (actionGo eid linkId os)) :=
    .some (moves_go eid os linkId)
  exact .ite (hsame rfl) <| .ite hinventory <| .ite (.some (moves_take eid _ os)) <|
    .ite (.some (moves_drop eid _ os)) <| .ite (hgo 1) <| .ite (hgo 2) <| .ite (hgo 3) <|
    .ite (hgo 4) <| .ite (.some (moves_give eid _ os)) <| .ite (hsame rfl) <| .ite (hsame rfl) <|
    .ite (hsame (actionSdcardRead_world _ os)) <| .ite (hsame (actionSdcardWrite_world _ os)) <|
    .ite (hsame rfl) (hsame rfl)

end Commands

/-! ## States that look the same to a command -/

/-- What commands do keeps the relation. -/
structure Respected (R : State → State → Prop) : Prop where
  world : ∀ {os os'}, R os os' → os.world = os'.world
  print : ∀ {os os'}, R os os' → ∀ str, R (os.stringPrint str) (os'.stringPrint str)
  change : ∀ {os os'}, R os os' → ∀ w, R { os with world := w } { os' with world := w }
  exit : ∀ {os os'}, R os os' → R os.exit os'.exit

section Branches

variable {α β : Type*} {R : α → β → Prop} {c : Prop} [Decidable c] {x y : α} {x' y' : β}

theorem related_ite_of (hx : c → R x x') (hy : R y y') :
    R (if c then x else y) (if c then x' else y') := by
  split
  · next hc => exact hx hc
  · exact hy

theorem related_ite (hx : R x x') (hy : R y y') : R (if c then x else y) (if c then x' else y') :=
  related_ite_of (fun _ ↦ hx) hy

end Branches

/-- What the first one gives has a related result of the second one. -/
def Lifts {α β : Type} (Q : α → β → Prop) (x : Option α) (y : Option β) : Prop :=
  ∀ a, x = some a → ∃ b, y = some b ∧ Q a b

theorem lifts_some {α β : Type} {Q : α → β → Prop} {a : α} {b : β} (h : Q a b) :
    Lifts Q (some a) (some b) := by
  rintro _ ⟨⟩
  exact ⟨b, rfl, h⟩

theorem Lifts.bind {α β α' β' : Type} {Q : α → β → Prop} {Q' : α' → β' → Prop} {x : Option α}
    {y : Option β} {f : α → Option α'} {g : β → Option β'} (h : Lifts Q x y)
    (hfg : ∀ a b, Q a b → Lifts Q' (f a) (g b)) : Lifts Q' (x.bind f) (y.bind g) := by
  intro a' ha'
  obtain ⟨a, rfl, hfa⟩ := Option.bind_eq_some_iff.mp ha'
  obtain ⟨b, rfl, hab⟩ := h a rfl
  exact hfg a b hab a' hfa

theorem Lifts.map {α β α' β' : Type} {Q : α → β → Prop} {Q' : α' → β' → Prop} {x : Option α}
    {y : Option β} {f : α → α'} {g : β → β'} (h : Lifts Q x y)
    (hfg : ∀ a b, Q a b → Q' (f a) (g b)) :
    Lifts Q' (x.map f) (y.map g) := by
  rintro _ ha
  obtain ⟨a, rfl, rfl⟩ := Option.map_eq_some_iff.mp ha
  obtain ⟨b, rfl, hab⟩ := h a rfl
  exact ⟨g b, rfl, hfg a b hab⟩

namespace Respected

variable {R : State → State → Prop} (hR : Respected R) {os os' : State} (h : R os os') (eid : Id)
  (args : Text)
include hR h

theorem send (s : String) : R (os.uartSendCstr s) (os'.uartSendCstr s) := hR.print h _

theorem take : R (actionTake eid args os) (actionTake eid args os') := by
  have hchange (w : World) := hR.change h w
  have hwhat := hR.send h "take what\r\n\r\n"
  have hnone := hR.send (hR.print h args) " not here\r\n\r\n"
  unfold actionTake
  rw [hR.world h]
  exact related_ite hwhat <| related_ite hnone <| related_ite (hchange _) (hchange _)

theorem drop : R (actionDrop eid args os) (actionDrop eid args os') := by
  have hchange (w : World) := hR.change h w
  have hwhat := hR.send h "drop what\r\n\r\n"
  have hnone := hR.send (hR.print (hR.send h "u don't have ") args) "\r\n\r\n"
  unfold actionDrop
  rw [hR.world h]
  exact related_ite hwhat <| related_ite hnone <| related_ite (hchange _) (hchange _)

theorem go (linkId : Id) : R (actionGo eid linkId os) (actionGo eid linkId os') := by
  have hchange (w : World) := hR.change h w
  have hnone := hR.send h "cannot go there\r\n\r\n"
  unfold actionGo
  rw [hR.world h]
  exact related_ite hnone <| related_ite (hchange _) (hchange _)

theorem give : R (actionGive eid args os) (actionGive eid args os') := by
  have hchange (w : World) := hR.change h w
  have hwhat := hR.send h "give what\r\n\r\n"
  have hwhom := hR.send h "give to whom\r\n\r\n"
  have hnobody (str : Text) := hR.send (hR.print h str) " is not here\r\n\r\n"
  have hnothing (str : Text) := hR.send (hR.print h str) " not in inventory\r\n\r\n"
  unfold actionGive
  rw [hR.world h]
  exact related_ite hwhat <| related_ite hwhom <| related_ite (hnobody _) <|
    related_ite (hnothing _) <| related_ite (hchange _) (hchange _)

theorem sendName (name : Option Text) : Lifts R (os.sendName name) (os'.sendName name) := by
  cases name with
  | none =>
      rintro _ ⟨⟩
  | some name => exact lifts_some (hR.print h name)

theorem sendNames (names : List (Option Text)) (counter : ℕ) :
    Lifts (fun a b ↦ a.1 = b.1 ∧ R a.2 b.2) (Os.sendNames counter names os)
      (Os.sendNames counter names os') := by
  induction names generalizing counter os os' with
  | nil => exact lifts_some ⟨rfl, h⟩
  | cons name names ih =>
      have hcomma := related_ite (R := R) (c := counter ≠ 0) (hR.send h ", ") h
      exact (hR.sendName hcomma name).bind fun _ _ hnext ↦ ih hnext (counter + 1)

theorem inventory : Lifts R (actionInventory eid os) (actionInventory eid os') := by
  unfold actionInventory
  rw [hR.world h]
  refine (hR.sendNames (hR.send h _) _ 0).bind ?_
  rintro ⟨n, os₁⟩ ⟨_, os₁'⟩ ⟨rfl, h₁⟩
  exact lifts_some (hR.send (related_ite (hR.send h₁ "nothing") h₁) _)

theorem help : R (printHelp os) (printHelp os') := by
  unfold printHelp
  repeat' apply hR.send
  exact h

theorem memTest (p : Platform) : R (actionMemTest p os) (actionMemTest p os') := hR.print h _

theorem status (status : Word) : R (actionSdcardStatus status os) (actionSdcardStatus status os') :=
  hR.send (hR.print (hR.send h _) _) _

/-- Unless it is one for the memory or the card a command respects the relation. -/
theorem handleInput (p p' : Platform) (line : Text)
    (hmemTest : (stringNextWord line).word = cstr "m" →
      R (actionMemTest p os) (actionMemTest p' os'))
    (hstatus : (stringNextWord line).word = cstr "sds" →
      R (actionSdcardStatus p.sdcardStatus os) (actionSdcardStatus p'.sdcardStatus os'))
    (hread : (stringNextWord line).word = cstr "sdr" →
      R (actionSdcardRead (stringNextWord line).rem os)
        (actionSdcardRead (stringNextWord line).rem os'))
    (hwrite : (stringNextWord line).word = cstr "sdw" →
      R (actionSdcardWrite (stringNextWord line).rem os)
        (actionSdcardWrite (stringNextWord line).rem os')) :
    Lifts R (Os.handleInput p eid line os) (Os.handleInput p' eid line os') := by
  have hgo (linkId : Id) := lifts_some (hR.go h eid linkId)
  have hinventory : Lifts R ((actionInventory eid os).map fun os ↦ os.uartSendCstr "\r\n")
      ((actionInventory eid os').map fun os ↦ os.uartSendCstr "\r\n") :=
    (hR.inventory h eid).map fun _ _ h ↦ hR.send h _
  exact related_ite (lifts_some (hR.help h)) <| related_ite hinventory <|
    related_ite (lifts_some (hR.take h eid _)) <| related_ite (lifts_some (hR.drop h eid _)) <|
    related_ite (hgo 1) <| related_ite (hgo 2) <| related_ite (hgo 3) <| related_ite (hgo 4) <|
    related_ite (lifts_some (hR.give h eid _)) <|
    related_ite_of (fun hcmd ↦ lifts_some (hmemTest ((stringEqualsCstr_iff _ _).mp hcmd))) <|
    related_ite_of (fun hcmd ↦ lifts_some (hstatus ((stringEqualsCstr_iff _ _).mp hcmd))) <|
    related_ite_of (fun hcmd ↦ lifts_some (hread ((stringEqualsCstr_iff _ _).mp hcmd))) <|
    related_ite_of (fun hcmd ↦ lifts_some (hwrite ((stringEqualsCstr_iff _ _).mp hcmd))) <|
    related_ite (lifts_some (hR.exit h)) (lifts_some (hR.send h _))

end Respected

end TangNano.Os
