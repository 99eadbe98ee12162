import Mathlib.Data.Stream.Init
import TangNano.Library.Screen
import TangNano.Os.Commands
import TangNano.Os.TypedText

/-!
# The game

`run` shows where the player is, lets `input` read a line and hands it to
`handle_input`, for one entity after the other.  It never sends a name that is
null.
-/

namespace TangNano.Os

/-! ## The loop -/

def hello : String := "welcome to adventure #4\r\n    type 'help'\r\n\r\n"

def asciiArt : String :=
  "                                  oOo.o.\r\n" ++
    "         frameless osca          oOo.oOo\r\n" ++
    "      __________________________  .oOo.\r\n" ++
    "     O\\        -_   .. \\    ___ \\   ||\r\n" ++
    "    O  \\                \\   \\ \\\\ \\ //\\\\\r\n" ++
    "   o   /\\    risc-v      \\   \\|\\\\ \\\r\n" ++
    "  .   //\\\\    fpga        \\   ||   \\\r\n" ++
    "   .  \\\\/\\\\    overview    \\  \\_\\   \\\r\n" ++
    "    .  \\\\//\\________________\\________\\\r\n" ++
    "     .  \\/_/, \\\\\\--\\\\..\\\\ - /\\_____  /\r\n" ++
    "      .  \\ \\ . \\\\\\__\\\\__\\\\./ / \\__/ /\r\n" ++
    "       .  \\ \\ , \\    \\\\ ///./ ,/./ /\r\n" ++
    "        .  \\ \\___\\ sticky notes / /\r\n" ++
    "         .  \\/\\________________/ /\r\n" ++
    "    ./\\.  . / /                 /\r\n" ++
    "    /--\\   .\\/_________________/\r\n" ++
    "         ___.                 .\r\n" ++
    "        |o o|. . . . . . . . .\r\n" ++
    "        /| |\\ . .\r\n" ++
    "    ____       . .\r\n" ++
    "   |O  O|       . .\r\n" ++
    "   |_ -_|        . .\r\n" ++
    "    /||\\\r\n" ++
    "      ___\r\n" ++
    "     /- -\\\r\n" ++
    "    /\\_-_/\\\r\n" ++
    "      | |\r\n" ++
    "\r\n"

/-- The names of the locations, which nothing changes. -/
def locationNames : List (Option Text) :=
  [none, some (cstr "roome"), some (cstr "office"), some (cstr "bathroom"), some (cstr "kitchen")]

def locationName (id : Id) : Option Text := locationNames.getD (index locationNames.length id) none

def links : List Text :=
  [cstr "", cstr "north", cstr "east", cstr "south", cstr "west", cstr "up", cstr "down"]

def linkById (id : Id) : Text := links.getD (index links.length id) []

def printLocation (lid eidExcludedFromOutput : Id) (os : State) : Option State := do
  let loc := os.world.locationById lid
  let objectNames := loc.objects.toList.map fun id ↦ (os.world.objectById id).name
  let entityNames := (loc.entities.toList.filter (· ≠ eidExcludedFromOutput)).map fun id ↦
    (os.world.entityById id).name
  let linkNames := loc.links.toList.map fun lnk ↦ some (linkById lnk.link)
  let os ← (os.uartSendCstr "u r in ").sendName (locationName lid)
  let (counter, os) ← sendNames 0 objectNames (os.uartSendCstr "\r\nu c: ")
  let os := if counter = 0 then os.uartSendCstr "nothing" else os
  let (counter, os) ← sendNames 0 entityNames (os.uartSendCstr "\r\n")
  let os := if counter ≠ 0 then os.uartSendCstr " is here\r\n" else os
  let (counter, os) ← sendNames 0 linkNames (os.uartSendCstr "exits: ")
  let os := if counter = 0 then os.uartSendCstr "none" else os
  some (os.uartSendCstr "\r\n")

def charCarriageReturn : Byte := 0x0d

/-- `run` while `input` waits for a character; the device is what `handle_input`
uses besides. -/
structure Session (σ : Type) where
  os : State
  device : σ
  activeEntity : Id
  input : Input

def nextEntity (activeEntity : Id) : Id := if activeEntity = 1 then 2 else 1

/-- How a line is handled. -/
abbrev Handler (σ : Type) := Id → Text → State → σ → Option (State × σ)

namespace Session

section Loop

variable {σ : Type} (handle : Handler σ)

/-- Up to the call of `input`. -/
def await (activeEntity : Id) (cmdBuf : CursorBuffer commandBufferSize) (os : State) (device : σ) :
    Option (Session σ) := do
  let ent := os.world.entityById activeEntity
  let os ← printLocation ent.location activeEntity os
  let os ← os.sendName ent.name
  some ⟨os.uartSendCstr " > ", device, activeEntity, .start cmdBuf⟩

def receive (ch : Byte) (s : Session σ) : Option (Session σ) :=
  let input := s.input.readChar charCarriageReturn ch
  if input.returned then do
    let os := (s.os.stringPrint input.output).uartSendCstr "\r\n"
    let (os, device) ← handle s.activeEntity input.cmdBuf.span os s.device
    await (nextEntity s.activeEntity) input.cmdBuf os device
  else some { s with input }

def receiveAll : Text → Session σ → Option (Session σ)
  | [], s => some s
  | ch :: chs, s => do receiveAll chs (← s.receive handle ch)

/-- `run` has read some characters. -/
def run (os : State) (device : σ) (chs : Text) : Option (Session σ) := do
  let os := (os.uartSendCstr asciiArt).uartSendCstr hello
  receiveAll handle chs (← await 1 Input.emptyBuffer os device)

def output (s : Session σ) : Text := s.os.output ++ s.input.output

end Loop

end Session

/-! ## Names -/

/-- There is a name, of printable characters. -/
def Showable : Option Text → Prop
  | none => False
  | some text => ∀ ch ∈ text, Terminal.Printable ch

instance : (name : Option Text) → Decidable (Showable name)
  | none => inferInstanceAs (Decidable False)
  | some text => inferInstanceAs (Decidable (∀ ch ∈ text, Terminal.Printable ch))

/-- What is shown has a name. -/
structure World.Mapped (w : World) : Prop where
  objects : ∀ id, w.Named id → Showable (w.objects id.toNat).name
  entities : ∀ id, w.IsEntity id → Showable (w.entities id.toNat).name
  locations : ∀ id, w.IsEntity id → Showable (locationName (w.entities id.toNat).location)
  links : ∀ i, ∀ lnk ∈ (w.locations i).links.toList, Showable (locationName lnk.location)

theorem World.Moves.isEntity_iff {w w' : World} (h : w.Moves w') (id : Id) :
    w'.IsEntity id ↔ w.IsEntity id := by
  unfold IsEntity
  rw [h.entityCount]

theorem World.Mapped.moves {w w' : World} (hw : w.Mapped) (h : w.Moves w') : w'.Mapped where
  objects id hid := by
    unfold World.Named at hid
    rw [h.objects, h.objectCount] at hid
    rw [h.objects]
    exact hw.objects id hid
  entities id hid := by
    rw [h.names]
    exact hw.entities id ((h.isEntity_iff id).mp hid)
  locations id hid := by
    rcases h.location id.toNat with heq | ⟨j, lnk, hlnk, heq⟩
    · rw [heq]
      exact hw.locations id ((h.isEntity_iff id).mp hid)
    · rw [heq]
      exact hw.links j lnk hlnk
  links i lnk hlnk := by
    rw [h.links i] at hlnk
    exact hw.links i lnk hlnk

theorem mapped_initial : World.initial.Mapped where
  objects id hid := by
    obtain ⟨hlt, hsome⟩ := hid
    generalize id.toNat = i at hlt hsome
    have hlt : i < 4 := hlt
    interval_cases i
    · exact absurd hsome (by decide)
    all_goals decide
  entities id hid := by
    obtain ⟨hpos, hlt⟩ := hid
    generalize id.toNat = i at hpos hlt
    have hlt : i < 3 := hlt
    interval_cases i <;> decide
  locations id hid := by
    obtain ⟨hpos, hlt⟩ := hid
    generalize id.toNat = i at hpos hlt
    have hlt : i < 3 := hlt
    interval_cases i <;> decide
  links i lnk hlnk := by
    rcases Nat.lt_or_ge i 5 with hlt | hge
    · revert lnk
      interval_cases i <;> decide
    · have hnone : (World.initial.locations i).links.toList = [] := by
        obtain ⟨k, rfl⟩ := Nat.exists_eq_add_of_le' hge
        rfl
      rw [hnone] at hlnk
      exact absurd hlnk List.not_mem_nil

/-! ## What is sent -/

/-- Something is sent that has no escape sequence in it. -/
def Sends (os os' : State) : Prop := ∃ out, os' = os.stringPrint out ∧ 0x1b ∉ out

section Sending

variable {os os' os'' : State}

theorem Sends.refl (os : State) : Sends os os :=
  ⟨[], by simp [State.stringPrint], List.not_mem_nil⟩

theorem Sends.text (h : Sends os os') {out : Text} (hout : 0x1b ∉ out) :
    Sends os (os'.stringPrint out) := by
  obtain ⟨out', rfl, hout'⟩ := h
  refine ⟨out' ++ out, ?_, ?_⟩
  · simp [State.stringPrint, List.append_assoc]
  · rw [List.mem_append]
    exact not_or.mpr ⟨hout', hout⟩

theorem Sends.cstr (h : Sends os os') {s : String} (hs : 0x1b ∉ Os.cstr s) :
    Sends os (os'.uartSendCstr s) := h.text hs

theorem Sends.ite (h : Sends os os') {s : String} (hs : 0x1b ∉ Os.cstr s) (c : Prop) [Decidable c] :
    Sends os (if c then os'.uartSendCstr s else os') := by
  split
  · exact h.cstr hs
  · exact h

theorem someText_of_showable {name : Option Text} (h : Showable name) :
    SomeText (· ≠ 0x1b) name := by
  cases name with
  | none => cases h
  | some text => exact ⟨text, rfl, fun ch hch ↦ (h ch hch).not_control.1⟩

theorem Sends.sendName (h : Sends os os') {name : Option Text} (hname : Showable name) :
    ∃ os'', os'.sendName name = some os'' ∧ Sends os os'' := by
  obtain ⟨out, hsend, hout⟩ := sendName_some (someText_of_showable hname) os'
  exact ⟨_, hsend, h.text fun hmem ↦ hout _ hmem rfl⟩

theorem Sends.sendNames (h : Sends os os') {names : List (Option Text)}
    (hnames : ∀ name ∈ names, Showable name) (counter : ℕ) :
    ∃ n os'', Os.sendNames counter names os' = some (n, os'') ∧ Sends os os'' := by
  obtain ⟨n, out, hsend, hout⟩ := sendNames_some (by decide)
    (fun name hname ↦ someText_of_showable (hnames name hname)) counter os'
  exact ⟨n, _, hsend, h.text fun hmem ↦ hout _ hmem rfl⟩

end Sending

theorem showable_link (id : Id) : Showable (some (linkById id)) := by
  have hall : ∀ text ∈ [] :: links, ∀ ch ∈ text, Terminal.Printable ch := by decide
  refine hall _ ?_
  unfold linkById
  rcases Nat.lt_or_ge (index links.length id) links.length with hlt | hge
  · rw [List.getD_eq_getElem _ _ hlt]
    exact List.mem_cons_of_mem _ (List.getElem_mem hlt)
  · rw [List.getD_eq_default _ _ hge]
    exact List.mem_cons_self

/-- The names of a location and of all that is there are sent. -/
theorem printLocation_sends {os : State} (h : os.world.WellFormed) (hmap : os.world.Mapped)
    {lid : Id} (hlid : lid.toNat < os.world.locationCount) (hname : Showable (locationName lid))
    (eid : Id) :
    ∃ os', printLocation lid eid os = some (os'.uartSendCstr "\r\n") ∧
      Sends (os.uartSendCstr "u r in ") os' := by
  have hlocation : os.world.locationById lid = os.world.locations lid.toNat :=
    World.locationById_eq hlid
  have hobjects : ∀ name ∈ (os.world.locationById lid).objects.toList.map
      fun id ↦ (os.world.objectById id).name, Showable name := by
    intro name hmem
    obtain ⟨id, hid, rfl⟩ := List.mem_map.mp hmem
    rw [hlocation] at hid
    have hnamed := (h.locations _ hlid).named id hid
    rw [World.objectById, World.index_eq hnamed.1]
    exact hmap.objects id hnamed
  have hentities : ∀ name ∈ ((os.world.locationById lid).entities.toList.filter (· ≠ eid)).map
      fun id ↦ (os.world.entityById id).name, Showable name := by
    intro name hmem
    obtain ⟨id, hid, rfl⟩ := List.mem_map.mp hmem
    have hid := (List.mem_filter.mp hid).1
    rw [hlocation] at hid
    have hentity := (h.place _ hlid id hid).1
    rw [World.entityById_eq hentity.2]
    exact hmap.entities id hentity
  have hlinks : ∀ name ∈ (os.world.locationById lid).links.toList.map
      fun lnk ↦ some (linkById lnk.link), Showable name := by
    intro name hmem
    obtain ⟨lnk, -, rfl⟩ := List.mem_map.mp hmem
    exact showable_link lnk.link
  obtain ⟨os₁, hos₁, h₁⟩ := (Sends.refl (os.uartSendCstr "u r in ")).sendName hname
  obtain ⟨n₂, os₂, hos₂, h₂⟩ :=
    (h₁.cstr (s := "\r\nu c: ") (by decide)).sendNames hobjects 0
  have hnothing := h₂.ite (s := "nothing") (by decide) (n₂ = 0)
  obtain ⟨n₃, os₃, hos₃, h₃⟩ :=
    (hnothing.cstr (s := "\r\n") (by decide)).sendNames hentities 0
  have hhere := h₃.ite (s := " is here\r\n") (by decide) (n₃ ≠ 0)
  obtain ⟨n₄, os₄, hos₄, h₄⟩ :=
    (hhere.cstr (s := "exits: ") (by decide)).sendNames hlinks 0
  have hnone := h₄.ite (s := "none") (by decide) (n₄ = 0)
  refine ⟨_, ?_, hnone⟩
  simp only [printLocation, hos₁, hos₂, hos₃, hos₄, Option.bind_eq_bind, Option.bind_some]

namespace Respected

variable {R : State → State → Prop} (hR : Respected R) {os os' : State} (h : R os os')
include hR h

theorem printLocation (lid eid : Id) :
    Lifts R (Os.printLocation lid eid os) (Os.printLocation lid eid os') := by
  unfold Os.printLocation
  rw [hR.world h]
  refine (hR.sendName (hR.send h _) _).bind fun os₁ os₁' h₁ ↦ ?_
  refine (hR.sendNames (hR.send h₁ _) _ 0).bind ?_
  rintro ⟨n, os₂⟩ ⟨_, os₂'⟩ ⟨rfl, h₂⟩
  have hnothing := related_ite (R := R) (c := n = 0) (hR.send h₂ "nothing") h₂
  refine (hR.sendNames (hR.send hnothing _) _ 0).bind ?_
  rintro ⟨n, os₃⟩ ⟨_, os₃'⟩ ⟨rfl, h₃⟩
  have hhere := related_ite (R := R) (c := n ≠ 0) (hR.send h₃ " is here\r\n") h₃
  refine (hR.sendNames (hR.send hhere _) _ 0).bind ?_
  rintro ⟨n, os₄⟩ ⟨_, os₄'⟩ ⟨rfl, h₄⟩
  exact lifts_some (hR.send (related_ite (hR.send h₄ "none") h₄) _)

end Respected

/-! ## Worlds that can be played -/

/-- What commands do apart from what they send. -/
structure SameGame (os os' : State) : Prop where
  world : os.world = os'.world
  card : os.card = os'.card
  accesses : os.accesses = os'.accesses
  exited : os.exited = os'.exited

theorem SameGame.trans {os os' os'' : State} (h : SameGame os os') (h' : SameGame os' os'') :
    SameGame os os'' :=
  ⟨h.world.trans h'.world, h.card.trans h'.card, h.accesses.trans h'.accesses,
    h.exited.trans h'.exited⟩

theorem respected_sameGame : Respected SameGame where
  world h := h.world
  print h _ := ⟨h.world, h.card, h.accesses, h.exited⟩
  change h _ := ⟨rfl, h.card, h.accesses, h.exited⟩
  exit h := ⟨h.world, h.card, h.accesses, rfl⟩

/-- What a command finds of the platform is only shown. -/
theorem SameGame.handleInput {os os' : State} (h : SameGame os os') (p p' : Platform) (eid : Id)
    (line : Text) :
    Lifts SameGame (Os.handleInput p eid line os) (Os.handleInput p' eid line os') := by
  refine respected_sameGame.handleInput h eid p p' line
    (fun _ ↦ ⟨h.world, h.card, h.accesses, h.exited⟩)
    (fun _ ↦ ⟨h.world, h.card, h.accesses, h.exited⟩) ?_ ?_
  · intro _
    refine related_ite ⟨h.world, h.card, h.accesses, h.exited⟩ ?_
    exact ⟨h.world, h.card, congrArg (· ++ _) h.accesses, h.exited⟩
  · intro _
    refine related_ite ⟨h.world, h.card, h.accesses, h.exited⟩ <|
      related_ite ⟨h.world, h.card, h.accesses, h.exited⟩ ?_
    exact ⟨h.world, congrArg (Function.update · _ _) h.card, congrArg (· ++ _) h.accesses, h.exited⟩

/-- What is sent comes after what has been sent. -/
theorem respected_begins (out : Text) :
    Respected fun os os' ↦ os = os' ∧ out <+: os.output where
  world h := congrArg State.world h.1
  print h str := ⟨by rw [h.1], h.2.trans (List.prefix_append _ str)⟩
  change h w := ⟨by rw [h.1], h.2⟩
  exit h := ⟨by rw [h.1], h.2⟩

theorem begins_handleInput {os os' : State} {p : Platform} {eid : Id} {line : Text}
    (h : handleInput p eid line os = some os') : os.output <+: os'.output := by
  have hstart : os = os ∧ os.output <+: os.output := ⟨rfl, List.prefix_rfl⟩
  have hprint (str : Text) : os.output <+: os.output ++ str := List.prefix_append _ str
  have hR := respected_begins os.output
  obtain ⟨-, -, -, hbegins⟩ := hR.handleInput hstart eid p p line
    (fun _ ↦ hR.memTest hstart p) (fun _ ↦ hR.status hstart p.sdcardStatus)
    (fun _ ↦ ⟨rfl, by
      unfold actionSdcardRead
      dsimp only
      split
      · exact hprint _
      · exact (hprint _).trans (List.prefix_append _ _)⟩)
    (fun _ ↦ ⟨rfl, by
      unfold actionSdcardWrite
      dsimp only
      split
      · exact hprint _
      · split
        · exact hprint _
        · exact List.prefix_rfl⟩) os' h
  exact hbegins

/-- `me` and `u` are in a well-formed world. -/
structure World.Playable (w : World) : Prop where
  wellFormed : w.WellFormed
  mapped : w.Mapped
  me : w.IsEntity 1
  u : w.IsEntity 2

theorem playable_initial : World.initial.Playable :=
  ⟨wellFormed_initial, mapped_initial, by decide, by decide⟩

def IsPlayer (eid : Id) : Prop := eid = 1 ∨ eid = 2

theorem isPlayer_nextEntity (eid : Id) : IsPlayer (nextEntity eid) := by
  unfold nextEntity
  split
  · exact .inr rfl
  · exact .inl rfl

theorem World.Playable.isEntity {w : World} (h : w.Playable) {eid : Id} (heid : IsPlayer eid) :
    w.IsEntity eid := by
  rcases heid with rfl | rfl
  · exact h.me
  · exact h.u

theorem World.Playable.handleInput {os : State} (h : os.world.Playable) {eid : Id}
    (heid : IsPlayer eid) (p : Platform) (line : Text) :
    ∃ os', Os.handleInput p eid line os = some os' ∧ os'.world.Playable ∧
      os.world.Conserves os'.world := by
  have hentity := h.isEntity heid
  obtain ⟨os', hos', hconserves⟩ := conserves_handleInput p h.wellFormed hentity line
  obtain ⟨_, heq, hmoves⟩ := moves_handleInput eid os p h.wellFormed hentity line
  obtain rfl := Option.some.inj (hos'.symm.trans heq)
  exact ⟨os', hos', ⟨hconserves.wellFormed, h.mapped.moves hmoves,
    (hmoves.isEntity_iff 1).mpr h.me, (hmoves.isEntity_iff 2).mpr h.u⟩, hconserves⟩

/-- What is before the line that is typed. -/
def State.prompt (os : State) (eid : Id) : Text :=
  (os.world.entityById eid).name.getD [] ++ cstr " > "

theorem shows_prompt (sent : Text) {out name : Text} (hout : 0x1b ∉ out)
    (hname : ∀ ch ∈ name, Terminal.Printable ch) (screen : Screen) :
    (screen.receiveAll (sent ++ cstr "u r in " ++ out ++ cstr "\r\n" ++ name ++
      cstr " > ")).line.Shows 0 (name ++ cstr " > ") [] := by
  have hprompt : ∀ ch ∈ name ++ cstr " > ", Terminal.Printable ch := by
    intro ch hch
    rcases List.mem_append.mp hch with hmem | hmem
    · exact hname ch hmem
    · exact (by decide : ∀ ch ∈ cstr " > ", Terminal.Printable ch) ch hmem
  have hline : ∀ ch ∈ name ++ cstr " > ", ch ∉ Screen.newLine := fun ch hch ↦
    Screen.not_mem_newLine (hprompt ch hch)
  have hplain : 0x1b ∉ cstr "u r in " ++ out :=
    List.mem_append.not.mpr (not_or.mpr ⟨by decide, hout⟩)
  have hlength : 2 ≤ (cstr "u r in " ++ out).length := by
    rw [List.length_append]
    exact Nat.le_add_right_of_le (by decide)
  have hend := Screen.shows_newLine (s := screen.receiveAll sent) hplain hlength
  rw [← Screen.receiveAll_append] at hend
  have hsent : sent ++ cstr "u r in " ++ out ++ cstr "\r\n" ++ name ++ cstr " > " =
      sent ++ (cstr "u r in " ++ out ++ Screen.newLine) ++ (name ++ cstr " > ") := by
    have hreturn : cstr "\r\n" = Screen.newLine := by decide
    rw [hreturn]
    simp only [List.append_assoc]
  have hshows := hend.print hprompt
  rw [List.drop_nil] at hshows
  rw [hsent, Screen.receiveAll_append, Screen.receiveAll_line hline]
  exact hshows

/-- The player is shown where he is, and then an empty line after the prompt. -/
theorem World.Playable.await {os : State} (h : os.world.Playable) {eid : Id}
    (heid : IsPlayer eid) (cmdBuf : CursorBuffer commandBufferSize) :
    ∃ os', (∀ {σ : Type} (device : σ),
        Session.await eid cmdBuf os device = some ⟨os', device, eid, .start cmdBuf⟩) ∧
      SameGame os' os ∧
      ∀ screen : Screen, (screen.receiveAll os'.output).line.Shows 0 (os.prompt eid) [] := by
  have hentity := h.isEntity heid
  have hbyId : os.world.entityById eid = os.world.entities eid.toNat :=
    World.entityById_eq hentity.2
  have hlid := (h.wellFormed.located hentity).1
  obtain ⟨_, hprint, out, rfl, hout⟩ := printLocation_sends h.wellFormed h.mapped hlid
    (h.mapped.locations eid hentity) eid
  have hname := h.mapped.entities eid hentity
  rw [← hbyId] at hprint hname
  cases hnm : (os.world.entityById eid).name with
  | none =>
      rw [hnm] at hname
      cases hname
  | some name =>
      rw [hnm] at hname
      refine ⟨((((os.uartSendCstr "u r in ").stringPrint out).uartSendCstr "\r\n").stringPrint
        name).uartSendCstr " > ", fun device ↦ ?_, ⟨rfl, rfl, rfl, rfl⟩, fun screen ↦ ?_⟩
      · unfold Session.await
        dsimp only
        rw [hprint, hnm]
        rfl
      · rw [State.prompt, hnm]
        exact shows_prompt os.output hout hname screen

/-! ## Sessions -/

/-- Lines for one player after the other, and what they find of the platform. -/
def turns (ps : Stream' Platform) (eid : Id) : List Text → List Command
  | [] => []
  | line :: lines => ⟨ps.head, eid, line⟩ :: turns ps.tail (nextEntity eid) lines

/-- Lines are handled with the sectors in the state; the device is what the next lines
find of the platform. -/
def onStore : Handler (Stream' Platform) := fun eid line os ps ↦
  (handleInput ps.head eid line os).map fun os ↦ (os, ps.tail)

namespace Session

/-- Nothing has been sent since the player was shown where he is, after `out` and what
the lines before have sent. -/
def Awaits {σ : Type} (out : Text) (s : Session σ) : Prop :=
  ∃ os cmdBuf, out <+: os.output ∧ SameGame s.os os ∧
    await s.activeEntity cmdBuf os s.device = some { s with input := .start cmdBuf }

section Steps

variable {σ : Type} {handle : Handler σ} {s : Session σ} {ch : Byte}

theorem receiveAll_cons (ch : Byte) (chs : Text) :
    receiveAll handle (ch :: chs) s = (s.receive handle ch).bind (receiveAll handle chs) := rfl

theorem receive_goes_on (h : (s.input.readChar charCarriageReturn ch).returned = false) :
    s.receive handle ch = some { s with input := s.input.readChar charCarriageReturn ch } := by
  unfold receive
  dsimp only
  rw [h]
  rfl

theorem Awaits.begins {out : Text} (h : s.Awaits out) : out <+: s.os.output := by
  obtain ⟨os, cmdBuf, hout, -, hawait⟩ := h
  have hR := respected_begins out
  have hstart : os = os ∧ out <+: os.output := ⟨rfl, hout⟩
  obtain ⟨os₁, hprint, hrest⟩ := Option.bind_eq_some_iff.mp hawait
  obtain ⟨_, -, -, hout₁⟩ := hR.printLocation hstart _ _ os₁ hprint
  obtain ⟨os₂, hname, hsession⟩ := Option.bind_eq_some_iff.mp hrest
  obtain ⟨_, -, -, hout₂⟩ := hR.sendName ⟨rfl, hout₁⟩ _ os₂ hname
  have hos : os₂.uartSendCstr " > " = s.os := congrArg Session.os (Option.some.inj hsession)
  rw [← hos]
  exact hout₂.trans (List.prefix_append _ _)

theorem receive_onStore {s : Session (Stream' Platform)} {out : Text}
    (hworld : s.os.world.Playable) (hactive : IsPlayer s.activeEntity) (hawaits : s.Awaits out)
    (h : (s.input.readChar charCarriageReturn ch).returned = true) :
    ∃ os' os'', handleInput s.device.head s.activeEntity
        (s.input.readChar charCarriageReturn ch).cmdBuf.span s.os = some os' ∧
      s.os.world.Conserves os'.world ∧
      s.receive onStore ch = some ⟨os'', s.device.tail, nextEntity s.activeEntity,
        .start (s.input.readChar charCarriageReturn ch).cmdBuf⟩ ∧
      SameGame os'' os' ∧ os''.world.Playable ∧
      Awaits out ⟨os'', s.device.tail, nextEntity s.activeEntity,
        .start (s.input.readChar charCarriageReturn ch).cmdBuf⟩ ∧
      ∀ screen : Screen, (screen.receiveAll os''.output).line.Shows 0
        (os''.prompt (nextEntity s.activeEntity)) [] := by
  generalize hinput : s.input.readChar charCarriageReturn ch = input at h
  obtain ⟨os', hos', -, hconserves⟩ := hworld.handleInput hactive s.device.head input.cmdBuf.span
  have hworld' : ((s.os.stringPrint input.output).uartSendCstr "\r\n").world.Playable := hworld
  obtain ⟨os₁, hos₁, hplayable, -⟩ :=
    hworld'.handleInput hactive s.device.head input.cmdBuf.span
  have hsame : SameGame ((s.os.stringPrint input.output).uartSendCstr "\r\n") s.os :=
    ⟨rfl, rfl, rfl, rfl⟩
  obtain ⟨_, heq, hhandled⟩ := hsame.handleInput s.device.head s.device.head s.activeEntity
    input.cmdBuf.span os₁
    hos₁
  obtain rfl := Option.some.inj (hos'.symm.trans heq)
  obtain ⟨os'', hawait, hsame', hshows⟩ :=
    hplayable.await (isPlayer_nextEntity s.activeEntity) input.cmdBuf
  refine ⟨os', os'', hos', hconserves, ?_, hsame'.trans hhandled, hsame'.world ▸ hplayable,
    ⟨os₁, input.cmdBuf, ?_, hsame', hawait _⟩, fun screen ↦ ?_⟩
  · unfold receive onStore
    dsimp only
    rw [hinput, h, if_pos rfl, hos₁]
    exact hawait _
  · have hsent : s.os.output <+: ((s.os.stringPrint input.output).uartSendCstr "\r\n").output :=
      (List.prefix_append _ _).trans (List.prefix_append _ _)
    exact (hawaits.begins.trans hsent).trans (begins_handleInput hos₁)
  · rw [State.prompt, hsame'.world]
    exact hshows screen

theorem calls_goes_on {s : Input} (h : (s.readChar charCarriageReturn ch).returned = false)
    (chs : Text) : Input.calls charCarriageReturn s (ch :: chs) =
      Input.calls charCarriageReturn (s.readChar charCarriageReturn ch) chs := by
  rw [Input.calls]
  dsimp only
  rw [h]
  rfl

theorem calls_returns {s : Input} (h : (s.readChar charCarriageReturn ch).returned = true)
    (chs : Text) : Input.calls charCarriageReturn s (ch :: chs) =
      ((s.readChar charCarriageReturn ch).cmdBuf.span ::
          (Input.calls charCarriageReturn (.start (s.readChar charCarriageReturn ch).cmdBuf) chs).1,
        (Input.calls charCarriageReturn
          (.start (s.readChar charCarriageReturn ch).cmdBuf) chs).2) := by
  rw [Input.calls]
  dsimp only
  rw [h]
  rfl

theorem await_input {eid : Id} {cmdBuf : CursorBuffer commandBufferSize} {os : State} {x : σ}
    {s : Session σ} (h : await eid cmdBuf os x = some s) : s.input = .start cmdBuf := by
  obtain ⟨os₁, -, hrest⟩ := Option.bind_eq_some_iff.mp h
  obtain ⟨os₂, -, hsession⟩ := Option.bind_eq_some_iff.mp hrest
  rw [← Option.some.inj hsession]

/-- The lines of a session that has read a character and goes on. -/
theorem calls_cons {handle : Handler σ} {s t : Session σ} {ch : Byte}
    (ht : s.receive handle ch = some t) (chs : Text) :
    (Input.calls charCarriageReturn s.input (ch :: chs)).1 =
      (if (s.input.readChar charCarriageReturn ch).returned then
        [(s.input.readChar charCarriageReturn ch).cmdBuf.span] else []) ++
      (Input.calls charCarriageReturn t.input chs).1 := by
  cases hreturned : (s.input.readChar charCarriageReturn ch).returned with
  | false =>
      rw [receive_goes_on hreturned] at ht
      obtain rfl := Option.some.inj ht
      rw [calls_goes_on hreturned]
      rfl
  | true =>
      unfold Session.receive at ht
      dsimp only at ht
      rw [hreturned] at ht
      obtain ⟨⟨os, x⟩, -, hawait⟩ := Option.bind_eq_some_iff.mp ht
      rw [calls_returns hreturned, await_input hawait]
      rfl

end Steps

/-- A session in a world that can be played has read some characters. -/
theorem receiveAll_onStore {s : Session (Stream' Platform)} {out : Text}
    (hworld : s.os.world.Playable) (hactive : IsPlayer s.activeEntity) (hawaits : s.Awaits out)
    {os : State} (hsame : SameGame s.os os) {chs : Text} {lines : List Text} {input : Input}
    (hcalls : Input.calls charCarriageReturn s.input chs = (lines, input)) :
    ∃ s' os', receiveAll onStore chs s = some s' ∧ s'.input = input ∧
      s'.activeEntity = nextEntity^[lines.length] s.activeEntity ∧
      handleLines (turns s.device s.activeEntity lines) os = some os' ∧ SameGame s'.os os' ∧
      s.os.world.Conserves s'.os.world ∧ s'.Awaits out := by
  induction chs generalizing s os lines with
  | nil =>
      obtain ⟨rfl, rfl⟩ := Prod.mk.inj hcalls
      exact ⟨s, os, rfl, rfl, rfl, rfl, hsame, .refl hworld.wellFormed, hawaits⟩
  | cons ch chs ih =>
      rw [receiveAll_cons]
      cases hreturned : (s.input.readChar charCarriageReturn ch).returned with
      | false =>
          rw [receive_goes_on hreturned]
          rw [calls_goes_on hreturned] at hcalls
          exact ih (s := { s with input := s.input.readChar charCarriageReturn ch }) hworld hactive
            hawaits hsame hcalls
      | true =>
          rw [calls_returns hreturned] at hcalls
          obtain ⟨rfl, rfl⟩ := Prod.mk.inj hcalls
          obtain ⟨os₁, os₂, hhandle, hconserves, hreceive, hsame₁, hworld₁, hawaits₁, -⟩ :=
            receive_onStore hworld hactive hawaits hreturned
          obtain ⟨os₃, hhandle', hhandled⟩ := hsame.handleInput _ _ _ _ os₁ hhandle
          obtain ⟨s', os', hall, hinput, hentity, hlines, hgame, hrest, hawaits'⟩ :=
            ih hworld₁ (isPlayer_nextEntity _) hawaits₁ (hsame₁.trans hhandled) rfl
          rw [← hsame₁.world] at hconserves
          refine ⟨s', os', ?_, hinput, hentity, ?_, hgame, hconserves.trans hrest, hawaits'⟩
          · rw [hreceive, Option.bind_some]
            exact hall
          · rw [turns, handleLines, hhandle']
            exact hlines

/-- The player is shown where he is before anything is read. -/
theorem run_start {σ : Type} (handle : Handler σ) (device : σ) {start : State}
    (hstart : start.world = .initial) (hnothing : start.output = []) :
    ∃ os', (∀ chs, run handle start device chs =
        receiveAll handle chs ⟨os', device, 1, .start Input.emptyBuffer⟩) ∧
      SameGame os' start ∧ os'.world.Playable ∧
      Awaits (cstr asciiArt ++ cstr hello)
        (⟨os', device, 1, .start Input.emptyBuffer⟩ : Session σ) ∧
      ∀ screen : Screen, (screen.receiveAll os'.output).line.Shows 0 (os'.prompt 1) [] := by
  have hplayable : ((start.uartSendCstr asciiArt).uartSendCstr hello).world.Playable := by
    change start.world.Playable
    rw [hstart]
    exact playable_initial
  have hsent : ((start.uartSendCstr asciiArt).uartSendCstr hello).output =
      cstr asciiArt ++ cstr hello := by
    change start.output ++ cstr asciiArt ++ cstr hello = _
    rw [hnothing, List.nil_append]
  obtain ⟨os', hawait, hsame, hshows⟩ := hplayable.await (.inl rfl) Input.emptyBuffer
  refine ⟨os', fun chs ↦ ?_, hsame.trans ⟨rfl, rfl, rfl, rfl⟩, hsame.world ▸ hplayable,
    ⟨_, Input.emptyBuffer, hsent ▸ List.prefix_rfl, hsame, hawait device⟩, fun screen ↦ ?_⟩
  · unfold run
    dsimp only
    rw [hawait]
    rfl
  · rw [State.prompt, hsame.world]
    exact hshows screen

/-- Whatever is received, `run` never sends a name that is null.  It has sent its
greeting and then, besides what the lines have sent, where the player is and the
prompt.  The lines that `input` returns are handled for `me` and `u` in turn, and
nothing is lost. -/
theorem plays (ps : Stream' Platform) (card : Word → Text) (chs : Text) :
    let start : State := ⟨.initial, [], card, [], false⟩
    let r := Input.calls charCarriageReturn (.start Input.emptyBuffer) chs
    ∃ s os, run onStore start ps chs = some s ∧ s.input = r.2 ∧
      s.activeEntity = nextEntity^[r.1.length] 1 ∧
      handleLines (turns ps 1 r.1) start = some os ∧ SameGame s.os os ∧
      World.initial.Conserves s.os.world ∧ s.Awaits (cstr asciiArt ++ cstr hello) := by
  dsimp only
  have hstart : (⟨.initial, [], card, [], false⟩ : State).world = .initial := rfl
  obtain ⟨os', hrun, hsame, hworld, hawaits, -⟩ := run_start onStore ps hstart rfl
  generalize hcalls : Input.calls charCarriageReturn (.start Input.emptyBuffer) chs = r
  obtain ⟨s, os, hall, hinput, hentity, hlines, hgame, hconserves, hawaits'⟩ := receiveAll_onStore
    (s := ⟨os', ps, 1, .start Input.emptyBuffer⟩) hworld (.inl rfl) hawaits hsame hcalls
  refine ⟨s, os, (hrun chs).trans hall, hinput, hentity, hlines, hgame, ?_, hawaits'⟩
  rw [hsame.world] at hconserves
  exact hconserves

end Session

end TangNano.Os
