import TangNano.Os.BoundedList
import TangNano.Os.Text

/-!
# The operating system

The world of the game, what goes to the platform, and `handle_input` with its
actions.
-/

namespace TangNano.Os

abbrev Id := BitVec 8

def locationMaxObjects : ℕ := 128

def locationMaxEntities : ℕ := 8

def locationMaxLinks : ℕ := 6

def entityMaxObjects : ℕ := 32

/-! ## The world -/

/-- The placeholder has no name. -/
structure Object where
  name : Option Text

structure Entity where
  name : Option Text
  location : Id
  objects : BoundedList Id entityMaxObjects

structure LocationLink where
  link : Id
  location : Id
deriving Inhabited

structure Location where
  links : BoundedList LocationLink locationMaxLinks
  objects : BoundedList Id locationMaxObjects
  entities : BoundedList Id locationMaxEntities

structure World where
  objects : ℕ → Object
  objectCount : ℕ
  entities : ℕ → Entity
  entityCount : ℕ
  locations : ℕ → Location
  locationCount : ℕ

/-- Ids past the end of an array stand for the placeholder. -/
def index (count : ℕ) (id : Id) : ℕ := if id.toNat ≥ count then 0 else id.toNat

namespace World

def objectById (w : World) (id : Id) : Object := w.objects (index w.objectCount id)

def entityById (w : World) (id : Id) : Entity := w.entities (index w.entityCount id)

def locationById (w : World) (id : Id) : Location := w.locations (index w.locationCount id)

def mapEntity (id : Id) (f : Entity → Entity) (w : World) : World :=
  let i := index w.entityCount id
  { w with entities := Function.update w.entities i (f (w.entities i)) }

def mapLocation (id : Id) (f : Location → Location) (w : World) : World :=
  let i := index w.locationCount id
  { w with locations := Function.update w.locations i (f (w.locations i)) }

end World

/-- The list that holds these elements. -/
def BoundedList.ofList {α : Type*} {size : ℕ} [Inhabited α] (l : List α) : BoundedList α size :=
  ⟨fun i ↦ l.getD i default, l.length⟩

/-- The world at the start. -/
def World.initial : World where
  objects := fun i ↦
    ⟨[none, some (cstr "notebook"), some (cstr "mirror"), some (cstr "lighter")].getD i none⟩
  objectCount := 4
  entities := fun i ↦
    match i with
    | 1 => ⟨some (cstr "me"), 1, .ofList [2]⟩
    | 2 => ⟨some (cstr "u"), 2, .ofList []⟩
    | _ => ⟨none, 0, .ofList []⟩
  entityCount := 3
  locations := fun i ↦
    match i with
    | 1 => ⟨.ofList [⟨1, 2⟩, ⟨2, 3⟩, ⟨4, 4⟩], .ofList [], .ofList [1]⟩
    | 2 => ⟨.ofList [⟨3, 1⟩], .ofList [1, 3], .ofList [2]⟩
    | 4 => ⟨.ofList [⟨2, 1⟩], .ofList [], .ofList []⟩
    | _ => ⟨.ofList [], .ofList [], .ofList []⟩
  locationCount := 5

/-! ## The platform -/

inductive Access
  | read (sector : Word)
  | write (sector : Word) (buf : Text)
deriving DecidableEq, Repr

/-- What a command finds of the platform: the text of the memory test and the value
that `SDCARD_STATUS` has when it is loaded. -/
structure Platform where
  memTest : Text
  sdcardStatus : Word

structure State where
  world : World
  /-- what the UART has sent -/
  output : Text
  /-- the sectors of the SD card -/
  card : Word → Text
  accesses : List Access
  exited : Bool

namespace State

def stringPrint (str : Text) (os : State) : State := { os with output := os.output ++ str }

def uartSendCstr (s : String) (os : State) : State := os.stringPrint (cstr s)

def sdcardReadBlocking (sector : Word) (os : State) : Text × State :=
  (os.card sector, { os with accesses := os.accesses ++ [.read sector] })

def sdcardWriteBlocking (sector : Word) (buf : Text) (os : State) : State :=
  { os with
    card := Function.update os.card sector buf
    accesses := os.accesses ++ [.write sector buf] }

def exit (os : State) : State := { os with exited := true }

/-- `none`: the name is null. -/
def sendName (name : Option Text) (os : State) : Option State :=
  name.map fun name ↦ os.stringPrint name

end State

/-- The names with commas between them, when `counter` of them have been sent. -/
def sendNames : ℕ → List (Option Text) → State → Option (ℕ × State)
  | counter, [], os => some (counter, os)
  | counter, name :: names, os => do
      let os ← (if counter ≠ 0 then os.uartSendCstr ", " else os).sendName name
      sendNames (counter + 1) names os

def hexNibble (nibble : Byte) : Byte := if nibble < 10 then 0x30 + nibble else 0x41 + (nibble - 10)

def hexByte (ch : Byte) : Text := [hexNibble (ch >>> 4), hexNibble (ch &&& 0x0f)]

def hexUint32 (i : Word) (separateHalfWords : Bool) : Text :=
  hexByte (Bytes.byte i 3) ++ hexByte (Bytes.byte i 2) ++
    (if separateHalfWords then [0x3a] else []) ++
    hexByte (Bytes.byte i 1) ++ hexByte (Bytes.byte i 0)

/-! ## Actions -/

/-- A text is a name; the placeholder, which has none, is in no list. -/
def isName (str : Text) : Option Text → Bool
  | none => false
  | some s => stringEqualsCstr str s

def actionMemTest (p : Platform) (os : State) : State := os.stringPrint p.memTest

def actionSdcardStatus (status : Word) (os : State) : State :=
  ((os.uartSendCstr "SDCARD_STATUS: 0x").stringPrint (hexUint32 status true)).uartSendCstr "\r\n"

def printHelp (os : State) : State :=
  ((((((((os.uartSendCstr "\r\ncommand:\r\n").uartSendCstr
    "  n: go north\r\n  e: go east\r\n  s: go south\r\n  w: go west\r\n").uartSendCstr
    "  i: display inventory\r\n").uartSendCstr
    "  t <object>: take object\r\n  d <object>: drop object\r\n").uartSendCstr
    "  g <object> <entity>: give object to entity\r\n").uartSendCstr
    "  sdr <sector>: read sector from SD card\r\n").uartSendCstr
    "  sdw <sector> <text>: write sector to SD card\r\n").uartSendCstr
    "  help: this message\r\n\r\n")

def actionInventory (eid : Id) (os : State) : Option State := do
  let names := (os.world.entityById eid).objects.toList.map fun id ↦ (os.world.objectById id).name
  let (counter, os) ← sendNames 0 names (os.uartSendCstr "u have: ")
  let os := if counter = 0 then os.uartSendCstr "nothing" else os
  some (os.uartSendCstr "\r\n")

def actionTake (eid : Id) (args : Text) (os : State) : State :=
  if args.isEmpty then os.uartSendCstr "take what\r\n\r\n"
  else
    let ent := os.world.entityById eid
    let lso := (os.world.locationById ent.location).objects
    let pos := lso.forEachUntilFalse fun id ↦ !isName args (os.world.objectById id).name
    if lso.isAtEnd pos then (os.stringPrint args).uartSendCstr " not here\r\n\r\n"
    else
      let world := os.world.mapEntity eid fun ent ↦
        { ent with objects := (ent.objects.add (lso.at' pos)).2 }
      if (ent.objects.add (lso.at' pos)).1 then
        { os with world := world.mapLocation ent.location fun loc ↦
            { loc with objects := (loc.objects.removeAt pos).2 } }
      else { os with world := world }

def actionDrop (eid : Id) (args : Text) (os : State) : State :=
  if args.length = 0 then os.uartSendCstr "drop what\r\n\r\n"
  else
    let ent := os.world.entityById eid
    let lso := ent.objects
    let pos := lso.forEachUntilFalse fun id ↦ !isName args (os.world.objectById id).name
    if lso.isAtEnd pos then
      ((os.uartSendCstr "u don't have ").stringPrint args).uartSendCstr "\r\n\r\n"
    else
      let world := os.world.mapLocation ent.location fun loc ↦
        { loc with objects := (loc.objects.add (lso.at' pos)).2 }
      if ((os.world.locationById ent.location).objects.add (lso.at' pos)).1 then
        { os with world := world.mapEntity eid fun ent ↦
            { ent with objects := (ent.objects.removeAt pos).2 } }
      else { os with world := world }

def actionGo (eid linkId : Id) (os : State) : State :=
  let ent := os.world.entityById eid
  let loc := os.world.locationById ent.location
  let lnkPos := loc.links.forEachUntilFalse fun lnk ↦ lnk.link ≠ linkId
  if loc.links.isAtEnd lnkPos then os.uartSendCstr "cannot go there\r\n\r\n"
  else
    let lnk := loc.links.at' lnkPos
    let world := os.world.mapLocation lnk.location fun loc ↦
      { loc with entities := (loc.entities.add eid).2 }
    if ((os.world.locationById lnk.location).entities.add eid).1 then
      let world := world.mapLocation ent.location fun loc ↦
        { loc with entities := (loc.entities.remove eid).2 }
      { os with world := world.mapEntity eid fun ent ↦ { ent with location := lnk.location } }
    else { os with world := world }

def actionGive (eid : Id) (args : Text) (os : State) : State :=
  let w1 := stringNextWord args
  let objNm := w1.word
  if objNm.isEmpty then os.uartSendCstr "give what\r\n\r\n"
  else
    let w2 := stringNextWord w1.rem
    let toEntNm := w2.word
    if toEntNm.isEmpty then os.uartSendCstr "give to whom\r\n\r\n"
    else
      let fromEntity := os.world.entityById eid
      let lse := (os.world.locationById fromEntity.location).entities
      let toPos := lse.forEachUntilFalse fun id ↦ !isName toEntNm (os.world.entityById id).name
      if lse.isAtEnd toPos then (os.stringPrint toEntNm).uartSendCstr " is not here\r\n\r\n"
      else
        let toEntity := os.world.entityById (lse.at' toPos)
        let objPos := fromEntity.objects.forEachUntilFalse fun id ↦
          !isName objNm (os.world.objectById id).name
        if fromEntity.objects.isAtEnd objPos then
          (os.stringPrint objNm).uartSendCstr " not in inventory\r\n\r\n"
        else
          let world := os.world.mapEntity (lse.at' toPos) fun ent ↦
            { ent with objects := (ent.objects.add (fromEntity.objects.at' objPos)).2 }
          if (toEntity.objects.add (fromEntity.objects.at' objPos)).1 then
            { os with world := world.mapEntity eid fun ent ↦
                { ent with objects := (ent.objects.removeAt objPos).2 } }
          else { os with world := world }

def actionSdcardRead (args : Text) (os : State) : State :=
  let w1 := stringNextWord args
  if w1.word.isEmpty then os.uartSendCstr "<sector>\r\n"
  else
    let (buf, os) := os.sdcardReadBlocking (stringToUint32 w1.word)
    (os.stringPrint buf).uartSendCstr "\r\n"

def sectorSize : ℕ := 512

/-- The text is followed by zeros. -/
def actionSdcardWrite (args : Text) (os : State) : State :=
  let w1 := stringNextWord args
  if w1.word.isEmpty then os.uartSendCstr "<sector> <text>\r\n"
  else if w1.rem.length > sectorSize then os.uartSendCstr "<text> exceeds sector size\r\n"
  else
    let buf := w1.rem ++ List.replicate (sectorSize - w1.rem.length) 0
    os.sdcardWriteBlocking (stringToUint32 w1.word) buf

/-- `none`: a name that is sent is null. -/
def handleInput (p : Platform) (eid : Id) (line : Text) (os : State) : Option State :=
  let w1 := stringNextWord line
  let cmd := w1.word
  let args := w1.rem
  if stringEqualsCstr cmd (cstr "help") then some (printHelp os)
  else if stringEqualsCstr cmd (cstr "i") then
    (actionInventory eid os).map fun os ↦ os.uartSendCstr "\r\n"
  else if stringEqualsCstr cmd (cstr "t") then some (actionTake eid args os)
  else if stringEqualsCstr cmd (cstr "d") then some (actionDrop eid args os)
  else if stringEqualsCstr cmd (cstr "n") then some (actionGo eid 1 os)
  else if stringEqualsCstr cmd (cstr "e") then some (actionGo eid 2 os)
  else if stringEqualsCstr cmd (cstr "s") then some (actionGo eid 3 os)
  else if stringEqualsCstr cmd (cstr "w") then some (actionGo eid 4 os)
  else if stringEqualsCstr cmd (cstr "g") then some (actionGive eid args os)
  else if stringEqualsCstr cmd (cstr "m") then some (actionMemTest p os)
  else if stringEqualsCstr cmd (cstr "sds") then some (actionSdcardStatus p.sdcardStatus os)
  else if stringEqualsCstr cmd (cstr "sdr") then some (actionSdcardRead args os)
  else if stringEqualsCstr cmd (cstr "sdw") then some (actionSdcardWrite args os)
  else if stringEqualsCstr cmd (cstr "q") then some os.exit
  else some (os.uartSendCstr "not understood\r\n\r\n")

end TangNano.Os
