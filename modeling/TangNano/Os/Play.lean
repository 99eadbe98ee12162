import TangNano.Os.Run

/-!
# What the player sees

A player presses keys and edits a line under a prompt.  The screen always shows
the prompt and the line, and the line that is handled is the one that is shown.
-/

namespace TangNano.Os

/-! ## The player -/

inductive Press
  | key (k : Key)
  | enter

def Press.chars : Press → Text
  | .key k => k.chars
  | .enter => [charCarriageReturn]

/-- No key is a carriage return. -/
theorem Key.chars_ne_return (k : Key) {ch : Byte} (h : k.chars = [ch]) :
    ch ≠ charCarriageReturn := by
  rintro rfl
  cases k with
  | printable ch hch =>
      obtain rfl : ch = charCarriageReturn := List.singleton_inj.mp h
      exact absurd hch (by decide)
  | backspace => exact absurd h (by decide)
  | arrowLeft => exact absurd h (by decide)
  | arrowRight => exact absurd h (by decide)
  | delete => exact absurd h (by decide)

/-- The lines that a player has finished and the one in front of him. -/
structure Player where
  lines : List Text
  line : LineEditor Byte

namespace Player

def start : Player := ⟨[], ⟨[], []⟩⟩

def finish (x : Player) : Player := ⟨x.lines ++ [x.line.left ++ x.line.right], ⟨[], []⟩⟩

def press (x : Player) : Press → Player
  | .key k =>
      match k.press x.line with
      | some line => { x with line }
      | none => x.finish
  | .enter => x.finish

def pressAll (presses : List Press) (x : Player) : Player := presses.foldl press x

end Player

/-! ## Sessions -/

theorem handleLines_turns (ps : Stream' Platform) (eid : Id) (lines : List Text) (line : Text)
    (os : State) :
    handleLines (turns ps eid (lines ++ [line])) os =
      (handleLines (turns ps eid lines) os).bind
        (handleInput (ps.get lines.length) (nextEntity^[lines.length] eid) line) := by
  induction lines generalizing ps eid os with
  | nil =>
      change (handleInput ps.head eid line os).bind some = handleInput ps.head eid line os
      exact Option.bind_fun_some _
  | cons first lines ih =>
      have hrest (os' : State) := ih ps.tail (nextEntity eid) os'
      change (handleInput ps.head eid first os).bind (fun os' ↦
          handleLines (turns ps.tail (nextEntity eid) (lines ++ [line])) os') =
        ((handleInput ps.head eid first os).bind (handleLines (turns ps.tail (nextEntity eid)
          lines))).bind _
      rw [Option.bind_assoc]
      exact congrArg _ (funext hrest)

theorem isPlayer_turn (n : ℕ) : IsPlayer (nextEntity^[n] 1) := by
  cases n with
  | zero => exact .inl rfl
  | succ n =>
      rw [Function.iterate_succ_apply']
      exact isPlayer_nextEntity _

namespace Session

section Reading

variable {chs : Text}

/-- Nothing is in the way of the line that is read. -/
theorem reads_on {s : Input} (h : (s.readChars charCarriageReturn chs).returned = false)
    (hrun : s.returned = false) :
    (∀ rest, Input.calls charCarriageReturn s (chs ++ rest) =
        Input.calls charCarriageReturn (s.readChars charCarriageReturn chs) rest) ∧
      ∀ {σ : Type} (handle : Handler σ) (os : State) (device : σ) (eid : Id),
        receiveAll handle chs ⟨os, device, eid, s⟩ =
          some ⟨os, device, eid, s.readChars charCarriageReturn chs⟩ := by
  induction chs generalizing s with
  | nil => exact ⟨fun _ ↦ rfl, fun _ _ _ _ ↦ rfl⟩
  | cons ch chs ih =>
      rw [Input.readChars_cons hrun] at h ⊢
      have hone : (s.readChar charCarriageReturn ch).returned = false := by
        by_contra hreturned
        rw [Bool.not_eq_false] at hreturned
        rw [Input.readChars_returned hreturned, hreturned] at h
        cases h
      obtain ⟨hcalls, hreceive⟩ := ih h hone
      refine ⟨fun rest ↦ ?_, fun handle os device eid ↦ ?_⟩
      · rw [List.cons_append, calls_goes_on hone]
        exact hcalls rest
      · have hgoes : receive handle ch ⟨os, device, eid, s⟩ = _ := receive_goes_on hone
        rw [receiveAll_cons, hgoes]
        exact hreceive handle os device eid

end Reading

/-- After `chs` the session is where the player is. -/
structure Follows (ps : Stream' Platform) (start : State) (chs : Text)
    (s : Session (Stream' Platform)) (x : Player) : Prop where
  playable : s.os.world.Playable
  awaits : s.Awaits (cstr asciiArt ++ cstr hello)
  active : s.activeEntity = nextEntity^[x.lines.length] 1
  device : s.device = ps.drop x.lines.length
  game : ∃ os, handleLines (turns ps 1 x.lines) start = some os ∧ SameGame s.os os
  calls : ∀ rest, (Input.calls charCarriageReturn (.start Input.emptyBuffer) (chs ++ rest)).1 =
    x.lines ++ (Input.calls charCarriageReturn s.input rest).1
  edits : ∀ screen : Screen,
    s.input.Edits 0 (s.os.prompt s.activeEntity) (screen.receiveAll s.os.output).line x.line

section Presses

variable {ps : Stream' Platform} {start : State} {chs : Text} {s : Session (Stream' Platform)}
  {x : Player}

theorem Follows.finish (h : Follows ps start chs s x) {ch : Byte}
    (hreturned : (s.input.readChar charCarriageReturn ch).returned = true)
    (hspan : (s.input.readChar charCarriageReturn ch).cmdBuf.span = x.line.left ++ x.line.right) :
    ∃ s', receiveAll onStore [ch] s = some s' ∧ Follows ps start (chs ++ [ch]) s' x.finish := by
  have hactive : IsPlayer s.activeEntity := h.active ▸ isPlayer_turn x.lines.length
  obtain ⟨os, hlines, hgame⟩ := h.game
  obtain ⟨os₁, os₂, hhandle, -, hreceive, hsame, hplayable, hawaits, hshows⟩ :=
    receive_onStore h.playable hactive h.awaits hreturned
  obtain ⟨os', hhandle', hhandled⟩ := hgame.handleInput _ _ _ _ os₁ hhandle
  have hhead : s.device.head = ps.get x.lines.length := by
    rw [h.device]
    exact Stream'.head_drop ps _
  refine ⟨_, by rw [receiveAll_cons, hreceive]; rfl, hplayable, hawaits, ?_, ?_,
    ⟨os', ?_, hsame.trans hhandled⟩, fun rest ↦ ?_,
    fun screen ↦ Input.edits_start _ (hshows screen)⟩
  · dsimp only [Player.finish]
    rw [List.length_append, List.length_singleton, Function.iterate_succ_apply', h.active]
  · dsimp only [Player.finish]
    rw [List.length_append, List.length_singleton, h.device]
    exact Stream'.tail_drop'
  · dsimp only [Player.finish]
    rw [handleLines_turns, hlines, Option.bind_some, ← h.active, ← hhead, ← hspan]
    exact hhandle'
  · dsimp only [Player.finish]
    rw [List.append_assoc, h.calls, List.singleton_append, calls_cons hreceive, hreturned,
      if_pos rfl, hspan, List.append_assoc]

theorem Follows.press (h : Follows ps start chs s x) (press : Press) :
    ∃ s', receiveAll onStore press.chars s = some s' ∧
      Follows ps start (chs ++ press.chars) s' (x.press press) := by
  have hedits := h.edits
  cases press with
  | enter =>
      have hescape : charCarriageReturn ≠ 0x1b := by decide
      obtain ⟨hreturned, hspan⟩ := (hedits .empty).returns hescape (by decide) (.inl rfl)
      exact h.finish hreturned hspan
  | key k =>
      unfold Player.press
      dsimp only
      cases hreturned : (s.input.readChars charCarriageReturn k.chars).returned with
      | true =>
          obtain ⟨ch, hchars, hend, hone, hspan⟩ := (hedits .empty).key_returned hreturned
          have hnone : k.press x.line = none := hend.resolve_left (k.chars_ne_return hchars)
          rw [Press.chars, hchars, hnone]
          exact h.finish hone hspan
      | false =>
          obtain ⟨line, hpress, -⟩ := (hedits .empty).key hreturned
          obtain ⟨hcalls, hreceive⟩ := reads_on hreturned (hedits .empty).running
          rw [hpress]
          refine ⟨_, hreceive onStore s.os s.device s.activeEntity, h.playable, h.awaits, h.active,
            h.device, h.game, fun rest ↦ ?_, fun screen ↦ ?_⟩
          · rw [List.append_assoc, h.calls]
            exact congrArg (fun r ↦ x.lines ++ r.1) (hcalls rest)
          · obtain ⟨line', hpress', hnext⟩ := (hedits screen).key hreturned
            obtain rfl := Option.some.inj (hpress.symm.trans hpress')
            exact hnext

theorem receiveAll_append {σ : Type} (handle : Handler σ) (chs chs' : Text) (s : Session σ) :
    receiveAll handle (chs ++ chs') s =
      (receiveAll handle chs s).bind (receiveAll handle chs') := by
  induction chs generalizing s with
  | nil => rfl
  | cons ch chs ih =>
      rw [List.cons_append, receiveAll_cons, receiveAll_cons, Option.bind_assoc]
      exact congrArg _ (funext ih)

theorem Follows.pressAll (h : Follows ps start chs s x) (presses : List Press) :
    ∃ s', receiveAll onStore (presses.flatMap Press.chars) s = some s' ∧
      Follows ps start (chs ++ presses.flatMap Press.chars) s' (x.pressAll presses) := by
  induction presses generalizing chs s x with
  | nil =>
      refine ⟨s, rfl, ?_⟩
      rw [List.flatMap_nil, List.append_nil]
      exact h
  | cons press presses ih =>
      obtain ⟨s₁, hreceive, hs₁⟩ := h.press press
      obtain ⟨s₂, hrest, hs₂⟩ := ih hs₁
      refine ⟨s₂, ?_, ?_⟩
      · rw [List.flatMap_cons, receiveAll_append, hreceive]
        exact hrest
      · rw [List.flatMap_cons, ← List.append_assoc]
        exact hs₂

end Presses

/-- After each key the line of the cursor is the prompt and the line that the player is
editing.  The lines that he has finished are those that `input` has returned, and they
have been handled, for `me` and `u` in turn. -/
theorem shows_player (ps : Stream' Platform) (card : Word → Text) (presses : List Press)
    (screen : Screen) :
    let start : State := ⟨.initial, [], card, [], false⟩
    let chs := presses.flatMap Press.chars
    let x := Player.start.pressAll presses
    ∃ s os, run onStore start ps chs = some s ∧
      (Input.calls charCarriageReturn (.start Input.emptyBuffer) chs).1 = x.lines ∧
      s.activeEntity = nextEntity^[x.lines.length] 1 ∧
      handleLines (turns ps 1 x.lines) start = some os ∧ SameGame s.os os ∧
      (screen.receiveAll s.output).line.Shows 0 (s.os.prompt s.activeEntity ++ x.line.left)
        x.line.right := by
  dsimp only
  have hstart : (⟨.initial, [], card, [], false⟩ : State).world = .initial := rfl
  obtain ⟨os', hrun, hsame, hworld, hawaits, hshows⟩ := run_start onStore ps hstart rfl
  have hfollows : Follows ps ⟨.initial, [], card, [], false⟩ []
      ⟨os', ps, 1, .start Input.emptyBuffer⟩ .start :=
    ⟨hworld, hawaits, rfl, rfl, ⟨_, rfl, hsame⟩, fun _ ↦ rfl,
      fun screen ↦ Input.edits_start _ (hshows screen)⟩
  obtain ⟨s, hall, hs⟩ := hfollows.pressAll presses
  obtain ⟨os, hlines, hgame⟩ := hs.game
  have hcalls := hs.calls []
  have hedits := hs.edits screen
  rw [List.nil_append, List.append_nil] at hcalls
  refine ⟨s, os, (hrun _).trans hall, ?_, hs.active, hlines, hgame, ?_⟩
  · rw [hcalls]
    exact List.append_nil _
  · rw [output, Screen.receiveAll_append, Screen.receiveAll_line hedits.plain]
    exact hedits.shows

end Session

end TangNano.Os
