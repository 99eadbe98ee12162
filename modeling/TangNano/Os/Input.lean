import TangNano.Library.Screen
import TangNano.Os.LineEditor

/-!
# Editing the command

`input` reads keys, edits the command buffer and echoes what changes.  The
terminal always shows the buffer.
-/

namespace TangNano.Os

open CursorBuffer

/-- `input_state` -/
inductive InputState
  | normal
  | escape
  | escapeBracket
deriving DecidableEq, Repr

/-- The local variables of `input` and what it has sent. -/
structure Input where
  state : InputState
  escapeSequenceParameter : Word
  cmdBuf : CursorBuffer commandBufferSize
  output : Text
  returned : Bool

def charBackspace : Byte := 0x7f

namespace Input

/-- `input` is called with a buffer. -/
def start (cmdBuf : CursorBuffer commandBufferSize) : Input :=
  ⟨.normal, 0, cmdBuf.reset, [], false⟩

def uartSendChar (ch : Byte) (s : Input) : Input := { s with output := s.output ++ [ch] }

def uartSendCstr (str : Text) (s : Input) : Input := { s with output := s.output ++ str }

def uartSendMoveBack (n : ℕ) (s : Input) : Input :=
  { s with output := s.output ++ List.replicate n 0x08 }

/-- The elements from the cursor on are sent. -/
def sendElements (s : Input) : Input :=
  { s with output := s.output ++ s.cmdBuf.elementsFromCursorToEnd }

/-- The rest of the line is sent again with a space in place of what has gone. -/
def sendElementsAndSpace (s : Input) : Input :=
  let s := uartSendChar space (sendElements s)
  uartSendMoveBack (s.cmdBuf.elementsAfterCursorCount + 1) s

/-- One pass of the loop; the platforms differ in the character for a carriage
return. -/
def readChar (charCarriageReturn ch : Byte) (s : Input) : Input :=
  match s.state with
  | .normal =>
      if ch = 0x1b then { s with state := .escape }
      else if ch = charBackspace then
        let b := s.cmdBuf.backspace
        if b.1 then sendElementsAndSpace (uartSendChar ch { s with cmdBuf := b.2 }) else s
      else if ch = charCarriageReturn ∨ s.cmdBuf.isFull then
        { s with cmdBuf := s.cmdBuf.setTerminator, returned := true }
      else
        let s := sendElements { uartSendChar ch s with cmdBuf := (s.cmdBuf.insert ch).2 }
        uartSendMoveBack s.cmdBuf.elementsAfterCursorCount s
  | .escape => { s with state := if ch = 0x5b then .escapeBracket else .normal }
  | .escapeBracket =>
      if 0x30 ≤ ch ∧ ch ≤ 0x39 then
        { s with
          escapeSequenceParameter := s.escapeSequenceParameter * 10 + (ch - 0x30).setWidth 32 }
      else
        let s' :=
          if ch = 0x44 then
            let b := s.cmdBuf.moveCursorLeft
            if b.1 then uartSendCstr [0x1b, 0x5b, 0x44] { s with cmdBuf := b.2 } else s
          else if ch = 0x43 then
            let b := s.cmdBuf.moveCursorRight
            if b.1 then uartSendCstr [0x1b, 0x5b, 0x43] { s with cmdBuf := b.2 } else s
          else if ch = 0x7e then
            if s.escapeSequenceParameter = 3 then
              sendElementsAndSpace { s with cmdBuf := s.cmdBuf.del }
            else s
          else s
        { s' with state := .normal, escapeSequenceParameter := 0 }

/-- Characters are read until `input` returns. -/
def readChars (charCarriageReturn : Byte) (chs : Text) (s : Input) : Input :=
  chs.foldl (fun s ch ↦ if s.returned then s else readChar charCarriageReturn ch s) s

end Input

/-! ## Keys -/

inductive Key
  | printable (ch : Byte) (h : Terminal.Printable ch)
  | backspace
  | arrowLeft
  | arrowRight
  | delete

def Key.chars : Key → Text
  | .printable ch _ => [ch]
  | .backspace => [charBackspace]
  | .arrowLeft => [0x1b, 0x5b, 0x44]
  | .arrowRight => [0x1b, 0x5b, 0x43]
  | .delete => [0x1b, 0x5b, 0x33, 0x7e]

/-- What a key does to the line; `none` ends it. -/
def Key.press (e : LineEditor Byte) : Key → Option (LineEditor Byte)
  | .printable ch _ =>
      if e.left.length + e.right.length = commandBufferSize - 1 then none
      else some ⟨e.left ++ [ch], e.right⟩
  | .backspace => some (e.step commandBufferSize .backspace).2
  | .arrowLeft => some (e.step commandBufferSize .moveCursorLeft).2
  | .arrowRight => some (e.step commandBufferSize .moveCursorRight).2
  | .delete => some (e.step commandBufferSize .del).2

/-- The characters of a sequence of keys. -/
def keyChars (keys : List Key) : Text := keys.flatMap Key.chars

/-! ## The screen -/

namespace Input

variable {charCarriageReturn : Byte} {prompt : ℕ} {t : Terminal} {s : Input}

/-- Between two keys the terminal shows the line, after the text before it and from the
column of the prompt on. -/
structure Edits (prompt : ℕ) (before : Text) (t : Terminal) (e : LineEditor Byte) (s : Input) :
    Prop where
  state : s.state = .normal
  parameter : s.escapeSequenceParameter = 0
  running : s.returned = false
  printable : ∀ ch ∈ e.left ++ e.right, Terminal.Printable ch
  holds : s.cmdBuf.Holds e.left e.right
  plain : ∀ ch ∈ s.output, ch ∉ Screen.newLine
  shows : (t.receiveAll s.output).Shows prompt (before ++ e.left) e.right

theorem readChars_cons (hrun : s.returned = false) (ch : Byte) (chs : Text) :
    readChars charCarriageReturn (ch :: chs) s =
      readChars charCarriageReturn chs (readChar charCarriageReturn ch s) := by
  rw [readChars, List.foldl_cons, hrun]
  rfl

theorem readChars_returned (hrun : s.returned = true) (chs : Text) :
    readChars charCarriageReturn chs s = s := by
  induction chs with
  | nil => rfl
  | cons ch chs ih =>
      rw [readChars, List.foldl_cons, hrun]
      exact ih

theorem readChars_append (chs chs' : Text) (s : Input) :
    readChars charCarriageReturn (chs ++ chs') s =
      readChars charCarriageReturn chs' (readChars charCarriageReturn chs s) := List.foldl_append

variable {before left right : Text} {e : LineEditor Byte} {ch : Byte}

theorem sendElementsAndSpace_output (h : s.cmdBuf.Holds left right) :
    (sendElementsAndSpace s).output =
      s.output ++ (right ++ [space] ++ List.replicate (right.length + 1) 0x08) := by
  simp only [sendElementsAndSpace, uartSendChar, sendElements, uartSendMoveBack, h.after, h.count,
    List.append_assoc]

theorem back_not_newLine : (0x08 : Byte) ∉ Screen.newLine := by decide

theorem plain_append {chs chs' : Text} (h : ∀ ch ∈ chs, ch ∉ Screen.newLine)
    (h' : ∀ ch ∈ chs', ch ∉ Screen.newLine) : ∀ ch ∈ chs ++ chs', ch ∉ Screen.newLine := by
  intro ch hch
  rcases List.mem_append.mp hch with hmem | hmem
  · exact h ch hmem
  · exact h' ch hmem

theorem plain_backs (n : ℕ) : ∀ ch ∈ List.replicate n (0x08 : Byte), ch ∉ Screen.newLine := by
  intro ch hch
  rw [List.eq_of_mem_replicate hch]
  exact back_not_newLine

theorem plain_of_printable {chs : Text} (h : ∀ ch ∈ chs, Terminal.Printable ch) :
    ∀ ch ∈ chs, ch ∉ Screen.newLine := fun ch hch ↦ Screen.not_mem_newLine (h ch hch)

/-- The rest of the line is sent again after a character of it has gone. -/
theorem edits_sendElementsAndSpace {old : Text} (hstate : s.state = .normal)
    (hparameter : s.escapeSequenceParameter = 0) (hrunning : s.returned = false)
    (hprintable : ∀ ch ∈ left ++ right, Terminal.Printable ch) (hholds : s.cmdBuf.Holds left right)
    (hplain : ∀ ch ∈ s.output, ch ∉ Screen.newLine) (hlength : old.length ≤ right.length + 1)
    (hshows : (t.receiveAll s.output).Shows prompt (before ++ left) old) :
    (sendElementsAndSpace s).Edits prompt before t ⟨left, right⟩ where
  state := hstate
  parameter := hparameter
  running := hrunning
  printable := hprintable
  holds := hholds
  plain := by
    have hright : ∀ ch ∈ right, Terminal.Printable ch :=
      fun ch hch ↦ hprintable ch (List.mem_append_right _ hch)
    have hspace : ∀ ch ∈ [space], ch ∉ Screen.newLine := by decide
    rw [sendElementsAndSpace_output hholds]
    exact plain_append hplain
      (plain_append (plain_append (plain_of_printable hright) hspace) (plain_backs _))
  shows := by
    rw [sendElementsAndSpace_output hholds, Terminal.receiveAll_append]
    exact hshows.reprint (fun ch hch ↦ hprintable ch (List.mem_append_right _ hch)) hlength

/-! ## One key -/

theorem readChar_printable (hstate : s.state = .normal) {ch : Byte} (hch : Terminal.Printable ch) :
    readChar charCarriageReturn ch s =
      if ch = charCarriageReturn ∨ s.cmdBuf.isFull then
        { s with cmdBuf := s.cmdBuf.setTerminator, returned := true }
      else
        { s with
          cmdBuf := (s.cmdBuf.insert ch).2
          output := s.output ++ [ch] ++ (s.cmdBuf.insert ch).2.elementsFromCursorToEnd ++
            List.replicate (s.cmdBuf.insert ch).2.elementsAfterCursorCount 0x08 } := by
  obtain ⟨hescape, -, hbackspace⟩ := hch.not_control
  have hne : ch ≠ charBackspace := hbackspace
  rw [readChar, hstate]
  dsimp only
  rw [if_neg hescape, if_neg hne]
  split
  · rfl
  · rw [← hstate]
    rfl

theorem readChar_backspace (hstate : s.state = .normal) :
    readChar charCarriageReturn charBackspace s =
      if s.cmdBuf.backspace.1 then
        sendElementsAndSpace (uartSendChar charBackspace { s with cmdBuf := s.cmdBuf.backspace.2 })
      else s := by
  rw [readChar, hstate]
  dsimp only
  rw [if_neg (by decide), if_pos rfl, ← hstate]

/-- An escape sequence begins. -/
theorem readChars_bracket (hstate : s.state = .normal) (hrun : s.returned = false) (chs : Text) :
    readChars charCarriageReturn (0x1b :: 0x5b :: chs) s =
      readChars charCarriageReturn chs { s with state := .escapeBracket } := by
  have hescape : readChar charCarriageReturn 0x1b s = { s with state := .escape } := by
    rw [readChar, hstate]
    rfl
  rw [readChars_cons hrun, hescape]
  have hrun' : ({ s with state := .escape } : Input).returned = false := hrun
  exact readChars_cons hrun' 0x5b chs

theorem Edits.isFull_iff (h : s.Edits prompt before t e) :
    s.cmdBuf.isFull = true ↔ e.left.length + e.right.length = commandBufferSize - 1 :=
  h.holds.isFull

/-- A character ends the line if it is a carriage return or there is no place left. -/
theorem Edits.returns (h : s.Edits prompt before t e) (hescape : ch ≠ 0x1b)
    (hbackspace : ch ≠ charBackspace) (hend : ch = charCarriageReturn ∨ s.cmdBuf.isFull = true) :
    (readChar charCarriageReturn ch s).returned = true ∧
      (readChar charCarriageReturn ch s).cmdBuf.span = e.left ++ e.right := by
  have hread : readChar charCarriageReturn ch s =
      { s with cmdBuf := s.cmdBuf.setTerminator, returned := true } := by
    rw [readChar, h.state]
    dsimp only
    rw [if_neg hescape, if_neg hbackspace, if_pos hend, ← h.state]
  rw [hread]
  exact ⟨rfl, h.holds.setTerminator.span⟩

theorem Edits.printable_key (h : s.Edits prompt before t e) (hch : Terminal.Printable ch)
    (hne : ch ≠ charCarriageReturn) (hfull : s.cmdBuf.isFull = false) :
    (readChar charCarriageReturn ch s).Edits prompt before t ⟨e.left ++ [ch], e.right⟩ := by
  have hcontinue : ¬ (ch = charCarriageReturn ∨ s.cmdBuf.isFull = true) := by
    rw [hfull]
    simp [hne]
  have hinsert := h.holds.insert hfull ch
  have hright : ∀ c ∈ e.right, Terminal.Printable c :=
    fun c hc ↦ h.printable c (List.mem_append_right _ hc)
  have hone : ∀ c ∈ [ch], Terminal.Printable c := fun c hc ↦ List.mem_singleton.mp hc ▸ hch
  rw [readChar_printable h.state hch, if_neg hcontinue, hinsert.after, hinsert.count]
  refine ⟨h.state, h.parameter, h.running, ?_, hinsert, ?_, ?_⟩
  · intro c hc
    simp only [List.mem_append, List.mem_singleton] at hc
    rcases hc with (hc | rfl) | hc
    · exact h.printable c (List.mem_append_left _ hc)
    · exact hch
    · exact hright c hc
  · exact plain_append (plain_append (plain_append h.plain (plain_of_printable hone))
      (plain_of_printable hright)) (plain_backs _)
  · have hshows := ((h.shows.printOne hch).print hright).backs e.right
    rw [List.drop_eq_nil_of_le (by simp), List.append_nil] at hshows
    simpa only [Terminal.receiveAll_append, Terminal.receiveAll_cons, Terminal.receiveAll_nil,
      List.append_assoc] using hshows

theorem Edits.backspace_key (h : s.Edits prompt before t e) :
    (readChar charCarriageReturn charBackspace s).Edits prompt before t
      (e.step commandBufferSize .backspace).2 := by
  obtain ⟨left, right⟩ := e
  rw [readChar_backspace h.state]
  rcases List.eq_nil_or_concat' left with rfl | ⟨init, ch, rfl⟩
  · rw [h.holds.backspace_none]
    exact h
  · obtain ⟨htrue, hholds⟩ := h.holds.backspace
    rw [if_pos htrue, LineEditor.step_backspace]
    have hprintable : ∀ c ∈ init ++ right, Terminal.Printable c := by
      intro c hc
      refine h.printable c ?_
      rcases List.mem_append.mp hc with hinit | hright
      · exact List.mem_append_left _ (List.mem_append_left _ hinit)
      · exact List.mem_append_right _ hright
    have hrubout : (t.receiveAll (s.output ++ [charBackspace])).Shows prompt (before ++ init)
        (Terminal.blank :: right) := by
      have hshows := h.shows
      dsimp only at hshows
      rw [← List.append_assoc] at hshows
      rw [Terminal.receiveAll_append]
      exact hshows.rubout
    have hplain : ∀ ch ∈ [charBackspace], ch ∉ Screen.newLine := by decide
    exact edits_sendElementsAndSpace h.state h.parameter h.running hprintable hholds
      (plain_append h.plain hplain) le_rfl hrubout

theorem Edits.eq_mk (h : s.Edits prompt before t e) :
    s = ⟨.normal, 0, s.cmdBuf, s.output, false⟩ := by
  rw [← h.state, ← h.parameter, ← h.running]

theorem Edits.readChars_sequence (h : s.Edits prompt before t e) (chs : Text) :
    readChars charCarriageReturn (0x1b :: 0x5b :: chs) s =
      readChars charCarriageReturn chs ⟨.escapeBracket, 0, s.cmdBuf, s.output, false⟩ := by
  rw [readChars_bracket h.state h.running, ← h.parameter, ← h.running]

/-- An escape sequence moves the cursor. -/
theorem Edits.moved (h : s.Edits prompt before t e) {left right chs : Text}
    (hprintable : ∀ ch ∈ left ++ right, Terminal.Printable ch)
    {cmdBuf : CursorBuffer commandBufferSize} (hholds : cmdBuf.Holds left right)
    (hplain : ∀ ch ∈ chs, ch ∉ Screen.newLine)
    (hshows : ((t.receiveAll s.output).receiveAll chs).Shows prompt (before ++ left) right) :
    (uartSendCstr chs { s with cmdBuf := cmdBuf }).Edits prompt before t ⟨left, right⟩ := by
  refine ⟨h.state, h.parameter, h.running, hprintable, hholds, plain_append h.plain hplain, ?_⟩
  rw [uartSendCstr, Terminal.receiveAll_append]
  exact hshows

theorem Edits.arrowLeft_key (h : s.Edits prompt before t e) :
    (readChars charCarriageReturn Key.arrowLeft.chars s).Edits prompt before t
      (e.step commandBufferSize .moveCursorLeft).2 := by
  have hread : readChars charCarriageReturn Key.arrowLeft.chars s =
      if s.cmdBuf.moveCursorLeft.1 then
        uartSendCstr [0x1b, 0x5b, 0x44] { s with cmdBuf := s.cmdBuf.moveCursorLeft.2 }
      else s := by
    rw [Key.chars, h.readChars_sequence]
    cases hmoved : s.cmdBuf.moveCursorLeft.1
    · simpa [readChars, readChar, hmoved] using h.eq_mk.symm
    · simp [readChars, readChar, hmoved, uartSendCstr, h.state, h.parameter, h.running]
  rw [hread]
  obtain ⟨left, right⟩ := e
  rcases List.eq_nil_or_concat' left with rfl | ⟨init, ch, rfl⟩
  · rw [h.holds.moveCursorLeft_none]
    exact h
  · obtain ⟨htrue, hholds⟩ := h.holds.moveCursorLeft
    rw [if_pos htrue, LineEditor.step_moveCursorLeft]
    have hshows := h.shows
    dsimp only at hshows
    rw [← List.append_assoc] at hshows
    refine h.moved ?_ hholds (by decide) hshows.arrowLeft
    intro c hc
    exact h.printable c (by rwa [List.append_assoc, List.singleton_append])

theorem Edits.arrowRight_key (h : s.Edits prompt before t e) :
    (readChars charCarriageReturn Key.arrowRight.chars s).Edits prompt before t
      (e.step commandBufferSize .moveCursorRight).2 := by
  have hread : readChars charCarriageReturn Key.arrowRight.chars s =
      if s.cmdBuf.moveCursorRight.1 then
        uartSendCstr [0x1b, 0x5b, 0x43] { s with cmdBuf := s.cmdBuf.moveCursorRight.2 }
      else s := by
    rw [Key.chars, h.readChars_sequence]
    cases hmoved : s.cmdBuf.moveCursorRight.1
    · simpa [readChars, readChar, hmoved] using h.eq_mk.symm
    · simp [readChars, readChar, hmoved, uartSendCstr, h.state, h.parameter, h.running]
  rw [hread]
  obtain ⟨left, right⟩ := e
  cases right with
  | nil =>
      rw [h.holds.moveCursorRight_none]
      exact h
  | cons ch right =>
      obtain ⟨htrue, hholds⟩ := h.holds.moveCursorRight
      rw [if_pos htrue]
      have hshows := h.shows.arrowRight
      rw [List.append_assoc] at hshows
      refine h.moved ?_ hholds (by decide) hshows
      intro c hc
      exact h.printable c (by rwa [List.append_assoc, List.singleton_append] at hc)

theorem Edits.delete_key (h : s.Edits prompt before t e) :
    (readChars charCarriageReturn Key.delete.chars s).Edits prompt before t
      (e.step commandBufferSize .del).2 := by
  have hread : readChars charCarriageReturn Key.delete.chars s =
      sendElementsAndSpace { s with cmdBuf := s.cmdBuf.del } := by
    rw [Key.chars, h.readChars_sequence, h.eq_mk]
    rfl
  rw [hread]
  obtain ⟨left, right⟩ := e
  have hprintable : ∀ c ∈ left ++ right.tail, Terminal.Printable c := by
    intro c hc
    refine h.printable c ?_
    rcases List.mem_append.mp hc with hleft | hright
    · exact List.mem_append_left _ hleft
    · exact List.mem_append_right _ (List.mem_of_mem_tail hright)
  have hholds : s.cmdBuf.del.Holds left right.tail := by
    cases right with
    | nil =>
        rw [h.holds.del_none]
        exact h.holds
    | cons ch right => exact h.holds.del
  have hlength : right.length ≤ right.tail.length + 1 := by
    rw [List.length_tail]
    omega
  exact edits_sendElementsAndSpace h.state h.parameter h.running hprintable hholds h.plain hlength
    h.shows

theorem Edits.key (h : s.Edits prompt before t e) {k : Key}
    (hrun : (readChars charCarriageReturn k.chars s).returned = false) :
    ∃ e', k.press e = some e' ∧
      (readChars charCarriageReturn k.chars s).Edits prompt before t e' := by
  cases k with
  | printable ch hch =>
      have hone : readChars charCarriageReturn (Key.printable ch hch).chars s =
          readChar charCarriageReturn ch s := readChars_cons h.running ch []
      rw [hone] at hrun ⊢
      obtain ⟨hescape, -, hbackspace⟩ := hch.not_control
      have hgoes : ¬ (ch = charCarriageReturn ∨ s.cmdBuf.isFull = true) := by
        intro hend
        rw [(h.returns hescape hbackspace hend).1] at hrun
        cases hrun
      obtain ⟨hne, hfull⟩ := not_or.mp hgoes
      refine ⟨_, if_neg (h.isFull_iff.not.mp hfull), ?_⟩
      exact h.printable_key hch hne (Bool.eq_false_iff.mpr hfull)
  | backspace =>
      have hone : readChars charCarriageReturn Key.backspace.chars s =
          readChar charCarriageReturn charBackspace s := readChars_cons h.running charBackspace []
      rw [hone]
      exact ⟨_, rfl, h.backspace_key⟩
  | arrowLeft => exact ⟨_, rfl, h.arrowLeft_key⟩
  | arrowRight => exact ⟨_, rfl, h.arrowRight_key⟩
  | delete => exact ⟨_, rfl, h.delete_key⟩

/-- Only a character for which there is no place, or that is a carriage return, ends the line. -/
theorem Edits.key_returned (h : s.Edits prompt before t e) {k : Key}
    (hreturned : (readChars charCarriageReturn k.chars s).returned = true) :
    ∃ ch, k.chars = [ch] ∧ (ch = charCarriageReturn ∨ k.press e = none) ∧
      (readChar charCarriageReturn ch s).returned = true ∧
      (readChar charCarriageReturn ch s).cmdBuf.span = e.left ++ e.right := by
  cases k with
  | printable ch hch =>
      have hone : readChars charCarriageReturn (Key.printable ch hch).chars s =
          readChar charCarriageReturn ch s := readChars_cons h.running ch []
      rw [hone] at hreturned
      obtain ⟨hescape, -, hbackspace⟩ := hch.not_control
      have hend : ch = charCarriageReturn ∨ s.cmdBuf.isFull = true := by
        by_contra hgoes
        obtain ⟨hne, hfull⟩ := not_or.mp hgoes
        have hrunning := (h.printable_key hch hne (Bool.eq_false_iff.mpr hfull)).running
        exact Bool.false_ne_true (hrunning.symm.trans hreturned)
      exact ⟨ch, rfl, hend.imp_right fun hfull ↦ if_pos (h.isFull_iff.mp hfull),
        h.returns hescape hbackspace hend⟩
  | backspace =>
      have hone : readChars charCarriageReturn Key.backspace.chars s =
          readChar charCarriageReturn charBackspace s := readChars_cons h.running charBackspace []
      rw [hone] at hreturned
      exact absurd (h.backspace_key.running.symm.trans hreturned) Bool.false_ne_true
  | arrowLeft => exact absurd (h.arrowLeft_key.running.symm.trans hreturned) Bool.false_ne_true
  | arrowRight => exact absurd (h.arrowRight_key.running.symm.trans hreturned) Bool.false_ne_true
  | delete => exact absurd (h.delete_key.running.symm.trans hreturned) Bool.false_ne_true

/-! ## A session -/

theorem edits_start (cmdBuf : CursorBuffer commandBufferSize) (h : t.Shows prompt before []) :
    (start cmdBuf).Edits prompt before t ⟨[], []⟩ where
  state := rfl
  parameter := rfl
  running := rfl
  printable := List.forall_mem_nil _
  holds := CursorBuffer.holds_reset cmdBuf
  plain := List.forall_mem_nil _
  shows := by
    rw [List.append_nil]
    exact h

theorem Edits.keys (h : s.Edits prompt before t e) (keys : List Key)
    (hrun : (readChars charCarriageReturn (keyChars keys) s).returned = false) :
    ∃ e', (readChars charCarriageReturn (keyChars keys) s).Edits prompt before t e' := by
  induction keys generalizing s e with
  | nil => exact ⟨e, h⟩
  | cons key keys ih =>
      have hcons : keyChars (key :: keys) = key.chars ++ keyChars keys := rfl
      rw [hcons, readChars_append] at hrun ⊢
      have hkey : (readChars charCarriageReturn key.chars s).returned = false := by
        by_contra hreturned
        rw [Bool.not_eq_false] at hreturned
        rw [readChars_returned hreturned, hreturned] at hrun
        exact Bool.noConfusion hrun
      obtain ⟨e', -, hnext⟩ := h.key hkey
      exact ih hnext hrun

/-- After each key the cells from the prompt on are the buffer and blanks, and the
cursor is where that of the buffer is. -/
theorem terminal_shows_buffer (charCarriageReturn : Byte)
    (cmdBuf : CursorBuffer commandBufferSize) (hprompt : t.Shows prompt [] []) (keys : List Key)
    (hrun : (readChars charCarriageReturn (keyChars keys) (start cmdBuf)).returned = false) :
    let s := readChars charCarriageReturn (keyChars keys) (start cmdBuf)
    (∀ k, (t.receiveAll s.output).cells (prompt + k) = s.cmdBuf.span.getD k Terminal.blank) ∧
      (t.receiveAll s.output).cursor = prompt + s.cmdBuf.cursor := by
  obtain ⟨e, h⟩ := (edits_start cmdBuf hprompt).keys keys hrun
  have hshows := h.shows
  rw [List.nil_append] at hshows
  refine ⟨fun k ↦ ?_, ?_⟩
  · rw [hshows.cells, h.holds.span]
  · rw [hshows.cursor, h.holds.cursor]

/-! ## A line that is corrected -/

/-- The cursor is after the prompt of an empty line. -/
def emptyLine (prompt : ℕ) : Terminal := ⟨fun _ ↦ Terminal.blank, prompt, .text⟩

theorem shows_emptyLine (prompt : ℕ) : (emptyLine prompt).Shows prompt [] [] :=
  ⟨rfl, rfl, fun _ ↦ rfl⟩

def emptyBuffer : CursorBuffer commandBufferSize :=
  ⟨fun _ ↦ 0, 0, 0, Nat.le_refl 0, commandBufferSize_pos⟩

/-- `ab` with a `c` put between, the `a` rubbed out and the `b` deleted. -/
def correctedKeys : List Key :=
  [.printable 0x61 (by decide), .printable 0x62 (by decide), .arrowLeft,
    .printable 0x63 (by decide), .arrowLeft, .backspace, .arrowRight, .delete]

theorem terminal_shows_buffer_corrected :
    let s := readChars 0x0d (keyChars correctedKeys) (start emptyBuffer)
    (∀ k, ((emptyLine 2).receiveAll s.output).cells (2 + k) =
        s.cmdBuf.span.getD k Terminal.blank) ∧
      ((emptyLine 2).receiveAll s.output).cursor = 2 + s.cmdBuf.cursor :=
  terminal_shows_buffer 0x0d emptyBuffer (shows_emptyLine 2) correctedKeys (by decide)

example : (readChars 0x0d (keyChars correctedKeys) (start emptyBuffer)).cmdBuf.span = [0x63] := by
  decide

end Input

end TangNano.Os
