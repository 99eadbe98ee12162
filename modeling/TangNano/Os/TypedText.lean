import TangNano.Os.Input

/-!
# Typed text

Text is typed into successive calls of `input`.  A character that finds the
command buffer full ends the line, and is in none.
-/

namespace TangNano.Os

open CursorBuffer

namespace Input

/-- The lines that successive calls of `input` return, and the call that is running. -/
def calls (charCarriageReturn : Byte) : Input → Text → List Text × Input
  | s, [] => ([], s)
  | s, ch :: chs =>
      let s' := readChar charCarriageReturn ch s
      if s'.returned then
        let r := calls charCarriageReturn (start s'.cmdBuf) chs
        (s'.cmdBuf.span :: r.1, r.2)
      else calls charCarriageReturn s' chs

/-- What has been typed as far as it is in a line. -/
def kept (r : List Text × Text) : Text := r.1.flatten ++ r.2

/-- Lines of text and the line that is not finished. -/
def typed (charCarriageReturn : Byte) : Text → Text → List Text × Text
  | line, [] => ([], line)
  | line, ch :: chs =>
      if ch = charCarriageReturn ∨ line.length = commandBufferSize - 1 then
        let r := typed charCarriageReturn [] chs
        (line :: r.1, r.2)
      else typed charCarriageReturn (line ++ [ch]) chs

/-- A line of `n` characters that goes on stays shorter than the command buffer, and so do
those after it. -/
def LinesFit (charCarriageReturn : Byte) : ℕ → Text → Prop
  | _, [] => True
  | n, ch :: chs =>
      if ch = charCarriageReturn then LinesFit charCarriageReturn 0 chs
      else n + 1 < commandBufferSize ∧ LinesFit charCarriageReturn (n + 1) chs

section Typing

variable {charCarriageReturn : Byte} {s : Input} {line : Text}

/-- A line is being typed. -/
structure Typing (line : Text) (s : Input) : Prop where
  state : s.state = .normal
  running : s.returned = false
  holds : s.cmdBuf.Holds line []

theorem typing_start (cmdBuf : CursorBuffer commandBufferSize) : Typing [] (start cmdBuf) :=
  ⟨rfl, rfl, holds_reset cmdBuf⟩

theorem Typing.readChar_return (h : Typing line s)
    (hcr : charCarriageReturn = 0x0d ∨ charCarriageReturn = 0x0a) :
    readChar charCarriageReturn charCarriageReturn s =
      { s with cmdBuf := s.cmdBuf.setTerminator, returned := true } := by
  rw [readChar, h.state]
  dsimp only
  rw [if_neg (by rcases hcr with rfl | rfl <;> decide),
    if_neg (by rcases hcr with rfl | rfl <;> decide), if_pos (.inl rfl), ← h.state]

/-- A character is put at the end of the line, or ends it. -/
theorem Typing.step (h : Typing line s)
    (hcr : charCarriageReturn = 0x0d ∨ charCarriageReturn = 0x0a) {ch : Byte}
    (hch : ch = charCarriageReturn ∨ Terminal.Printable ch) :
    if ch = charCarriageReturn ∨ line.length = commandBufferSize - 1 then
      (readChar charCarriageReturn ch s).returned = true ∧
        (readChar charCarriageReturn ch s).cmdBuf.span = line
    else Typing (line ++ [ch]) (readChar charCarriageReturn ch s) := by
  have hfull : s.cmdBuf.isFull = true ↔ line.length = commandBufferSize - 1 := h.holds.isFull
  have hspan : s.cmdBuf.setTerminator.span = line := by
    rw [h.holds.setTerminator.span, List.append_nil]
  rcases hch with rfl | hprintable
  · rw [if_pos (.inl rfl), h.readChar_return hcr]
    exact ⟨rfl, hspan⟩
  have hreturn : ch = charCarriageReturn ∨ s.cmdBuf.isFull = true ↔
      ch = charCarriageReturn ∨ line.length = commandBufferSize - 1 := or_congr_right hfull
  rw [readChar_printable h.state hprintable]
  by_cases hend : ch = charCarriageReturn ∨ line.length = commandBufferSize - 1
  · rw [if_pos hend, if_pos (hreturn.mpr hend)]
    exact ⟨rfl, hspan⟩
  · rw [if_neg hend, if_neg (hreturn.not.mpr hend)]
    have hroom : s.cmdBuf.isFull = false :=
      Bool.eq_false_iff.mpr (hfull.not.mpr (not_or.mp hend).2)
    exact ⟨h.state, h.running, h.holds.insert hroom ch⟩

/-- The lines are those of the text. -/
theorem Typing.calls (h : Typing line s)
    (hcr : charCarriageReturn = 0x0d ∨ charCarriageReturn = 0x0a) {chs : Text}
    (hchs : ∀ ch ∈ chs, ch = charCarriageReturn ∨ Terminal.Printable ch) :
    (Input.calls charCarriageReturn s chs).1 = (typed charCarriageReturn line chs).1 ∧
      (Input.calls charCarriageReturn s chs).2.cmdBuf.span =
        (typed charCarriageReturn line chs).2 := by
  induction chs generalizing s line with
  | nil =>
      refine ⟨rfl, ?_⟩
      rw [Input.calls, h.holds.span, List.append_nil]
      rfl
  | cons ch chs ih =>
      have hrest : ∀ c ∈ chs, c = charCarriageReturn ∨ Terminal.Printable c :=
        fun c hc ↦ hchs c (List.mem_cons_of_mem _ hc)
      have hstep := h.step hcr (hchs ch List.mem_cons_self)
      rw [Input.calls, typed]
      by_cases hend : ch = charCarriageReturn ∨ line.length = commandBufferSize - 1
      · rw [if_pos hend] at hstep
        obtain ⟨hreturned, hspan⟩ := hstep
        obtain ⟨hlines, hrunning⟩ := ih (typing_start _) hrest
        rw [if_pos hreturned, if_pos hend]
        exact ⟨List.cons_eq_cons.mpr ⟨hspan, hlines⟩, hrunning⟩
      · rw [if_neg hend] at hstep
        rw [if_neg (Bool.eq_false_iff.mp hstep.running), if_neg hend]
        exact ih hstep hrest

/-! ## What is lost -/

theorem kept_cons (line : Text) (r : List Text × Text) :
    kept (line :: r.1, r.2) = line ++ kept r := by
  simp [kept]

theorem filter_cons_of_ne {ch : Byte} (h : ch ≠ charCarriageReturn) (chs : Text) :
    (ch :: chs).filter (· ≠ charCarriageReturn) = ch :: chs.filter (· ≠ charCarriageReturn) :=
  List.filter_cons_of_pos (by simp [h])

/-- Nothing is typed twice. -/
theorem length_kept_le (charCarriageReturn : Byte) (line chs : Text) :
    (kept (typed charCarriageReturn line chs)).length ≤
      line.length + (chs.filter (· ≠ charCarriageReturn)).length := by
  induction chs generalizing line with
  | nil => simp [typed, kept]
  | cons ch chs ih =>
      rw [typed]
      split
      · next hend =>
          have hrest := ih []
          have hfilter : (chs.filter (· ≠ charCarriageReturn)).length ≤
              ((ch :: chs).filter (· ≠ charCarriageReturn)).length := by
            rw [List.filter_cons]
            split
            · exact Nat.le_succ _
            · exact le_rfl
          rw [kept_cons, List.length_append]
          rw [List.length_nil, Nat.zero_add] at hrest
          omega
      · next hgo =>
          have hrest := ih (line ++ [ch])
          rw [filter_cons_of_ne (not_or.mp hgo).1, List.length_cons]
          rw [List.length_append, List.length_singleton] at hrest
          omega

/-- What is kept is all there is exactly if no line reaches the size of the buffer. -/
theorem kept_typed_iff (charCarriageReturn : Byte) {line : Text}
    (hline : line.length < commandBufferSize) (chs : Text) :
    kept (typed charCarriageReturn line chs) = line ++ chs.filter (· ≠ charCarriageReturn) ↔
      LinesFit charCarriageReturn line.length chs := by
  induction chs generalizing line with
  | nil =>
      refine iff_of_true ?_ trivial
      simp [typed, kept]
  | cons ch chs ih =>
      rw [typed, LinesFit]
      by_cases hcr : ch = charCarriageReturn
      · have hfilter : (ch :: chs).filter (· ≠ charCarriageReturn) =
            chs.filter (· ≠ charCarriageReturn) := List.filter_cons_of_neg (by simp [hcr])
        rw [if_pos (.inl hcr), if_pos hcr, kept_cons, hfilter, List.append_cancel_left_eq]
        exact ih (by decide)
      rw [if_neg hcr, filter_cons_of_ne hcr]
      by_cases hfull : line.length = commandBufferSize - 1
      · -- the character that finds the line full is dropped
        rw [if_pos (.inr hfull), kept_cons, List.append_cancel_left_eq]
        refine iff_of_false ?_ fun h ↦ by omega
        intro heq
        have hlength := length_kept_le charCarriageReturn [] chs
        rw [heq] at hlength
        simp at hlength
      · have hroom : (line ++ [ch]).length < commandBufferSize := by
          rw [List.length_append, List.length_singleton]
          omega
        have hassoc : line ++ ch :: chs.filter (· ≠ charCarriageReturn) =
            (line ++ [ch]) ++ chs.filter (· ≠ charCarriageReturn) := by
          rw [List.append_assoc, List.singleton_append]
        rw [if_neg (not_or.mpr ⟨hcr, hfull⟩), hassoc, ih hroom]
        rw [List.length_append, List.length_singleton] at hroom ⊢
        exact (and_iff_right hroom).symm

/-- The parts of a text without a carriage return are shorter than the command buffer; those
at its beginning are also after `n` characters. -/
def PartsFit (charCarriageReturn : Byte) (n : ℕ) (chs : Text) : Prop :=
  (∀ part, part <+: chs → charCarriageReturn ∉ part → n + part.length < commandBufferSize) ∧
    ∀ part, part <:+: chs → charCarriageReturn ∉ part → part.length < commandBufferSize

theorem partsFit_nil (charCarriageReturn : Byte) {n : ℕ} (hn : n < commandBufferSize) :
    PartsFit charCarriageReturn n [] := by
  refine ⟨?_, ?_⟩
  · intro part hpart _
    rw [List.prefix_nil.mp hpart]
    exact hn
  · intro part hpart _
    rw [List.infix_nil.mp hpart]
    decide

/-- At a carriage return a line begins. -/
theorem partsFit_return (charCarriageReturn : Byte) {n : ℕ} (hn : n < commandBufferSize)
    (chs : Text) :
    PartsFit charCarriageReturn n (charCarriageReturn :: chs) ↔
      PartsFit charCarriageReturn 0 chs := by
  have hfirst : ∀ part, part <+: charCarriageReturn :: chs → charCarriageReturn ∉ part →
      part = [] := by
    intro part hpart hmem
    rcases List.prefix_cons_iff.mp hpart with rfl | ⟨rest, rfl, -⟩
    · rfl
    · exact absurd List.mem_cons_self hmem
  constructor
  · rintro ⟨-, hinfix⟩
    refine ⟨?_, ?_⟩
    · intro part hpart hmem
      rw [Nat.zero_add]
      exact hinfix part (List.infix_cons hpart.isInfix) hmem
    · intro part hpart hmem
      exact hinfix part (List.infix_cons hpart) hmem
  · rintro ⟨-, hinfix⟩
    refine ⟨?_, ?_⟩
    · intro part hpart hmem
      rw [hfirst part hpart hmem]
      exact hn
    · intro part hpart hmem
      rcases List.infix_cons_iff.mp hpart with hbegin | hrest
      · rw [hfirst part hbegin hmem]
        decide
      · exact hinfix part hrest hmem

/-- Any other character is one more of its line. -/
theorem partsFit_cons {charCarriageReturn ch : Byte} (hne : ch ≠ charCarriageReturn) {n : ℕ}
    (hn : n < commandBufferSize) (chs : Text) :
    PartsFit charCarriageReturn n (ch :: chs) ↔
      n + 1 < commandBufferSize ∧ PartsFit charCarriageReturn (n + 1) chs := by
  have hcons : ∀ {part : Text}, charCarriageReturn ∉ part → charCarriageReturn ∉ ch :: part :=
    fun hmem ↦ List.not_mem_cons_of_ne_of_not_mem hne.symm hmem
  constructor
  · rintro ⟨hbegin, hinfix⟩
    refine ⟨hbegin [ch] (List.prefix_append [ch] chs) (hcons List.not_mem_nil), ?_, ?_⟩
    · intro part hpart hmem
      have hlength := hbegin (ch :: part) (List.cons_prefix_cons.mpr ⟨rfl, hpart⟩) (hcons hmem)
      rw [List.length_cons] at hlength
      omega
    · intro part hpart hmem
      exact hinfix part (List.infix_cons hpart) hmem
  · rintro ⟨-, hbegin, hinfix⟩
    have hfirst : ∀ part, part <+: ch :: chs → charCarriageReturn ∉ part →
        n + part.length < commandBufferSize := by
      intro part hpart hmem
      rcases List.prefix_cons_iff.mp hpart with rfl | ⟨rest, rfl, hrest⟩
      · exact hn
      · have hlength := hbegin rest hrest (List.not_mem_of_not_mem_cons hmem)
        rw [List.length_cons]
        omega
    refine ⟨hfirst, ?_⟩
    intro part hpart hmem
    rcases List.infix_cons_iff.mp hpart with hbeginning | hrest
    · have hlength := hfirst part hbeginning hmem
      omega
    · exact hinfix part hrest hmem

/-- The lines of a text are its parts without a carriage return. -/
theorem linesFit_iff (charCarriageReturn : Byte) {n : ℕ} (hn : n < commandBufferSize)
    (chs : Text) : LinesFit charCarriageReturn n chs ↔ PartsFit charCarriageReturn n chs := by
  induction chs generalizing n with
  | nil => exact iff_of_true trivial (partsFit_nil charCarriageReturn hn)
  | cons ch chs ih =>
      rw [LinesFit]
      by_cases hcr : ch = charCarriageReturn
      · rw [if_pos hcr, ih (by decide), hcr, partsFit_return charCarriageReturn hn]
      · rw [if_neg hcr, partsFit_cons hcr hn]
        exact and_congr_right ih

theorem calls_keep_iff_linesFit (hcr : charCarriageReturn = 0x0d ∨ charCarriageReturn = 0x0a)
    (cmdBuf : CursorBuffer commandBufferSize) {chs : Text}
    (hchs : ∀ ch ∈ chs, ch = charCarriageReturn ∨ Terminal.Printable ch) :
    let r := calls charCarriageReturn (start cmdBuf) chs
    r.1.flatten ++ r.2.cmdBuf.span = chs.filter (· ≠ charCarriageReturn) ↔
      LinesFit charCarriageReturn 0 chs := by
  obtain ⟨hlines, hrunning⟩ := (typing_start cmdBuf).calls hcr hchs
  have hempty : ([] : Text).length < commandBufferSize := by decide
  dsimp only
  rw [hlines, hrunning]
  exact kept_typed_iff charCarriageReturn hempty chs

/-- Typed text is in the lines exactly if it goes nowhere on for as many characters as the
command buffer has places without a carriage return. -/
theorem calls_keep_iff (hcr : charCarriageReturn = 0x0d ∨ charCarriageReturn = 0x0a)
    (cmdBuf : CursorBuffer commandBufferSize) (chs : Text)
    (hchs : ∀ ch ∈ chs, ch = charCarriageReturn ∨ Terminal.Printable ch) :
    let r := calls charCarriageReturn (start cmdBuf) chs
    r.1.flatten ++ r.2.cmdBuf.span = chs.filter (· ≠ charCarriageReturn) ↔
      ∀ part, part <:+: chs → charCarriageReturn ∉ part → part.length < commandBufferSize := by
  have hfit := linesFit_iff charCarriageReturn (n := 0) (by decide) chs
  refine (calls_keep_iff_linesFit hcr cmdBuf hchs).trans (hfit.trans ⟨And.right, fun h ↦ ⟨?_, h⟩⟩)
  intro part hpart hmem
  rw [Nat.zero_add]
  exact h part hpart.isInfix hmem

theorem calls_keep_iff_two_lines :
    let r := calls 0x0d (start emptyBuffer) [0x61, 0x0d, 0x62]
    r.1.flatten ++ r.2.cmdBuf.span = [0x61, 0x0d, 0x62].filter (· ≠ 0x0d) ↔
      ∀ part : Text, part <:+: [0x61, 0x0d, 0x62] → 0x0d ∉ part →
        part.length < commandBufferSize :=
  calls_keep_iff (.inl rfl) emptyBuffer [0x61, 0x0d, 0x62] (by decide)

/-- Of a line of 160 characters the last one is in no line. -/
theorem not_calls_keep :
    ¬ ∀ (cmdBuf : CursorBuffer commandBufferSize) (chs : Text),
      (∀ ch ∈ chs, ch = 0x0d ∨ Terminal.Printable ch) →
        (calls 0x0d (start cmdBuf) chs).1.flatten ++ (calls 0x0d (start cmdBuf) chs).2.cmdBuf.span =
          chs.filter (· ≠ 0x0d) := by
  intro h
  have hchs : ∀ ch ∈ List.replicate commandBufferSize (0x61 : Byte),
      ch = 0x0d ∨ Terminal.Printable ch := by
    intro ch hch
    rw [List.eq_of_mem_replicate hch]
    decide
  have hfit := (calls_keep_iff_linesFit (.inl rfl) emptyBuffer hchs).mp (h emptyBuffer _ hchs)
  have hshort := ((linesFit_iff 0x0d (by decide) _).mp hfit).2 _ List.infix_rfl fun hmem ↦
    absurd (List.eq_of_mem_replicate hmem) (by decide)
  rw [List.length_replicate] at hshort
  exact lt_irrefl _ hshort

end Typing

end Input

end TangNano.Os
