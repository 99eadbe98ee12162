import TangNano.Os.Input
import TangNano.Os.SectorNumbers

/-!
# Control sequences

What `input` does with control sequences that it does not support.  It knows
digits and a final byte; anything else ends the sequence, and what comes after
it is typed.
-/

namespace TangNano.Os

open CursorBuffer

theorem isDigit_iff {ch : Byte} : isDigit ch = true ↔ 0x30 ≤ ch ∧ ch ≤ 0x39 := decide_eq_true_iff

theorem toNat_of_isDigit {ch : Byte} (h : isDigit ch = true) :
    0x30 ≤ ch.toNat ∧ ch.toNat ≤ 0x39 := isDigit_iff.mp h

/-- A control sequence with its introducer `ESC [`. -/
structure ControlSequence where
  parameters : Text
  intermediates : Text
  final : Byte
  parameters_range : ∀ ch ∈ parameters, 0x30 ≤ ch ∧ ch ≤ 0x3f
  intermediates_range : ∀ ch ∈ intermediates, 0x20 ≤ ch ∧ ch ≤ 0x2f
  final_range : 0x40 ≤ final ∧ final ≤ 0x7e

namespace ControlSequence

def chars (q : ControlSequence) : Text :=
  0x1b :: 0x5b :: (q.parameters ++ q.intermediates ++ [q.final])

/-- The arrows to the left and to the right, and the delete key. -/
def Supported (q : ControlSequence) : Prop :=
  (∀ ch ∈ q.parameters, isDigit ch = true) ∧ q.intermediates = [] ∧
    (q.final = 0x44 ∨ q.final = 0x43 ∨ (q.final = 0x7e ∧ decimal q.parameters = 3))

/-- There are digits only, and their number is one of type `int`. -/
def Plain (q : ControlSequence) : Prop :=
  (∀ ch ∈ q.parameters, isDigit ch = true) ∧ q.intermediates = [] ∧
    decimal q.parameters ≤ 2147483647

/-- The bytes before the final one are below it. -/
theorem lt_final (q : ControlSequence) : ∀ ch ∈ q.parameters ++ q.intermediates, ch < 0x40 := by
  intro ch hmem
  rw [BitVec.lt_def]
  rcases List.mem_append.mp hmem with hparameter | hintermediate
  · have hhi : ch.toNat ≤ 0x3f := (q.parameters_range ch hparameter).2
    exact Nat.lt_succ_of_le hhi
  · have hhi : ch.toNat ≤ 0x2f := (q.intermediates_range ch hintermediate).2
    exact Nat.lt_of_le_of_lt hhi (by decide)

theorem not_isDigit_final (q : ControlSequence) : ¬ isDigit q.final = true := by
  intro hdigit
  obtain ⟨-, hhi⟩ := toNat_of_isDigit hdigit
  have hlo : 0x40 ≤ q.final.toNat := q.final_range.1
  omega

/-- No intermediate byte is a digit. -/
theorem intermediates_eq_nil (q : ControlSequence)
    (h : ∀ ch ∈ q.intermediates, isDigit ch = true) : q.intermediates = [] := by
  apply List.eq_nil_iff_forall_not_mem.mpr
  intro ch hmem
  obtain ⟨hlo, -⟩ := toNat_of_isDigit (h ch hmem)
  have hhi : ch.toNat ≤ 0x2f := (q.intermediates_range ch hmem).2
  omega

/-- What follows the introducer can be typed. -/
theorem printable (q : ControlSequence) :
    ∀ ch ∈ q.parameters ++ q.intermediates ++ [q.final], Terminal.Printable ch := by
  intro ch hmem
  rcases List.mem_append.mp hmem with hbefore | hfinal
  · have hlo : 0x20 ≤ ch.toNat := by
      rcases List.mem_append.mp hbefore with hparameter | hintermediate
      · have hlo : 0x30 ≤ ch.toNat := (q.parameters_range ch hparameter).1
        exact Nat.le_trans (by decide) hlo
      · exact (q.intermediates_range ch hintermediate).1
    have hhi : ch.toNat < 0x40 := q.lt_final ch hbefore
    have hle : ch.toNat ≤ 0x7e := by omega
    exact ⟨hlo, hle⟩
  · rw [List.mem_singleton.mp hfinal]
    have hlo : 0x40 ≤ q.final.toNat := q.final_range.1
    have hle : 0x20 ≤ q.final.toNat := by omega
    exact ⟨hle, q.final_range.2⟩

end ControlSequence

namespace Input

/-- The range of `int`. -/
def InInt (z : ℤ) : Prop := -2147483648 ≤ z ∧ z ≤ 2147483647

/-- Neither the product nor the sum that a digit makes overflows. -/
def TakesDigit (parameter : Word) (ch : Byte) : Prop :=
  InInt (parameter.toInt * 10) ∧ InInt (parameter.toInt * 10 + ((ch.toNat : ℤ) - 0x30))

/-- No operation on the parameter overflows while characters are read. -/
def Defined (charCarriageReturn : Byte) : Text → Input → Prop
  | [], _ => True
  | ch :: chs, s =>
      (s.returned = false → s.state = .escapeBracket → isDigit ch = true →
        TakesDigit s.escapeSequenceParameter ch) ∧
        Defined charCarriageReturn chs (readChars charCarriageReturn [ch] s)

/-- The line is being edited as before. -/
structure LeavesAlone (charCarriageReturn : Byte) (chs : Text) (s : Input) : Prop where
  running : (readChars charCarriageReturn chs s).returned = false
  state : (readChars charCarriageReturn chs s).state = .normal
  span : (readChars charCarriageReturn chs s).cmdBuf.span = s.cmdBuf.span
  cursor : (readChars charCarriageReturn chs s).cmdBuf.cursor = s.cmdBuf.cursor
  defined : Defined charCarriageReturn chs s

section Sequences

variable {charCarriageReturn : Byte} {s : Input}

/-! ## The parameter -/

theorem readChar_normal (h : s.state = .normal) (ch : Byte) :
    (readChar charCarriageReturn ch s).escapeSequenceParameter = s.escapeSequenceParameter := by
  rw [readChar, h]
  dsimp only
  split
  · rfl
  split
  · split <;> rfl
  split <;> rfl

/-- The parameter is 0 except in a sequence. -/
theorem readChar_parameter (h : s.state ≠ .escapeBracket → s.escapeSequenceParameter = 0)
    (ch : Byte) (hne : (readChar charCarriageReturn ch s).state ≠ .escapeBracket) :
    (readChar charCarriageReturn ch s).escapeSequenceParameter = 0 := by
  cases hstate : s.state with
  | normal =>
      rw [readChar_normal hstate]
      exact h (by simp [hstate])
  | escape =>
      rw [readChar, hstate]
      exact h (by simp [hstate])
  | escapeBracket =>
      rw [readChar, hstate] at hne ⊢
      dsimp only at hne ⊢
      split at hne
      · exact absurd rfl hne
      · next hdigit =>
          rw [if_neg hdigit]

theorem readChars_parameter (h : s.state ≠ .escapeBracket → s.escapeSequenceParameter = 0)
    (chs : Text) (hne : (readChars charCarriageReturn chs s).state ≠ .escapeBracket) :
    (readChars charCarriageReturn chs s).escapeSequenceParameter = 0 := by
  induction chs generalizing s with
  | nil => exact h hne
  | cons ch chs ih =>
      cases hrun : s.returned with
      | true =>
          rw [readChars_returned hrun] at hne ⊢
          exact h hne
      | false =>
          rw [readChars_cons hrun] at hne ⊢
          exact ih (readChar_parameter h ch) hne

/-! ## Digits -/

/-- As long as there is no overflow the parameter is the number read. -/
theorem toNat_addDigit {parameter : Word} {ch : Byte} (hch : isDigit ch = true)
    (h : parameter.toNat * 10 + (ch.toNat - 0x30) ≤ 2147483647) :
    (parameter * 10 + (ch - 0x30).setWidth 32).toNat =
      parameter.toNat * 10 + (ch.toNat - 0x30) := by
  have hdigit : (ch - 0x30).toNat = ch.toNat - 0x30 := BitVec.toNat_sub_of_le (isDigit_iff.mp hch).1
  have hlt := ch.isLt
  rw [BitVec.toNat_add, BitVec.toNat_mul, BitVec.toNat_setWidth, hdigit]
  simp only [BitVec.reduceToNat]
  omega

theorem takesDigit_iff {parameter : Word} {ch : Byte} (hch : isDigit ch = true)
    (h : parameter.toNat ≤ 2147483647) :
    TakesDigit parameter ch ↔ parameter.toNat * 10 + (ch.toNat - 0x30) ≤ 2147483647 := by
  obtain ⟨hlo, -⟩ := toNat_of_isDigit hch
  have hint : parameter.toInt = parameter.toNat := by
    rw [BitVec.toInt_eq_toNat_cond, if_pos (by omega)]
  rw [TakesDigit, InInt, InInt, hint]
  omega

theorem le_decimalFrom (n : ℕ) (digits : Text) : n ≤ decimalFrom n digits := by
  induction digits generalizing n with
  | nil => exact le_rfl
  | cons ch digits ih =>
      have hrest := ih (n * 10 + (ch.toNat - 0x30))
      rw [decimalFrom, List.foldl_cons]
      rw [decimalFrom] at hrest
      omega

/-- The line is being edited and no sequence has begun. -/
structure Editing (s : Input) : Prop where
  state : s.state = .normal
  parameter : s.escapeSequenceParameter = 0
  running : s.returned = false

/-- A sequence has begun and the parameter has been read so far. -/
def bracket (parameter : Word) (s : Input) : Input :=
  { s with state := .escapeBracket, escapeSequenceParameter := parameter }

theorem Editing.readChars_bracket (h : s.Editing) (chs : Text) :
    readChars charCarriageReturn (0x1b :: 0x5b :: chs) s =
      readChars charCarriageReturn chs (s.bracket 0) := by
  rw [Input.readChars_bracket h.state h.running, bracket, ← h.parameter]

theorem readChar_digit (parameter : Word) (s : Input) {ch : Byte} (hch : isDigit ch = true) :
    readChar charCarriageReturn ch (s.bracket parameter) =
      s.bracket (parameter * 10 + (ch - 0x30).setWidth 32) := if_pos (isDigit_iff.mp hch)

/-- Digits change the parameter only, and it is their number unless that is too large. -/
theorem readChars_digits (charCarriageReturn : Byte) (hrun : s.returned = false) {digits : Text}
    (hdigits : ∀ ch ∈ digits, isDigit ch = true) (parameter : Word) :
    ∃ parameter', readChars charCarriageReturn digits (s.bracket parameter) =
        s.bracket parameter' ∧
      (decimalFrom parameter.toNat digits ≤ 2147483647 →
        parameter'.toNat = decimalFrom parameter.toNat digits) := by
  induction digits generalizing parameter with
  | nil => exact ⟨parameter, rfl, fun _ ↦ rfl⟩
  | cons ch digits ih =>
      have hch := hdigits ch List.mem_cons_self
      have hrun' : (s.bracket parameter).returned = false := hrun
      rw [readChars_cons hrun', readChar_digit parameter s hch,
        decimalFrom, List.foldl_cons, ← decimalFrom]
      obtain ⟨parameter', hread, hvalue⟩ := ih (fun c hc ↦ hdigits c (List.mem_cons_of_mem _ hc))
        (parameter * 10 + (ch - 0x30).setWidth 32)
      refine ⟨parameter', hread, ?_⟩
      intro hle
      rw [toNat_addDigit hch ((le_decimalFrom _ _).trans hle)] at hvalue
      exact hvalue hle

/-- Reading digits and a final byte is defined exactly if their number is one of type `int`. -/
theorem defined_digits_iff (hrun : s.returned = false) {parameter : Word}
    (hint : parameter.toNat ≤ 2147483647)
    {digits : Text} (hdigits : ∀ ch ∈ digits, isDigit ch = true)
    {final : Byte} (hfinal : ¬ isDigit final = true) :
    Defined charCarriageReturn (digits ++ [final]) (s.bracket parameter) ↔
      decimalFrom parameter.toNat digits ≤ 2147483647 := by
  induction digits generalizing parameter with
  | nil => exact iff_of_true ⟨fun _ _ hdigit ↦ absurd hdigit hfinal, trivial⟩ hint
  | cons ch digits ih =>
      have hch := hdigits ch List.mem_cons_self
      have hrun' : (s.bracket parameter).returned = false := hrun
      have hread : readChars charCarriageReturn [ch] (s.bracket parameter) =
          s.bracket (parameter * 10 + (ch - 0x30).setWidth 32) := by
        rw [readChars_cons hrun', readChar_digit parameter s hch]
        rfl
      rw [List.cons_append, Defined, hread, decimalFrom, List.foldl_cons, ← decimalFrom]
      by_cases hnext : parameter.toNat * 10 + (ch.toNat - 0x30) ≤ 2147483647
      · have hvalue := toNat_addDigit hch hnext
        have hint' : (parameter * 10 + (ch - 0x30).setWidth 32).toNat ≤ 2147483647 :=
          hvalue.trans_le hnext
        rw [ih hint' fun c hc ↦ hdigits c (List.mem_cons_of_mem _ hc), hvalue]
        exact and_iff_right fun _ _ _ ↦ (takesDigit_iff hch hint).mpr hnext
      · refine iff_of_false ?_ fun hle ↦ hnext ((le_decimalFrom _ _).trans hle)
        rintro ⟨htakes, -⟩
        exact hnext ((takesDigit_iff hch hint).mp (htakes hrun rfl hch))

/-! ## The end of a sequence -/

/-- A byte that is neither a digit nor the final byte of a supported sequence. -/
theorem Editing.readChar_ignored (h : s.Editing) {parameter : Word} {ch : Byte}
    (hdigit : ¬ isDigit ch = true) (hleft : ch ≠ 0x44) (hright : ch ≠ 0x43)
    (hdelete : ch = 0x7e → parameter ≠ 3) :
    readChar charCarriageReturn ch (s.bracket parameter) = s := by
  have hrange : ¬ (0x30 ≤ ch ∧ ch ≤ 0x39) := isDigit_iff.not.mp hdigit
  obtain ⟨hstate, hparameter, -⟩ := h
  have hend : { s with state := .normal, escapeSequenceParameter := 0 } = s := by
    rw [← hstate, ← hparameter]
  rw [readChar, bracket]
  dsimp only
  rw [if_neg hrange, if_neg hleft, if_neg hright]
  by_cases htilde : ch = 0x7e
  · rw [if_pos htilde, if_neg (hdelete htilde)]
    exact hend
  · rw [if_neg htilde]
    exact hend

/-- Text that is read outside a sequence gets into the line, or ends it. -/
theorem readChars_printables (hstate : s.state = .normal) (hrun : s.returned = false)
    {before after : Text} (h : s.cmdBuf.Holds before after) {chs : Text}
    (hchs : ∀ ch ∈ chs, Terminal.Printable ch) :
    (readChars charCarriageReturn chs s).returned = true ∨
      (readChars charCarriageReturn chs s).cmdBuf.span.length =
        before.length + after.length + chs.length := by
  induction chs generalizing s before with
  | nil =>
      refine .inr ?_
      rw [readChars, List.foldl_nil, h.span, List.length_append, List.length_nil, Nat.add_zero]
  | cons ch chs ih =>
      have hch := hchs ch List.mem_cons_self
      rw [readChars_cons hrun, readChar_printable hstate hch]
      by_cases hend : ch = charCarriageReturn ∨ s.cmdBuf.isFull = true
      · refine .inl ?_
        rw [if_pos hend, readChars_returned rfl]
      · have hroom : s.cmdBuf.isFull = false := Bool.eq_false_iff.mpr (not_or.mp hend).2
        rw [if_neg hend]
        have hrest := @ih
          { s with
            cmdBuf := (s.cmdBuf.insert ch).2
            output := s.output ++ [ch] ++ (s.cmdBuf.insert ch).2.elementsFromCursorToEnd ++
              List.replicate (s.cmdBuf.insert ch).2.elementsAfterCursorCount 0x08 }
          hstate hrun (before ++ [ch]) (h.insert hroom ch)
          fun c hc ↦ hchs c (List.mem_cons_of_mem _ hc)
        refine hrest.imp_right fun hlength ↦ hlength.trans ?_
        rw [List.length_append, List.length_singleton, List.length_cons]
        omega

/-! ## Whole sequences -/

/-- A byte that is not known is followed by text. -/
theorem Editing.not_leavesAlone (h : s.Editing) {digits rest : Text} {ch : Byte}
    (hdigits : ∀ c ∈ digits, isDigit c = true) (hch : ¬ isDigit ch = true) (hlt : ch < 0x40)
    (hrest : ∀ c ∈ rest, Terminal.Printable c) (hne : rest ≠ []) :
    ¬ LeavesAlone charCarriageReturn (0x1b :: 0x5b :: (digits ++ ch :: rest)) s := by
  intro hleaves
  have hnot : ∀ c : Byte, 0x40 ≤ c → ch ≠ c := by
    rintro c hc rfl
    exact BitVec.not_le.mpr hlt hc
  obtain ⟨parameter, hread, -⟩ := readChars_digits charCarriageReturn h.running hdigits 0
  have hrun : (s.bracket parameter).returned = false := h.running
  have hall : readChars charCarriageReturn (0x1b :: 0x5b :: (digits ++ ch :: rest)) s =
      readChars charCarriageReturn rest s := by
    rw [h.readChars_bracket, readChars_append, hread, readChars_cons hrun,
      h.readChar_ignored hch (hnot 0x44 (by decide)) (hnot 0x43 (by decide))
        fun heq ↦ absurd heq (hnot 0x7e (by decide))]
  have hrunning := hleaves.running
  have hspan := hleaves.span
  rw [hall] at hrunning hspan
  have hholds : s.cmdBuf.Holds s.cmdBuf.elementsBeforeCursor s.cmdBuf.elementsFromCursorToEnd :=
    ⟨rfl, rfl⟩
  rcases readChars_printables h.state h.running hholds hrest with hreturned | hlength
  · rw [hreturned] at hrunning
    exact Bool.noConfusion hrunning
  · rw [hspan, hholds.span, List.length_append] at hlength
    have hpos := List.length_pos_iff.mpr hne
    omega

theorem Editing.defined_bracket (h : s.Editing) (chs : Text) :
    Defined charCarriageReturn (0x1b :: 0x5b :: chs) s ↔
      Defined charCarriageReturn chs (s.bracket 0) := by
  have hbracket : readChars charCarriageReturn [0x5b] (readChars charCarriageReturn [0x1b] s) =
      s.bracket 0 := by
    rw [← readChars_append]
    exact h.readChars_bracket []
  rw [Defined, Defined, hbracket]
  constructor
  · rintro ⟨-, -, hrest⟩
    exact hrest
  · intro hrest
    exact ⟨fun _ _ hdigit ↦ absurd hdigit (by decide),
      fun _ _ hdigit ↦ absurd hdigit (by decide), hrest⟩

/-- Digits and a final byte that is not supported. -/
theorem Editing.leavesAlone_digits_iff (h : s.Editing) {digits : Text}
    (hdigits : ∀ c ∈ digits, isDigit c = true) {final : Byte} (hfinal : ¬ isDigit final = true)
    (hleft : final ≠ 0x44) (hright : final ≠ 0x43)
    (hdelete : final = 0x7e → decimal digits ≠ 3) :
    LeavesAlone charCarriageReturn (0x1b :: 0x5b :: (digits ++ [final])) s ↔
      decimal digits ≤ 2147483647 := by
  have hdefined : Defined charCarriageReturn (0x1b :: 0x5b :: (digits ++ [final])) s ↔
      decimal digits ≤ 2147483647 :=
    (h.defined_bracket _).trans (defined_digits_iff h.running (by decide) hdigits hfinal)
  refine ⟨fun hleaves ↦ hdefined.mp hleaves.defined, fun hle ↦ ?_⟩
  obtain ⟨parameter, hread, hvalue⟩ := readChars_digits charCarriageReturn h.running hdigits 0
  have hrun : (s.bracket parameter).returned = false := h.running
  have hthree : final = 0x7e → parameter ≠ 3 := by
    rintro htilde rfl
    exact hdelete htilde (hvalue hle).symm
  have hall : readChars charCarriageReturn (0x1b :: 0x5b :: (digits ++ [final])) s = s := by
    rw [h.readChars_bracket, readChars_append, hread, readChars_cons hrun,
      h.readChar_ignored hfinal hleft hright hthree]
    rfl
  refine ⟨?_, ?_, ?_, ?_, hdefined.mpr hle⟩
  · rw [hall, h.running]
  · rw [hall, h.state]
  · rw [hall]
  · rw [hall]

theorem digits_or_unknown (chs : Text) :
    (∀ c ∈ chs, isDigit c = true) ∨
      ∃ digits ch rest, chs = digits ++ ch :: rest ∧ (∀ c ∈ digits, isDigit c = true) ∧
        ¬ isDigit ch = true := by
  induction chs with
  | nil => exact .inl (List.forall_mem_nil _)
  | cons c chs ih =>
      by_cases hc : isDigit c = true
      · rcases ih with hall | ⟨digits, ch, rest, rfl, hdigits, hch⟩
        · exact .inl (List.forall_mem_cons.mpr ⟨hc, hall⟩)
        · exact .inr ⟨c :: digits, ch, rest, rfl, List.forall_mem_cons.mpr ⟨hc, hdigits⟩, hch⟩
      · exact .inr ⟨[], c, chs, rfl, List.forall_mem_nil _, hc⟩

theorem Editing.leavesAlone_iff (h : s.Editing) {q : ControlSequence} (hq : ¬ q.Supported) :
    LeavesAlone charCarriageReturn q.chars s ↔ q.Plain := by
  have hfinal := q.not_isDigit_final
  rcases digits_or_unknown (q.parameters ++ q.intermediates) with
    hdigits | ⟨digits, ch, rest, heq, hdigits, hch⟩
  · have hnone : q.intermediates = [] :=
      q.intermediates_eq_nil fun c hc ↦ hdigits c (List.mem_append_right _ hc)
    rw [hnone, List.append_nil] at hdigits
    rw [ControlSequence.Supported, not_and, not_and] at hq
    have hunsupported := hq hdigits hnone
    rw [not_or, not_or, not_and] at hunsupported
    obtain ⟨hleft, hright, hdelete⟩ := hunsupported
    rw [ControlSequence.chars, hnone, List.append_nil,
      h.leavesAlone_digits_iff hdigits hfinal hleft hright hdelete]
    exact ⟨fun hle ↦ ⟨hdigits, hnone, hle⟩, fun hplain ↦ hplain.2.2⟩
  · -- the byte that is not known ends the sequence, and at least the final byte is typed
    have hmem : ch ∈ q.parameters ++ q.intermediates := by
      rw [heq]
      exact List.mem_append_right _ List.mem_cons_self
    refine iff_of_false ?_ ?_
    · have hrest : ∀ c ∈ rest ++ [q.final], Terminal.Printable c := by
        intro c hc
        apply q.printable
        rw [heq, List.append_assoc, List.cons_append]
        exact List.mem_append_right _ (List.mem_cons_of_mem _ hc)
      rw [ControlSequence.chars, heq, List.append_assoc, List.cons_append]
      exact h.not_leavesAlone hdigits hch (q.lt_final ch hmem) hrest
        (List.append_ne_nil_of_right_ne_nil _ (List.cons_ne_nil _ _))
    · rintro ⟨hall, hnone, -⟩
      rw [hnone, List.append_nil] at hmem
      exact hch (hall ch hmem)

/-- In every state in which the line is being edited, an unsupported sequence leaves the line
alone exactly if it has digits only and these make a number of type `int`. -/
theorem leavesAlone_iff_plain (charCarriageReturn : Byte)
    (cmdBuf : CursorBuffer commandBufferSize) (chs : Text)
    (hstate : (readChars charCarriageReturn chs (start cmdBuf)).state = .normal)
    (hrun : (readChars charCarriageReturn chs (start cmdBuf)).returned = false)
    {q : ControlSequence} (hq : ¬ q.Supported) :
    LeavesAlone charCarriageReturn q.chars (readChars charCarriageReturn chs (start cmdBuf)) ↔
      q.Plain := by
  have hparameter : (readChars charCarriageReturn chs (start cmdBuf)).escapeSequenceParameter = 0 :=
    readChars_parameter (fun _ ↦ rfl) chs (by rw [hstate]; decide)
  exact Editing.leavesAlone_iff ⟨hstate, hparameter, hrun⟩ hq

/-- The key to the page before. -/
def pageUp : ControlSequence :=
  ⟨[0x35], [], 0x7e, by decide, by decide, by decide⟩

theorem leavesAlone_iff_plain_pageUp :
    LeavesAlone 0x0d pageUp.chars (readChars 0x0d [0x61] (start emptyBuffer)) ↔ pageUp.Plain :=
  leavesAlone_iff_plain 0x0d emptyBuffer [0x61] (by decide) (by decide)
    (by simp [ControlSequence.Supported, pageUp, decimal, decimalFrom])

/-- The arrow to the right with the control key. -/
def controlRight : ControlSequence :=
  ⟨[0x31, 0x3b, 0x35], [], 0x43, by decide, by decide, by decide⟩

theorem not_leavesAlone_controlRight :
    ¬ ∀ (chs : Text) (q : ControlSequence),
      (readChars 0x0d chs (start emptyBuffer)).state = .normal →
      (readChars 0x0d chs (start emptyBuffer)).returned = false → ¬ q.Supported →
        LeavesAlone 0x0d q.chars (readChars 0x0d chs (start emptyBuffer)) := by
  intro h
  have hunsupported : ¬ controlRight.Supported := by
    rintro ⟨hdigits, -⟩
    exact absurd (hdigits 0x3b (by decide)) (by decide)
  have hspan := (h [] controlRight rfl rfl hunsupported).span
  exact absurd hspan (by decide)

end Sequences

end Input

end TangNano.Os
