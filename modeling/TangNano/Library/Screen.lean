import TangNano.Library.Terminal

/-!
# Screens

The line of the cursor and the lines above it.  A carriage return goes to the
start of the line, a line feed to the next line.
-/

namespace TangNano

/-- The last line above the cursor comes first. -/
structure Screen where
  above : List (ℕ → Byte)
  line : Terminal

namespace Screen

open Terminal (blank)

def empty : Screen := ⟨[], ⟨fun _ ↦ blank, 0, .text⟩⟩

def receive (s : Screen) (ch : Byte) : Screen :=
  if s.line.mode = .text ∧ ch = 0x0d then { s with line := { s.line with cursor := 0 } }
  else if s.line.mode = .text ∧ ch = 0x0a then
    ⟨s.line.cells :: s.above, { s.line with cells := fun _ ↦ blank }⟩
  else { s with line := s.line.receive ch }

def receiveAll (s : Screen) (chs : List Byte) : Screen := chs.foldl receive s

def newLine : List Byte := [0x0d, 0x0a]

variable {s : Screen} {ch : Byte} {chs : List Byte}

theorem receiveAll_cons (s : Screen) (ch : Byte) (chs : List Byte) :
    s.receiveAll (ch :: chs) = (s.receive ch).receiveAll chs := rfl

theorem receiveAll_append (s : Screen) (chs chs' : List Byte) :
    s.receiveAll (chs ++ chs') = (s.receiveAll chs).receiveAll chs' := List.foldl_append

theorem not_mem_newLine (h : Terminal.Printable ch) : ch ∉ newLine := by
  intro hmem
  rcases List.mem_pair.mp hmem with rfl | rfl
  · exact absurd h (by decide)
  · exact absurd h (by decide)

theorem receive_line (h : ch ∉ newLine) : s.receive ch = { s with line := s.line.receive ch } := by
  have hne : ch ≠ 0x0d ∧ ch ≠ 0x0a := by simpa [newLine] using h
  have hcarriage : ¬ (s.line.mode = .text ∧ ch = 0x0d) := fun hand ↦ hne.1 hand.2
  have hfeed : ¬ (s.line.mode = .text ∧ ch = 0x0a) := fun hand ↦ hne.2 hand.2
  rw [receive, if_neg hcarriage, if_neg hfeed]

/-- What has no line end in it stays on the line. -/
theorem receiveAll_line (h : ∀ ch ∈ chs, ch ∉ newLine) :
    s.receiveAll chs = { s with line := s.line.receiveAll chs } := by
  induction chs generalizing s with
  | nil => rfl
  | cons ch chs ih =>
      rw [receiveAll_cons, receive_line (h ch List.mem_cons_self),
        ih fun c hc ↦ h c (List.mem_cons_of_mem _ hc)]
      rfl

/-! ## The start of a line -/

theorem mode_receive (h : s.line.mode = .text) (hch : ch ≠ 0x1b) :
    (s.receive ch).line.mode = .text := by
  unfold receive
  split
  · exact h
  split
  · exact h
  · simp only [Terminal.receive, h, if_neg hch]
    split_ifs <;> first | rfl | exact h

theorem mode_receiveAll (h : s.line.mode = .text) (hchs : 0x1b ∉ chs) :
    (s.receiveAll chs).line.mode = .text := by
  induction chs generalizing s with
  | nil => exact h
  | cons ch chs ih =>
      have hne : ch ≠ 0x1b := fun heq ↦ hchs (heq ▸ List.mem_cons_self)
      exact ih (mode_receive h hne) (List.not_mem_of_not_mem_cons hchs)

theorem mode_receive_bracket (h : s.line.mode = .bracket) (ch : Byte) :
    (s.receive ch).line.mode = .text := by
  simp [receive, Terminal.receive, h]

theorem mode_receive_escape (h : s.line.mode = .escape) (ch : Byte) :
    (s.receive ch).line.mode = if ch = 0x5b then .bracket else .text := by
  simp [receive, Terminal.receive, h]

/-- The first character may go on with a sequence, the second one is in none. -/
theorem mode_receive_two {c d : Byte} (hc : c ≠ 0x1b) (hd : d ≠ 0x1b) :
    ((s.receive c).receive d).line.mode = .text := by
  cases hmode : s.line.mode with
  | text => exact mode_receive (mode_receive hmode hc) hd
  | bracket => exact mode_receive (mode_receive_bracket hmode c) hd
  | escape =>
      have hone := mode_receive_escape hmode c
      split at hone
      · exact mode_receive_bracket hone d
      · exact mode_receive hone hd

/-- Whatever came before, a text without sequences that ends a line leaves the cursor
at the start of an empty line. -/
theorem shows_newLine (hchs : 0x1b ∉ chs) (hlength : 2 ≤ chs.length) :
    (s.receiveAll (chs ++ newLine)).line.Shows 0 [] [] := by
  obtain ⟨c, d, rest, rfl⟩ : ∃ c d rest, chs = c :: d :: rest := by
    rcases chs with _ | ⟨c, _ | ⟨d, rest⟩⟩
    · exact absurd hlength (by decide)
    · exact absurd hlength (by decide : ¬ 2 ≤ 1)
    · exact ⟨c, d, rest, rfl⟩
  simp only [List.mem_cons, not_or] at hchs
  obtain ⟨hc, hd, hrest⟩ := hchs
  have htwo := mode_receive_two (s := s) (Ne.symm hc) (Ne.symm hd)
  have hmode : (s.receiveAll (c :: d :: rest)).line.mode = .text := by
    rw [receiveAll_cons, receiveAll_cons]
    exact mode_receiveAll htwo hrest
  rw [receiveAll_append]
  generalize s.receiveAll (c :: d :: rest) = t at hmode
  have hline : (t.receiveAll newLine).line = ⟨fun _ ↦ blank, 0, .text⟩ := by
    simp [newLine, receiveAll, receive, hmode]
  rw [hline]
  exact ⟨rfl, rfl, fun _ ↦ rfl⟩

end Screen

end TangNano
