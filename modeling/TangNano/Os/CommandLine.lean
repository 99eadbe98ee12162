import Mathlib.Data.List.TakeWhile
import TangNano.Os.Span
import TangNano.Os.Text

/-!
# Command lines

The functions that split a command line into words and compare a word with a
literal, as they go through the memory, and what they compute.
-/

namespace TangNano.Os

namespace Span

/-! ## The functions -/

structure StringNextWordReturn where
  word : Span
  rem : Span

def stringNextWord (mem : Memory Byte) (str : Span) : Option Span.StringNextWordReturn := do
  let (ce, _) ← str.forEachUntilFalse mem (fun _ ch ↦ some (decide (ch ≠ space), ())) ()
  let word := str.subspanEndingAt ce
  let rem := str.subspanStartingAt ce
  let (pos, _) ← rem.forEachUntilFalse mem (fun _ ch ↦ some (decide (ch = space), ())) ()
  return ⟨word, rem.subspanStartingAt pos⟩

/-- What is called for each character.  The pointer `s` goes on with it. -/
def equalsNext (mem : Memory Byte) (s : ℕ) (ch : Byte) : Option (Bool × ℕ) := do
  let c ← mem s
  return if c ≠ 0 ∧ c = ch then (true, s + 1) else (false, s)

def stringEqualsCstr (mem : Memory Byte) (str : Span) (s : ℕ) : Option Bool := do
  let (e, s') ← str.forEachUntilFalse mem (equalsNext mem) s
  let c ← mem s'
  return c == 0 && str.isAtEnd e

/-- `stringNextWord` is applied until nothing is left, at most `n` times.  The words and
what is left. -/
def stringWords (mem : Memory Byte) : ℕ → Span → Option (List Span × Span)
  | 0, str => some ([], str)
  | n + 1, str =>
      if str.isEmpty then some ([], str)
      else do
        let next ← stringNextWord mem str
        let (words, rem) ← stringWords mem n next.rem
        return (next.word :: words, rem)

end Span

/-- The characters at `s` before the terminator. -/
structure HoldsCstr (mem : Memory Byte) (s : ℕ) (cs : Text) : Prop where
  chars : mem.At s (cs ++ [0])
  nonzero : 0 ∉ cs

/-- A text, its word up to the first space and what comes after the spaces. -/
structure FirstWord (text word rem : Text) : Prop where
  split : ∃ k, text = word ++ List.replicate k space ++ rem ∧ (k = 0 → rem = [])
  word : space ∉ word
  rem : rem.head? ≠ some space

/-- The longest parts without a space. -/
def runs (text : Text) : List Text := (text.splitOn space).filter (· ≠ [])

/-- A space at the beginning makes an empty word. -/
def words (text : Text) : List Text :=
  if text.head? = some space then [] :: runs text else runs text

/-! ## Texts -/

theorem false_of_head?_dropWhile {p : Byte → Bool} {text : Text} {ch : Byte}
    (h : (text.dropWhile p).head? = some ch) : p ch = false := by
  have hnot := List.head?_dropWhile_not p text
  rwa [h] at hnot

/-- What comes after a word begins with a space. -/
theorem dropWhile_eq_nil_of_takeWhile {text : Text}
    (h : (text.dropWhile (· ≠ space)).takeWhile (· = space) = []) :
    text.dropWhile (· ≠ space) = [] := by
  cases hrest : text.dropWhile (· ≠ space) with
  | nil => rfl
  | cons ch rest =>
      have hhead : (text.dropWhile (· ≠ space)).head? = some ch := by rw [hrest, List.head?_cons]
      have hspace : ch = space := of_not_not (of_decide_eq_false (false_of_head?_dropWhile hhead))
      rw [hrest, hspace, List.takeWhile_cons, if_pos (decide_eq_true rfl)] at h
      exact absurd h (List.cons_ne_nil _ _)

theorem firstWord_stringNextWord (text : Text) :
    FirstWord text (stringNextWord text).word (stringNextWord text).rem := by
  let rest := text.dropWhile (· ≠ space)
  let spaces := rest.takeWhile (· = space)
  have htext : text.takeWhile (· ≠ space) ++ rest = text := List.takeWhile_append_dropWhile
  have hrest : spaces ++ rest.dropWhile (· = space) = rest := List.takeWhile_append_dropWhile
  have hall : ∀ ch ∈ spaces, ch = space := fun ch hch ↦
    of_decide_eq_true (List.mem_takeWhile_imp (p := fun ch ↦ decide (ch = space)) hch)
  have hspaces : spaces = List.replicate spaces.length space :=
    List.eq_replicate_iff.mpr ⟨rfl, hall⟩
  refine ⟨⟨spaces.length, ?_, ?_⟩, ?_, ?_⟩
  · rw [← hspaces, List.append_assoc]
    change text = _ ++ (spaces ++ rest.dropWhile (· = space))
    rw [hrest]
    exact htext.symm
  · intro hnone
    have hempty : rest = [] := dropWhile_eq_nil_of_takeWhile (List.length_eq_zero_iff.mp hnone)
    change rest.dropWhile (· = space) = []
    rw [hempty, List.dropWhile_nil]
  · intro hmem
    have hne := of_decide_eq_true (List.mem_takeWhile_imp (p := fun ch ↦ decide (ch ≠ space)) hmem)
    exact absurd rfl hne
  · intro hhead
    exact absurd rfl (of_decide_eq_false (false_of_head?_dropWhile hhead))

/-! ## Words -/

theorem runs_spaces (k : ℕ) (text : Text) : runs (List.replicate k space ++ text) = runs text := by
  induction k with
  | zero => rfl
  | succ k ih =>
      have hsplit : (space :: (List.replicate k space ++ text)).splitOn space =
          [] :: (List.replicate k space ++ text).splitOn space :=
        List.splitOn_append_cons_self_of_not_mem List.not_mem_nil _
      rw [List.replicate_succ, List.cons_append, runs, hsplit]
      exact ih

theorem runs_word {word : Text} (hword : space ∉ word) (hne : word ≠ []) : runs word = [word] := by
  rw [runs, List.splitOn_eq_singleton hword]
  exact List.filter_cons_of_pos (decide_eq_true hne)

theorem runs_word_append {word : Text} (hword : space ∉ word) (hne : word ≠ []) (text : Text) :
    runs (word ++ space :: text) = word :: runs text := by
  rw [runs, List.splitOn_append_cons_self_of_not_mem hword]
  exact List.filter_cons_of_pos (decide_eq_true hne)

section Texts

variable {text word rem : Text}

theorem FirstWord.length_lt (h : FirstWord text word rem) (hne : text ≠ []) :
    rem.length < text.length := by
  obtain ⟨k, rfl, hk⟩ := h.split
  rw [List.length_append, List.length_append, List.length_replicate]
  by_contra hle
  have hzero : k = 0 := by omega
  have hword : word = [] := List.length_eq_zero_iff.mp (by omega)
  rw [hzero, hword, hk hzero] at hne
  exact hne rfl

/-- The word comes before the words of the rest. -/
theorem FirstWord.words_eq (h : FirstWord text word rem) (hne : text ≠ []) :
    words text = word :: words rem := by
  have hrem : words rem = runs rem := if_neg h.rem
  obtain ⟨k, rfl, hk⟩ := h.split
  rw [hrem]
  cases word with
  | nil =>
      -- a space at the beginning
      cases k with
      | zero =>
          rw [hk rfl] at hne
          exact absurd rfl hne
      | succ k =>
          have hhead : ([] ++ List.replicate (k + 1) space ++ rem).head? = some space := rfl
          rw [words, if_pos hhead, List.nil_append, runs_spaces]
  | cons ch word =>
      have hhead : (ch :: word ++ List.replicate k space ++ rem).head? ≠ some space := by
        rintro heq
        exact h.word (Option.some.inj heq ▸ List.mem_cons_self)
      rw [words, if_neg hhead]
      cases k with
      | zero =>
          rw [hk rfl, List.replicate_zero, List.append_nil, List.append_nil,
            runs_word h.word (List.cons_ne_nil _ _)]
          rfl
      | succ k =>
          have hspace : ch :: word ++ List.replicate (k + 1) space ++ rem =
              ch :: word ++ space :: (List.replicate k space ++ rem) := List.append_assoc ..
          rw [hspace, runs_word_append h.word (List.cons_ne_nil _ _), runs_spaces]

end Texts

/-! ## Texts in the memory -/

namespace Span

variable {mem : Memory Byte} {str : Span} {text : Text}

/-- The word and the rest are those of the text. -/
theorem Holds.stringNextWord (h : str.Holds mem text) :
    ∃ next, str.stringNextWord mem = some next ∧
      next.word.Holds mem (Os.stringNextWord text).word ∧
      next.rem.Holds mem (Os.stringNextWord text).rem := by
  let word := text.takeWhile (· ≠ space)
  let rest := text.dropWhile (· ≠ space)
  have htext : word ++ rest = text := List.takeWhile_append_dropWhile
  have hrest : rest.takeWhile (· = space) ++ rest.dropWhile (· = space) = rest :=
    List.takeWhile_append_dropWhile
  have hfound := h.forEachUntilFalse fun ch ↦ decide (ch ≠ space)
  rw [← htext] at h
  have hrem : (str.subspanStartingAt (str.begin_ + word.length)).Holds mem rest :=
    h.subspanStartingAt
  have htrimmed := hrem.forEachUntilFalse fun ch ↦ decide (ch = space)
  rw [← hrest] at hrem
  rw [Span.stringNextWord, hfound, Option.bind_eq_bind, Option.bind_some]
  dsimp only [Option.bind_eq_bind]
  rw [htrimmed, Option.bind_some]
  exact ⟨_, rfl, h.subspanEndingAt, hrem.subspanStartingAt⟩

/-- After as many words as there are characters nothing is left. -/
theorem Holds.stringWords (h : str.Holds mem text) {n : ℕ} (hn : text.length ≤ n) :
    ∃ found rem, stringWords mem n str = some (found, rem) ∧ rem.isEmpty = true ∧
      List.Forall₂ (Holds mem) (words text) found := by
  induction n generalizing str text with
  | zero =>
      have hempty : text = [] := List.length_eq_zero_iff.mp (Nat.le_zero.mp hn)
      refine ⟨[], str, rfl, h.isEmpty_iff.mpr hempty, ?_⟩
      rw [hempty]
      exact .nil
  | succ n ih =>
      rw [Span.stringWords]
      by_cases hempty : text = []
      · rw [if_pos (h.isEmpty_iff.mpr hempty)]
        refine ⟨[], str, rfl, h.isEmpty_iff.mpr hempty, ?_⟩
        rw [hempty]
        exact .nil
      rw [if_neg (h.isEmpty_iff.not.mpr hempty)]
      have hfirst := firstWord_stringNextWord text
      obtain ⟨next, hnext, hword, hrem⟩ := h.stringNextWord
      obtain ⟨found, rem, hfound, hdone, hwords⟩ :=
        ih hrem (Nat.le_of_lt_succ ((hfirst.length_lt hempty).trans_le hn))
      refine ⟨next.word :: found, rem, ?_, hdone, ?_⟩
      · rw [hnext, Option.bind_eq_bind, Option.bind_some, hfound]
        rfl
      · rw [hfirst.words_eq hempty]
        exact .cons hword hwords

theorem equalsNext_same {s : ℕ} {c : Byte} (h : mem s = some c) (hc : c ≠ 0) :
    equalsNext mem s c = some (true, s + 1) := by
  rw [equalsNext, h]
  exact congrArg some (if_pos ⟨hc, rfl⟩)

theorem equalsNext_other {s : ℕ} {c ch : Byte} (h : mem s = some c) (hne : c ≠ 0 → c ≠ ch) :
    equalsNext mem s ch = some (false, s) := by
  rw [equalsNext, h]
  exact congrArg some (if_neg fun hsame ↦ hne hsame.1 hsame.2)

/-- The comparison ends where the text or the literal does, or at a difference. -/
theorem walk_equalsNext {p s : ℕ} {cs : Text} (htext : mem.At p text) (hcs : HoldsCstr mem s cs) :
    ∃ e s' c, mem.walk (equalsNext mem) text.length p s = some (e, s') ∧ mem s' = some c ∧
      (c == 0 && e == p + text.length) = Os.stringEqualsCstr text cs := by
  obtain ⟨hchars, hnonzero⟩ := hcs
  induction text generalizing p s cs with
  | nil =>
      cases cs with
      | nil => exact ⟨p, s, 0, rfl, hchars.1, beq_self_eq_true p⟩
      | cons c cs =>
          have hc : (c == 0) = false :=
            beq_eq_false_iff_ne.mpr (List.ne_of_not_mem_cons hnonzero).symm
          refine ⟨p, s, c, rfl, hchars.1, ?_⟩
          rw [hc]
          rfl
  | cons ch text ih =>
      obtain ⟨hch, htext⟩ := htext
      have hshort : (p == p + (text.length + 1)) = false := beq_eq_false_iff_ne.mpr (by omega)
      rw [List.length_cons, Memory.walk, hch, Option.bind_some]
      cases cs with
      | nil =>
          refine ⟨p, s, 0, ?_, hchars.1, ?_⟩
          · rw [equalsNext_other hchars.1 fun hne ↦ absurd rfl hne]
            rfl
          · exact hshort
      | cons c cs =>
          obtain ⟨hc, hchars⟩ := hchars
          have hzero := List.ne_of_not_mem_cons hnonzero
          have hrest := List.not_mem_of_not_mem_cons hnonzero
          rw [Os.stringEqualsCstr]
          by_cases heq : c = ch
          · obtain ⟨e, s', c', hwalk, hc', hequals⟩ := ih htext hchars hrest
            refine ⟨e, s', c', ?_, hc', ?_⟩
            · rw [← heq, equalsNext_same hc (Ne.symm hzero)]
              exact hwalk
            · rw [heq, beq_self_eq_true, Bool.true_and, ← hequals,
                Nat.add_right_comm, Nat.add_assoc]
          · refine ⟨p, s, c, ?_, hc, ?_⟩
            · rw [equalsNext_other hc fun _ ↦ heq]
              rfl
            · rw [hshort, Bool.and_false, beq_eq_false_iff_ne.mpr heq, Bool.false_and]

theorem Holds.stringEqualsCstr (h : str.Holds mem text) {s : ℕ} {cs : Text}
    (hcs : HoldsCstr mem s cs) :
    str.stringEqualsCstr mem s = some (Os.stringEqualsCstr text cs) := by
  obtain ⟨e, s', c, hwalk, hc, hequals⟩ := walk_equalsNext h.elements hcs
  rw [Span.stringEqualsCstr, Span.forEachUntilFalse, h.size, hwalk, Option.bind_eq_bind,
    Option.bind_some]
  dsimp only [Option.bind_eq_bind]
  rw [hc, Option.bind_some, isAtEnd, h.end_eq, hequals]
  rfl

/-- A command line is split into its words, and a word is compared as a whole. -/
theorem splits_and_matches (h : str.Holds mem text) :
    (∃ next word rem, str.stringNextWord mem = some next ∧ next.word.Holds mem word ∧
        next.rem.Holds mem rem ∧ FirstWord text word rem) ∧
      (∀ n, text.length ≤ n → ∃ found rem, stringWords mem n str = some (found, rem) ∧
        rem.isEmpty = true ∧ List.Forall₂ (Holds mem) (words text) found) ∧
      ∀ s cs, HoldsCstr mem s cs →
        ∃ equals, str.stringEqualsCstr mem s = some equals ∧ (equals = true ↔ text = cs) := by
  refine ⟨?_, fun n hn ↦ h.stringWords hn, fun s cs hcs ↦ ?_⟩
  · obtain ⟨next, hnext, hword, hrem⟩ := h.stringNextWord
    exact ⟨next, _, _, hnext, hword, hrem, firstWord_stringNextWord text⟩
  · exact ⟨_, h.stringEqualsCstr hcs, stringEqualsCstr_iff text cs⟩

/-- A command line with two spaces in it, and a literal after it. -/
def giveMemory : Memory Byte := Memory.ofList (cstr "g  it" ++ (cstr "g" ++ [0]))

theorem splits_and_matches_give :
    (∃ next word rem, (ofSize 0 5).stringNextWord giveMemory = some next ∧
        next.word.Holds giveMemory word ∧ next.rem.Holds giveMemory rem ∧
        FirstWord (cstr "g  it") word rem) ∧
      (∀ n, 5 ≤ n → ∃ found rem, stringWords giveMemory n (ofSize 0 5) = some (found, rem) ∧
        rem.isEmpty = true ∧ List.Forall₂ (Holds giveMemory) (words (cstr "g  it")) found) ∧
      ∀ s cs, HoldsCstr giveMemory s cs →
        ∃ equals, (ofSize 0 5).stringEqualsCstr giveMemory s = some equals ∧
          (equals = true ↔ cstr "g  it" = cs) :=
  splits_and_matches (holds_ofSize (Memory.at_ofList [] (cstr "g  it") (cstr "g" ++ [0])))

example : words (cstr " g  it ") = [[], cstr "g", cstr "it"] := by decide

end Span

end TangNano.Os
