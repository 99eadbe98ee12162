import TangNano.Library.Bytes

/-!
# Strings of the operating system

A `string` is the characters between its two pointers, a `cstr` the characters
before its terminator.
-/

namespace TangNano.Os

abbrev Text := List Byte

/-- The characters of a literal. -/
def cstr (s : String) : Text := s.toList.map fun c ↦ BitVec.ofNat 8 c.toNat

def space : Byte := 0x20

/-- The size of the command buffer, the last place of which stays free. -/
def commandBufferSize : ℕ := 160

theorem commandBufferSize_pos : 0 < commandBufferSize := by decide

def stringEqualsCstr : Text → Text → Bool
  | [], s => s.isEmpty
  | _ :: _, [] => false
  | ch :: str, c :: s => c == ch && stringEqualsCstr str s

/-- A word and what follows the spaces after it. -/
structure StringNextWordReturn where
  word : Text
  rem : Text

def stringNextWord (str : Text) : StringNextWordReturn where
  word := str.takeWhile (· ≠ space)
  rem := (str.dropWhile (· ≠ space)).dropWhile (· = space)

/-- The characters `'0'` and `'9'` themselves end the number. -/
def stringToUint32Loop (num : Word) : Text → Word
  | [] => num
  | ch :: str =>
      if ch ≤ 0x30 ∨ ch ≥ 0x39 then num
      else stringToUint32Loop (num * 10 + (ch - 0x30).setWidth 32) str

def stringToUint32 (str : Text) : Word := stringToUint32Loop 0 str

theorem stringEqualsCstr_iff (str s : Text) : stringEqualsCstr str s = true ↔ str = s := by
  induction str generalizing s with
  | nil => cases s <;> simp [stringEqualsCstr]
  | cons ch str ih =>
      cases s with
      | nil => simp [stringEqualsCstr]
      | cons c s =>
          rw [stringEqualsCstr, Bool.and_eq_true_iff, beq_iff_eq, ih, List.cons.injEq]
          exact and_congr_left' eq_comm

/-- The first word ends at a space. -/
theorem stringNextWord_append {word rest : Text} (hword : space ∉ word)
    (hrest : rest = [] ∨ rest.head? = some space) :
    stringNextWord (word ++ rest) = ⟨word, rest.dropWhile (· = space)⟩ := by
  have hall : ∀ ch ∈ word, decide (ch ≠ space) = true := by
    intro ch hch
    rw [decide_eq_true_iff]
    rintro rfl
    exact hword hch
  have htake : rest.takeWhile (fun ch ↦ decide (ch ≠ space)) = [] := by
    rcases hrest with rfl | hhead
    · rfl
    · cases rest with
      | nil => rfl
      | cons ch rest =>
          obtain rfl := Option.some.inj hhead
          rfl
  have hdrop : rest.dropWhile (fun ch ↦ decide (ch ≠ space)) = rest := by
    have hsplit := List.takeWhile_append_dropWhile (p := fun ch ↦ decide (ch ≠ space)) (l := rest)
    rwa [htake, List.nil_append] at hsplit
  rw [stringNextWord, List.takeWhile_append_of_pos hall, List.dropWhile_append_of_pos hall, htake,
    hdrop, List.append_nil]

end TangNano.Os
