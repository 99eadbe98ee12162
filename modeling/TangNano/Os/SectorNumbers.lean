import Mathlib.Data.List.TakeWhile
import TangNano.Os.World

/-!
# The numbers of sectors

`stringToUint32` stops at the characters `'0'` and `'9'`.  It returns the value
of a numeral that is shorter than 2³² only when the numeral has no such
character or no other than `'0'`.
-/

namespace TangNano.Os

def isDigit (ch : Byte) : Bool := 0x30 ≤ ch ∧ ch ≤ 0x39

/-- The digits that `stringToUint32` accepts. -/
def isInnerDigit (ch : Byte) : Bool := 0x30 < ch ∧ ch < 0x39

/-- The value of a numeral after `n`. -/
def decimalFrom (n : ℕ) (str : Text) : ℕ := str.foldl (fun n ch ↦ n * 10 + (ch.toNat - 0x30)) n

def decimal (str : Text) : ℕ := decimalFrom 0 str

/-- The longest prefix of digits. -/
def numeral (str : Text) : Text := str.takeWhile isDigit

/-- The part of the numeral that is accepted. -/
def accepted (str : Text) : Text := str.takeWhile isInnerDigit

/-- The part of the numeral from the first `'0'` or `'9'` on. -/
def refused (str : Text) : Text := (str.dropWhile isInnerDigit).takeWhile isDigit

/-! ## Numerals -/

theorem decimalFrom_append (n : ℕ) (str str' : Text) :
    decimalFrom n (str ++ str') = decimalFrom (decimalFrom n str) str' := List.foldl_append

theorem decimalFrom_eq (n : ℕ) (str : Text) :
    decimalFrom n str = n * 10 ^ str.length + decimal str := by
  induction str using List.reverseRecOn with
  | nil => simp [decimalFrom, decimal]
  | append_singleton str ch ih =>
      rw [decimal, decimalFrom_append, decimalFrom_append, ih, List.length_append]
      change (n * 10 ^ str.length + decimal str) * 10 + (ch.toNat - 0x30) =
        n * 10 ^ (str.length + 1) + (decimal str * 10 + (ch.toNat - 0x30))
      ring

theorem decimal_append (str str' : Text) :
    decimal (str ++ str') = decimal str * 10 ^ str'.length + decimal str' := by
  rw [decimal, decimalFrom_append, decimalFrom_eq]
  rfl

theorem decimal_eq_zero_iff {str : Text} (h : ∀ ch ∈ str, isDigit ch = true) :
    decimal str = 0 ↔ ∀ ch ∈ str, ch = 0x30 := by
  induction str using List.reverseRecOn with
  | nil => simp [decimal, decimalFrom]
  | append_singleton str ch ih =>
      have hch : isDigit ch = true := h ch (by simp)
      have hlow : (0x30 : Byte) ≤ ch := (decide_eq_true_iff.mp hch).1
      have hzero : ch.toNat - 0x30 = 0 ↔ ch = 0x30 := by
        rw [← BitVec.toNat_inj]
        change ch.toNat - 48 = 0 ↔ ch.toNat = 48
        have hle : 48 ≤ ch.toNat := hlow
        omega
      have hsum : decimal (str ++ [ch]) = decimal str * 10 + (ch.toNat - 0x30) := by
        rw [decimal_append]
        simp [decimal, decimalFrom]
      have hsplit : decimal str * 10 + (ch.toNat - 0x30) = 0 ↔
          decimal str = 0 ∧ ch.toNat - 0x30 = 0 := by omega
      rw [hsum, hsplit, ih fun ch' hch' ↦ h ch' (List.mem_append_left _ hch'), hzero,
        List.forall_mem_append]
      simp

theorem isDigit_of_isInnerDigit {ch : Byte} (h : isInnerDigit ch = true) : isDigit ch = true := by
  have hbounds := decide_eq_true_iff.mp h
  exact decide_eq_true ⟨BitVec.le_of_lt hbounds.1, BitVec.le_of_lt hbounds.2⟩

/-- The numeral in two parts. -/
theorem numeral_eq (str : Text) : numeral str = accepted str ++ refused str := by
  have hall : ∀ ch ∈ accepted str, isDigit ch = true := fun ch hch ↦
    isDigit_of_isInnerDigit (List.mem_takeWhile_imp hch)
  have hsplit : accepted str ++ str.dropWhile isInnerDigit = str :=
    List.takeWhile_append_dropWhile
  calc numeral str = (accepted str ++ str.dropWhile isInnerDigit).takeWhile isDigit := by
        rw [hsplit, numeral]
    _ = accepted str ++ refused str := List.takeWhile_append_of_pos hall

/-- The loop computes the value of the accepted digits. -/
theorem stringToUint32Loop_toNat (num : Word) (str : Text) :
    (stringToUint32Loop num str).toNat = decimalFrom num.toNat (accepted str) % 2 ^ 32 := by
  induction str generalizing num with
  | nil => exact (Nat.mod_eq_of_lt num.isLt).symm
  | cons ch str ih =>
      rw [stringToUint32Loop, accepted, List.takeWhile_cons]
      by_cases hch : ch ≤ 0x30 ∨ ch ≥ 0x39
      · have hout : isInnerDigit ch = false := by
          rw [isInnerDigit, decide_eq_false_iff_not]
          rintro ⟨hlow, hhigh⟩
          rcases hch with hle | hge
          · exact absurd hlow (BitVec.not_lt.mpr hle)
          · exact absurd hhigh (BitVec.not_lt.mpr hge)
        rw [if_pos hch, hout]
        exact (Nat.mod_eq_of_lt num.isLt).symm
      · rw [not_or, BitVec.not_le, BitVec.not_le] at hch
        have hin : isInnerDigit ch = true := decide_eq_true hch
        have hstep : (num * 10 + (ch - 0x30).setWidth 32).toNat =
            (num.toNat * 10 + (ch.toNat - 0x30)) % 2 ^ 32 := by
          have hlow : 48 < ch.toNat := hch.1
          bv_omega
        rw [if_neg (by rw [not_or, BitVec.not_le, BitVec.not_le]; exact hch), hin, ih, hstep]
        change decimalFrom _ (accepted str) % 2 ^ 32 =
          decimalFrom (num.toNat * 10 + (ch.toNat - 0x30)) (accepted str) % 2 ^ 32
        rw [decimalFrom_eq, decimalFrom_eq]
        exact Nat.ModEq.add_right _ (Nat.ModEq.mul_right _ (Nat.mod_modEq _ _))

theorem stringToUint32_toNat (str : Text) :
    (stringToUint32 str).toNat = decimal (accepted str) % 2 ^ 32 :=
  stringToUint32Loop_toNat 0 str

/-- The number is right exactly if what is refused makes no difference. -/
theorem stringToUint32_eq_iff (str : Text) :
    (stringToUint32 str).toNat = decimal (numeral str) % 2 ^ 32 ↔
      2 ^ 32 ∣ decimal (accepted str) * (10 ^ (refused str).length - 1) +
        decimal (refused str) := by
  have hpos : 1 ≤ 10 ^ (refused str).length := Nat.one_le_pow _ _ (by decide)
  have hvalue : decimal (numeral str) = decimal (accepted str) +
      (decimal (accepted str) * (10 ^ (refused str).length - 1) + decimal (refused str)) := by
    rw [numeral_eq, decimal_append, Nat.mul_sub_one, ← Nat.add_assoc, Nat.add_sub_of_le]
    exact Nat.le_mul_of_pos_right _ hpos
  rw [stringToUint32_toNat, hvalue]
  change _ ≡ _ [MOD 2 ^ 32] ↔ _
  rw [Nat.modEq_iff_dvd' (Nat.le_add_right _ _), Nat.add_sub_cancel_left]

/-! ## Commands -/

theorem takeWhile_of_forall {p : Byte → Bool} {str : Text} (h : ∀ ch ∈ str, p ch = true) :
    str.takeWhile p = str := by
  rw [← List.append_nil str, List.takeWhile_append_of_pos h, List.takeWhile_nil]

/-- Neither a `'0'` nor a `'9'`, or no other digit than `'0'`. -/
def Plain (n : Text) : Prop := (∀ ch ∈ n, ch ≠ 0x30 ∧ ch ≠ 0x39) ∨ ∀ ch ∈ n, ch = 0x30

/-- The numerals below 2³² that are read as their value. -/
theorem stringToUint32_numeral_iff {str : Text} (hdigits : ∀ ch ∈ str, isDigit ch = true)
    (hlt : decimal str < 2 ^ 32) :
    (stringToUint32 str).toNat = decimal str ↔ Plain str := by
  have hsplit : accepted str ++ refused str = str := by
    rw [← numeral_eq]
    exact takeWhile_of_forall hdigits
  have hvalue : decimal str =
      decimal (accepted str) * 10 ^ (refused str).length + decimal (refused str) := by
    rw [← decimal_append, hsplit]
  have hle : decimal (accepted str) ≤ decimal str := by
    rw [hvalue]
    exact (Nat.le_mul_of_pos_right _ (by positivity)).trans (Nat.le_add_right _ _)
  rw [stringToUint32_toNat, Nat.mod_eq_of_lt (by omega), Plain, ← decimal_eq_zero_iff hdigits]
  constructor
  · intro heq
    by_cases hrefused : refused str = []
    · refine .inl fun ch hch ↦ ?_
      rw [← hsplit, hrefused, List.append_nil] at hch
      have hinner := List.mem_takeWhile_imp hch
      have hbounds := decide_eq_true_iff.mp hinner
      exact ⟨(BitVec.ne_of_lt hbounds.1).symm, BitVec.ne_of_lt hbounds.2⟩
    · have hpow : 10 ≤ 10 ^ (refused str).length :=
        Nat.le_self_pow (List.length_pos_iff.mpr hrefused).ne' 10
      have hmul := Nat.mul_le_mul_left (decimal (accepted str)) hpow
      exact .inr (by omega)
  · rintro (hinner | hzero)
    · have hall : ∀ ch ∈ str, isInnerDigit ch = true := by
        intro ch hch
        have hbounds := decide_eq_true_iff.mp (hdigits ch hch)
        obtain ⟨hlow, hhigh⟩ := hinner ch hch
        exact decide_eq_true
          ⟨BitVec.lt_of_le_ne hbounds.1 hlow.symm, BitVec.lt_of_le_ne hbounds.2 hhigh⟩
      rw [accepted, takeWhile_of_forall hall]
    · omega

/-- A command line: a command, spaces, a word and what follows it. -/
def commandLine (cmd : Text) (spaces : ℕ) (word rest : Text) : Text :=
  cmd ++ (List.replicate (spaces + 1) space ++ (word ++ rest))

theorem space_notMem_of_digits {str : Text} (h : ∀ ch ∈ str, isDigit ch = true) : space ∉ str :=
  fun hmem ↦ absurd (h space hmem) (by decide)

theorem stringNextWord_commandLine {cmd : Text} (hcmd : space ∉ cmd) (spaces : ℕ) {word : Text}
    (hword : space ∉ word) (hne : word ≠ []) (rest : Text) :
    stringNextWord (commandLine cmd spaces word rest) = ⟨cmd, word ++ rest⟩ := by
  have hspaces : ∀ ch ∈ List.replicate (spaces + 1) space, decide (ch = space) = true := by
    intro ch hch
    exact decide_eq_true (List.eq_of_mem_replicate hch)
  have hdrop : (word ++ rest).dropWhile (fun ch ↦ decide (ch = space)) = word ++ rest := by
    cases word with
    | nil => exact absurd rfl hne
    | cons ch word =>
        have hch : decide (ch = space) = false := by
          rw [decide_eq_false_iff_not]
          rintro rfl
          exact hword List.mem_cons_self
        rw [List.cons_append, List.dropWhile_cons, hch]
        rfl
  rw [commandLine, stringNextWord_append hcmd (.inr rfl),
    List.dropWhile_append_of_pos hspaces, hdrop]

section Accesses

variable (p : Platform) (eid : Id) (os : State) (spaces : ℕ) {n rest : Text}

theorem handleInput_sdr (hdigits : ∀ ch ∈ n, isDigit ch = true) (hne : n ≠ [])
    (hrest : rest = [] ∨ rest.head? = some space) :
    (handleInput p eid (commandLine (cstr "sdr") spaces n rest) os).map State.accesses =
      some (os.accesses ++ [.read (stringToUint32 n)]) := by
  have hline := stringNextWord_commandLine (show space ∉ cstr "sdr" by decide) spaces
    (space_notMem_of_digits hdigits) hne rest
  have hargs := stringNextWord_append (space_notMem_of_digits hdigits) hrest
  have hdispatch : handleInput p eid (commandLine (cstr "sdr") spaces n rest) os =
      some (actionSdcardRead (n ++ rest) os) := by
    rw [handleInput, hline]
    rfl
  rw [hdispatch, Option.map_some, actionSdcardRead, hargs, if_neg (by simpa using hne)]
  rfl

theorem handleInput_sdw (hdigits : ∀ ch ∈ n, isDigit ch = true) (hne : n ≠ [])
    (hrest : rest = [] ∨ rest.head? = some space) (hlength : rest.length ≤ sectorSize) :
    ∃ buf, (handleInput p eid (commandLine (cstr "sdw") spaces n rest) os).map State.accesses =
      some (os.accesses ++ [.write (stringToUint32 n) buf]) := by
  have hline := stringNextWord_commandLine (show space ∉ cstr "sdw" by decide) spaces
    (space_notMem_of_digits hdigits) hne rest
  have hargs := stringNextWord_append (space_notMem_of_digits hdigits) hrest
  have hdispatch : handleInput p eid (commandLine (cstr "sdw") spaces n rest) os =
      some (actionSdcardWrite (n ++ rest) os) := by
    rw [handleInput, hline]
    rfl
  have hle := (List.dropWhile_sublist (fun ch ↦ decide (ch = space)) (l := rest)).length_le
  have hfits : ¬ (rest.dropWhile fun ch ↦ decide (ch = space)).length > sectorSize := by omega
  rw [hdispatch, Option.map_some, actionSdcardWrite, hargs, if_neg (by simpa using hne),
    if_neg hfits]
  exact ⟨_, rfl⟩

end Accesses

theorem some_append_singleton_inj {l : List Access} {a b : Access} :
    some (l ++ [a]) = some (l ++ [b]) ↔ a = b := by
  rw [Option.some_inj, List.append_cancel_left_eq, List.singleton_inj]

/-- `string_to_uint32` on any string, and the sectors that `sdr` and `sdw` access. -/
theorem sector_numbers (p : Platform) :
    (∀ str, (stringToUint32 str).toNat = decimal (numeral str) % 2 ^ 32 ↔
      2 ^ 32 ∣ decimal (accepted str) * (10 ^ (refused str).length - 1) + decimal (refused str)) ∧
    ∀ (eid : Id) (os : State) (spaces : ℕ) (n rest : Text), (∀ ch ∈ n, isDigit ch = true) →
      n ≠ [] → decimal n < 2 ^ 32 → (rest = [] ∨ rest.head? = some space) →
      ((handleInput p eid (commandLine (cstr "sdr") spaces n rest) os).map State.accesses =
          some (os.accesses ++ [.read (BitVec.ofNat 32 (decimal n))]) ↔ Plain n) ∧
      ((commandLine (cstr "sdw") spaces n rest).length < commandBufferSize →
        ((∃ buf,
          (handleInput p eid (commandLine (cstr "sdw") spaces n rest) os).map State.accesses =
            some (os.accesses ++ [.write (BitVec.ofNat 32 (decimal n)) buf])) ↔ Plain n)) := by
  refine ⟨stringToUint32_eq_iff, ?_⟩
  intro eid os spaces n rest hdigits hne hlt hrest
  have hnumber : stringToUint32 n = BitVec.ofNat 32 (decimal n) ↔ Plain n := by
    rw [← stringToUint32_numeral_iff hdigits hlt, ← BitVec.toNat_inj, BitVec.toNat_ofNat,
      Nat.mod_eq_of_lt hlt]
  constructor
  · rw [handleInput_sdr p eid os spaces hdigits hne hrest, some_append_singleton_inj,
      Access.read.injEq, hnumber]
  · intro hlength
    have hfits : rest.length ≤ sectorSize := by
      simp only [commandLine, List.length_append, commandBufferSize] at hlength
      unfold sectorSize
      omega
    obtain ⟨buf, hwrite⟩ := handleInput_sdw p eid os spaces hdigits hne hrest hfits
    simp only [hwrite, some_append_singleton_inj, Access.write.injEq, hnumber]
    constructor
    · rintro ⟨_, hplain, -⟩
      exact hplain
    · intro hplain
      exact ⟨buf, hplain, rfl⟩

/-- A system without a world. -/
def bare : State where
  world := ⟨fun _ ↦ ⟨none⟩, 0, fun _ ↦ ⟨none, 0, ⟨fun _ ↦ 0, 0⟩⟩, 0,
    fun _ ↦ ⟨⟨fun _ ↦ default, 0⟩, ⟨fun _ ↦ 0, 0⟩, ⟨fun _ ↦ 0, 0⟩⟩, 0⟩
  output := []
  card := fun _ ↦ []
  accesses := []
  exited := false

/-- `sdr 12` -/
theorem sector_numbers_twelve :
    (handleInput ⟨[], 6⟩ 1 (commandLine (cstr "sdr") 0 (cstr "12") []) bare).map State.accesses =
      some [.read 12] :=
  (((sector_numbers ⟨[], 6⟩).2 1 bare 0 (cstr "12") [] (by decide) (by decide) (by decide)
    (.inl rfl)).1).mpr (.inl (by decide))

def Access.sector : Access → Word
  | .read sector => sector
  | .write sector _ => sector

/-- `sdw 10 x` writes sector 1. -/
theorem sector_numbers_ten :
    (stringToUint32 (cstr "10")).toNat ≠ decimal (numeral (cstr "10")) % 2 ^ 32 ∧
      (handleInput ⟨[], 6⟩ 1 (cstr "sdw 10 x") bare).map
        (fun os ↦ os.accesses.map Access.sector) = some [1] := by
  decide

end TangNano.Os
