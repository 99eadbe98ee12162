import Mathlib.Data.List.Basic
import Mathlib.Data.List.Range
import Mathlib.Data.List.Nodup
import Mathlib.Data.List.Perm.Subperm

/-!
# Mailboxes for one value

In every cycle a value may arrive and the mailbox may be read.  A read empties
the mailbox, and an arrival in the same cycle fills it again; an arrival
replaces what has not been read.
-/

namespace TangNano.Mailbox

variable {α : Type*} (arrives : ℕ → Option α) (reads : ℕ → Prop) [DecidablePred reads]

/-- What is in the mailbox in a cycle. -/
def held : ℕ → Option α
  | 0 => none
  | n + 1 => (arrives n).or (if reads n then none else held n)

/-- The cycles before cycle `n` in which a value arrives. -/
def arrivals (n : ℕ) : List ℕ := (List.range n).filter fun k ↦ (arrives k).isSome

/-- What the reads before cycle `n` return. -/
def handed (n : ℕ) : List α :=
  (List.range n).filterMap fun k ↦ if reads k then held arrives reads k else none

variable {arrives reads}

theorem mem_arrivals {n k : ℕ} : k ∈ arrivals arrives n ↔ k < n ∧ (arrives k).isSome := by
  rw [arrivals, List.mem_filter, List.mem_range]

theorem nodup_arrivals (n : ℕ) : (arrivals arrives n).Nodup := List.nodup_range.filter _

theorem arrivals_succ (n : ℕ) :
    arrivals arrives (n + 1) = arrivals arrives n ++ if (arrives n).isSome then [n] else [] := by
  rw [arrivals, List.range_succ, List.filter_append, List.filter_singleton, arrivals]
  cases (arrives n).isSome <;> rfl

theorem handed_succ (n : ℕ) :
    handed arrives reads (n + 1) = handed arrives reads n ++
      if reads n then (held arrives reads n).toList else [] := by
  rw [handed, List.range_succ, List.filterMap_append, List.filterMap_cons, List.filterMap_nil]
  congr 1
  by_cases h : reads n
  · rw [if_pos h, if_pos h]
    cases held arrives reads n <;> rfl
  · rw [if_neg h, if_neg h]

variable (arrives reads)

/-- The arrivals that have been handed over and the one, if any, that waits. -/
structure Account (n : ℕ) (taken pending : List ℕ) : Prop where
  sublist : (taken ++ pending).Sublist (arrivals arrives n)
  handed : taken.map arrives = (handed arrives reads n).map some
  held : pending.map arrives = (held arrives reads n).toList.map some
  replaced : ∀ a ∈ arrivals arrives n, a ∉ taken → a ∉ pending → ∃ c ∈ arrivals arrives n, a < c
  missing : ∀ a ∈ arrivals arrives n, a ∉ taken → ∀ m, a < m → m < n → reads m →
    ∃ c ∈ arrivals arrives n, a < c ∧ c < m

variable {arrives reads}

/-- After the read of a cycle, if there is one, a value may arrive. -/
theorem Account.arrive {n : ℕ} {taken pending taken' waiting : List ℕ}
    (h : Account arrives reads n taken pending) (hsplit : taken' ++ waiting = taken ++ pending)
    (htaken : ∀ a ∈ taken, a ∈ taken') (hread : reads n → waiting = [])
    (hhanded : taken'.map arrives = (Mailbox.handed arrives reads (n + 1)).map some)
    (hheld : waiting.map arrives =
      (if reads n then none else Mailbox.held arrives reads n).toList.map some) :
    ∃ pending', Account arrives reads (n + 1) taken' pending' := by
  have hreplaced : ∀ a ∈ arrivals arrives n, a ∉ taken' → a ∉ waiting →
      ∃ c ∈ arrivals arrives n, a < c := by
    intro a ha htaken' hwaiting
    have hnot : a ∉ taken ++ pending := by
      rw [← hsplit, List.mem_append]
      exact not_or.mpr ⟨htaken', hwaiting⟩
    rw [List.mem_append, not_or] at hnot
    exact h.replaced a ha hnot.1 hnot.2
  have hmissing : ∀ a ∈ arrivals arrives n, a ∉ taken' → ∀ m, a < m → m < n + 1 → reads m →
      ∃ c ∈ arrivals arrives n, a < c ∧ c < m := by
    intro a ha htaken' m ham hm hreads
    rcases Nat.lt_succ_iff_lt_or_eq.mp hm with hlt | rfl
    · exact h.missing a ha (fun hmem ↦ htaken' (htaken a hmem)) m ham hlt hreads
    · obtain ⟨c, hc, hac⟩ := hreplaced a ha htaken' (by rw [hread hreads]; exact List.not_mem_nil)
      exact ⟨c, hc, hac, (mem_arrivals.mp hc).1⟩
  have hsub : ∀ c ∈ arrivals arrives n, c ∈ arrivals arrives (n + 1) := by
    intro c hc
    rw [arrivals_succ]
    exact List.mem_append_left _ hc
  have hearlier : ∀ a ∈ arrivals arrives (n + 1), a ≠ n → a ∈ arrivals arrives n := by
    intro a ha hne
    obtain ⟨hlt, hsome⟩ := mem_arrivals.mp ha
    exact mem_arrivals.mpr ⟨by omega, hsome⟩
  have hmissing' : ∀ a ∈ arrivals arrives (n + 1), a ∉ taken' → ∀ m, a < m → m < n + 1 →
      reads m → ∃ c ∈ arrivals arrives (n + 1), a < c ∧ c < m := by
    intro a ha htaken' m ham hm hreads
    obtain ⟨c, hc, hlt⟩ := hmissing a (hearlier a ha (by omega)) htaken' m ham hm hreads
    exact ⟨c, hsub c hc, hlt⟩
  cases harrives : arrives n with
  | none =>
      refine ⟨waiting, ?_, hhanded, ?_, ?_, hmissing'⟩
      · rw [hsplit, arrivals_succ, harrives]
        exact h.sublist.trans (List.sublist_append_left _ _)
      · rw [hheld, Mailbox.held, harrives, Option.none_or]
      · intro a ha htaken' hwaiting
        have hne : a ≠ n := by
          rintro rfl
          have hsome := (mem_arrivals.mp ha).2
          rw [harrives] at hsome
          exact absurd hsome Bool.false_ne_true
        obtain ⟨c, hc, hac⟩ := hreplaced a (hearlier a ha hne) htaken' hwaiting
        exact ⟨c, hsub c hc, hac⟩
  | some v =>
      refine ⟨[n], ?_, hhanded, ?_, ?_, hmissing'⟩
      · rw [arrivals_succ, harrives]
        refine List.Sublist.append ?_ (List.Sublist.refl _)
        have hsub' := List.sublist_append_left taken' waiting
        rw [hsplit] at hsub'
        exact hsub'.trans h.sublist
      · rw [Mailbox.held, harrives, Option.some_or, List.map_singleton, harrives]
        rfl
      · intro a ha _ hne
        have hlt := (mem_arrivals.mp ha).1
        rw [List.mem_singleton] at hne
        refine ⟨n, mem_arrivals.mpr ⟨Nat.lt_succ_self n, ?_⟩, by omega⟩
        rw [harrives]
        rfl

variable (arrives reads)

theorem exists_account (n : ℕ) : ∃ taken pending, Account arrives reads n taken pending := by
  induction n with
  | zero => exact ⟨[], [], List.Sublist.refl _, rfl, rfl,
      List.forall_mem_nil _, List.forall_mem_nil _⟩
  | succ n ih =>
      obtain ⟨taken, pending, h⟩ := ih
      by_cases hread : reads n
      · refine ⟨taken ++ pending, h.arrive (List.append_nil _) ?_ (fun _ ↦ rfl) ?_ ?_⟩
        · exact fun a ha ↦ List.mem_append_left _ ha
        · rw [List.map_append, h.handed, h.held, handed_succ, if_pos hread, List.map_append]
        · rw [if_pos hread]
          rfl
      · refine ⟨taken, h.arrive rfl (fun a ha ↦ ha) (fun hr ↦ absurd hr hread) ?_ ?_⟩
        · rw [h.handed, handed_succ, if_neg hread, List.append_nil]
        · rw [if_neg hread]
          exact h.held

/-- Values are handed over in the order in which they arrive and each at most
once.  One that is not has been replaced before it could be read.  If each one is
read in time, all are handed over. -/
theorem hands_over (n : ℕ) :
    ∃ taken : List ℕ, taken.Sublist (arrivals arrives n) ∧
      taken.map arrives = (handed arrives reads n).map some ∧
      (∀ a ∈ arrivals arrives n, a ∉ taken → ∀ m, a < m → m < n → reads m →
        ∃ c ∈ arrivals arrives n, a < c ∧ c < m) ∧
      ((∀ a ∈ arrivals arrives n, ∃ m, a < m ∧ m < n ∧ reads m ∧
        ∀ c ∈ arrivals arrives n, a < c → m ≤ c) → taken = arrivals arrives n) := by
  obtain ⟨taken, pending, h⟩ := exists_account arrives reads n
  have hsub := (List.sublist_append_left taken pending).trans h.sublist
  refine ⟨taken, hsub, h.handed, h.missing, fun hall ↦ ?_⟩
  refine hsub.eq_of_length_le ?_
  refine ((nodup_arrivals n).subperm ?_).length_le
  intro a ha
  by_contra htaken
  obtain ⟨m, ham, hm, hreads, hlast⟩ := hall a ha
  obtain ⟨c, hc, hac, hcm⟩ := h.missing a ha htaken m ham hm hreads
  exact absurd (hlast c hc hac) (Nat.not_le.mpr hcm)

/-! ## Reads that come in time -/

/-- Between two arrivals there is a read. -/
def InTime : Prop :=
  ∀ a c, (arrives a).isSome → (arrives c).isSome → a < c → ∃ m, a < m ∧ m ≤ c ∧ reads m

variable {arrives reads}

/-- What waits has arrived and not been read since. -/
theorem exists_of_held {n : ℕ} {v : α} (h : held arrives reads n = some v) :
    ∃ a < n, arrives a = some v ∧ ∀ m, a < m → m < n → ¬ reads m := by
  induction n with
  | zero => cases h
  | succ n ih =>
      cases harrives : arrives n with
      | some w =>
          rw [held, harrives, Option.some_or] at h
          exact ⟨n, Nat.lt_succ_self n, harrives.trans h, fun m hm hlt ↦ by omega⟩
      | none =>
          rw [held, harrives, Option.none_or] at h
          by_cases hread : reads n
          · rw [if_pos hread] at h
            cases h
          · rw [if_neg hread] at h
            obtain ⟨a, ha, hv, hnone⟩ := ih h
            refine ⟨a, by omega, hv, fun m hm hlt ↦ ?_⟩
            rcases Nat.lt_succ_iff_lt_or_eq.mp hlt with hless | rfl
            · exact hnone m hm hless
            · exact hread

/-- Then nothing is replaced: what has not been handed over still waits. -/
theorem InTime.arrived (h : InTime arrives reads) (n : ℕ) :
    (List.range n).filterMap arrives = handed arrives reads n ++ (held arrives reads n).toList := by
  induction n with
  | zero => rfl
  | succ n ih =>
      rw [List.range_succ, List.filterMap_append, ih, handed_succ, held, List.append_assoc,
        List.append_assoc]
      congr 1
      by_cases hread : reads n
      · rw [if_pos hread, if_pos hread]
        cases harrives : arrives n <;> simp [harrives]
      · rw [if_neg hread, if_neg hread]
        cases harrives : arrives n with
        | none => simp [harrives]
        | some v =>
            cases hheld : held arrives reads n with
            | none => simp [harrives]
            | some w =>
                obtain ⟨a, ha, hw, hnone⟩ := exists_of_held hheld
                obtain ⟨m, ham, hm, hreads⟩ := h a n (by rw [hw]; rfl) (by rw [harrives]; rfl) ha
                rcases Nat.lt_or_eq_of_le hm with hlt | rfl
                · exact absurd hreads (hnone m ham hlt)
                · exact absurd hreads hread

/-- A read hands over what has arrived before it. -/
theorem InTime.read (h : InTime arrives reads) {n : ℕ} (hread : reads n) :
    handed arrives reads (n + 1) = (List.range n).filterMap arrives := by
  rw [h.arrived, handed_succ, if_pos hread]

end TangNano.Mailbox
