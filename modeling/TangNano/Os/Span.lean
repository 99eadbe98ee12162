import TangNano.Library.Pointer

/-!
# Spans

Class `span`: two pointers into a memory.  A position is a pointer, and one that
was found in a span is used to cut another.
-/

namespace TangNano.Os

/-- The first pointer is not after the second. -/
structure Span where
  begin_ : ℕ
  end_ : ℕ
  begin_le : begin_ ≤ end_

namespace Span

section Functions

variable {α σ : Type*}

/-- The private constructor with `safe_span`. -/
def ofPointers (begin_ end_ : ℕ) : Span :=
  if h : begin_ > end_ then ⟨begin_, begin_, Nat.le_refl _⟩ else ⟨begin_, end_, Nat.not_lt.mp h⟩

def ofSize (begin_ size : ℕ) : Span := ⟨begin_, begin_ + size, Nat.le_add_right _ _⟩

def size (s : Span) : ℕ := s.end_ - s.begin_

def isAtEnd (t : ℕ) (s : Span) : Bool := t == s.end_

def isEmpty (s : Span) : Bool := s.begin_ == s.end_

def subspanStartingAt (pos : ℕ) (s : Span) : Span := ofPointers pos s.end_

def subspanEndingAt (pos : ℕ) (s : Span) : Span := ofPointers s.begin_ pos

/-- What `f` captures is the state that goes with it. -/
def forEachUntilFalse (mem : Memory α) (f : σ → α → Option (Bool × σ)) (start : σ) (s : Span) :
    Option (ℕ × σ) := mem.walk f s.size s.begin_ start

/-! ## What a span holds -/

/-- The elements of a span are those of the sequence. -/
structure Holds (mem : Memory α) (xs : List α) (s : Span) : Prop where
  elements : mem.At s.begin_ xs
  end_eq : s.end_ = s.begin_ + xs.length

variable {mem : Memory α} {xs before after : List α} {s : Span}

theorem holds_ofSize {p : ℕ} (h : mem.At p xs) : (ofSize p xs.length).Holds mem xs := ⟨h, rfl⟩

theorem Holds.size (h : s.Holds mem xs) : s.size = xs.length := by
  rw [Span.size, h.end_eq, Nat.add_sub_cancel_left]

theorem Holds.isEmpty_iff (h : s.Holds mem xs) : s.isEmpty = true ↔ xs = [] := by
  rw [isEmpty, beq_iff_eq, h.end_eq, ← List.length_eq_zero_iff]
  omega

/-- A span is cut where the second part of the sequence begins. -/
theorem Holds.subspanStartingAt (h : s.Holds mem (before ++ after)) :
    (s.subspanStartingAt (s.begin_ + before.length)).Holds mem after := by
  have hend := h.end_eq
  have hle : ¬ s.begin_ + before.length > s.end_ := by
    rw [hend, List.length_append]
    omega
  obtain ⟨-, hafter⟩ := Memory.at_append.mp h.elements
  rw [Span.subspanStartingAt, ofPointers, dif_neg hle]
  refine ⟨hafter, hend.trans ?_⟩
  rw [List.length_append, Nat.add_assoc]

theorem Holds.subspanEndingAt (h : s.Holds mem (before ++ after)) :
    (s.subspanEndingAt (s.begin_ + before.length)).Holds mem before := by
  have hle : ¬ s.begin_ > s.begin_ + before.length := Nat.not_lt.mpr (Nat.le_add_right _ _)
  rw [Span.subspanEndingAt, ofPointers, dif_neg hle]
  exact ⟨(Memory.at_append.mp h.elements).1, rfl⟩

/-- The position of the first element that `f` refuses. -/
theorem Holds.forEachUntilFalse (h : s.Holds mem xs) (f : α → Bool) :
    s.forEachUntilFalse mem (fun _ x ↦ some (f x, ())) () =
      some (s.begin_ + (xs.takeWhile f).length, ()) := by
  rw [Span.forEachUntilFalse, h.size]
  exact Memory.walk_of_at f h.elements

end Functions

end Span

end TangNano.Os
