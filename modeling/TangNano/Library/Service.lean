import Mathlib.Tactic

/-!
# Services

A service answers requests one after the other.  A device refines it if each
request ends, given enough fuel, with the answer of the service and in a related
state.  The service that returns for each block what has been written last is
a store.
-/

namespace TangNano.Service

variable {κ ρ σ τ : Type*}

/-- What several requests return and leave. -/
def perform (step : κ → τ → Option ρ × τ) : List κ → τ → List ρ × τ
  | [], s => ([], s)
  | c :: cs, s =>
      ((step c s).1.toList ++ (perform step cs (step c s).2).1,
        (perform step cs (step c s).2).2)

theorem perform_append (step : κ → τ → Option ρ × τ) (cs cs' : List κ) (s : τ) :
    perform step (cs ++ cs') s =
      ((perform step cs s).1 ++ (perform step cs' (perform step cs s).2).1,
        (perform step cs' (perform step cs s).2).2) := by
  induction cs generalizing s with
  | nil => rfl
  | cons c cs ih => rw [List.cons_append, perform, ih, perform, List.append_assoc]

def serve (exec : κ → σ → Option (Option ρ × σ)) : List κ → σ → Option (List ρ × σ)
  | [], x => some ([], x)
  | c :: cs, x => do
      let (r, y) ← exec c x
      let (l, z) ← serve exec cs y
      some (r.toList ++ l, z)

/-- A device each request of which refines the service refines it. -/
theorem serve_refines {f : κ → τ → Option ρ × τ} {g : ℕ → κ → σ → Option (Option ρ × σ)}
    {R : σ → τ → Prop} {V : κ → Prop}
    (hexec : ∀ c x s, V c → R x s → ∃ y n,
      (∀ fuel ≥ n, g fuel c x = some ((f c s).1, y)) ∧ R y (f c s).2)
    {cs : List κ} (hcs : ∀ c ∈ cs, V c) {x : σ} {s : τ} (h : R x s) :
    ∃ y n, (∀ fuel ≥ n, serve (g fuel) cs x = some ((perform f cs s).1, y)) ∧
      R y (perform f cs s).2 := by
  induction cs generalizing x s with
  | nil => exact ⟨x, 0, fun _ _ ↦ rfl, h⟩
  | cons c cs ih =>
      obtain ⟨y, n, hcall, hy⟩ := hexec c x s (hcs c List.mem_cons_self) h
      obtain ⟨z, m, hrest, hz⟩ := ih (fun c hc ↦ hcs c (List.mem_cons_of_mem _ hc)) hy
      refine ⟨z, max n m, ?_, hz⟩
      intro fuel hfuel
      have hfirst := hcall fuel (le_of_max_le_left hfuel)
      have hlast := hrest fuel (le_of_max_le_right hfuel)
      simp only [serve, perform, hfirst, hlast, Option.bind_eq_bind, Option.bind_some]

/-! ## Stores -/

variable {ι β : Type*}

/-- A read is given the old contents of the memory for its result. -/
inductive Call (ι β : Type*)
  | read (i : ι) (old : β)
  | write (i : ι) (b : β)

def Call.block : Call ι β → ι
  | .read i _ => i
  | .write i _ => i

/-- A read returns the block, a write replaces it. -/
def store [DecidableEq ι] : Call ι β → (ι → β) → Option β × (ι → β)
  | .read i _, s => (some (s i), s)
  | .write i b, s => (none, Function.update s i b)

end TangNano.Service
