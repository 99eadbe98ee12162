import Mathlib.Tactic

/-!
# Clocked machines

A synchronous circuit is a function of its inputs and its registers.  Driven
by one input per clock edge it visits a sequence of states; an invariant that
relates the registers to the input applied to them is carried along the whole
sequence.
-/

namespace TangNano.Clocked

variable {σ ι : Type*}

/-- The registers after `n` clock edges. -/
def state (step : ι → σ → σ) (start : σ) (input : ℕ → ι) : ℕ → σ
  | 0 => start
  | n + 1 => step (input n) (state step start input n)

@[simp] theorem state_zero (step : ι → σ → σ) (start : σ) (input : ℕ → ι) :
    state step start input 0 = start := rfl

theorem state_succ (step : ι → σ → σ) (start : σ) (input : ℕ → ι) (n : ℕ) :
    state step start input (n + 1) = step (input n) (state step start input n) := rfl

/-- A run continues from the state it has reached. -/
theorem state_add (step : ι → σ → σ) (start : σ) (input : ℕ → ι) (m n : ℕ) :
    state step start input (m + n) =
      state step (state step start input m) (fun k ↦ input (m + k)) n := by
  induction n with
  | zero => rfl
  | succ n ih => rw [← Nat.add_assoc, state_succ, ih, state_succ]

/-- An invariant of registers and applied input that every edge re-establishes
for the next input holds along the run. -/
theorem invariant (step : ι → σ → σ) (start : σ) (input : ℕ → ι)
    (Inv : ι → σ → Prop) (n : ℕ) (hstart : Inv (input 0) start)
    (hstep : ∀ m < n, Inv (input m) (state step start input m) →
      Inv (input (m + 1)) (step (input m) (state step start input m))) :
    Inv (input n) (state step start input n) := by
  induction n with
  | zero => exact hstart
  | succ n ih =>
      have hn := ih fun m hm ↦ hstep m (Nat.lt_succ_of_lt hm)
      exact hstep n (Nat.lt_succ_self n) hn

/-- What waits until an event that keeps coming is still there when it comes. -/
theorem exists_event {P Q : ℕ → Prop} {t : ℕ} (hP : P t)
    (hwait : ∀ u ≥ t, P u → ¬ Q u → P (u + 1)) (hfair : ∀ n, ∃ u ≥ n, Q u) :
    ∃ u ≥ t, P u ∧ Q u := by
  obtain ⟨u, hu, hQ⟩ := hfair t
  obtain ⟨d, rfl⟩ := Nat.exists_eq_add_of_le hu
  induction d generalizing t with
  | zero => exact ⟨t, le_rfl, hP, hQ⟩
  | succ d ih =>
      by_cases hnow : Q t
      · exact ⟨t, le_rfl, hP, hnow⟩
      · have hnext : P (t + 1) := hwait t le_rfl hP hnow
        have heq : t + (d + 1) = t + 1 + d := by omega
        obtain ⟨v, hv, hPQ⟩ := ih hnext (fun v hv ↦ hwait v (by omega)) (by omega)
          (by rw [← heq]; exact hQ)
        exact ⟨v, by omega, hPQ⟩

/-- A measure that falls whenever an event comes and never rises does not let
the event come for ever. -/
theorem not_always_decreasing {Q : ℕ → Prop} {μ : ℕ → ℕ}
    (hstep : ∀ n, μ (n + 1) < μ n ∨ ¬ Q n ∧ μ (n + 1) = μ n)
    (hfair : ∀ n, ∃ u ≥ n, Q u) : False := by
  have hanti : Antitone μ := by
    apply antitone_nat_of_succ_le
    intro n
    rcases hstep n with hless | ⟨-, hsame⟩
    · exact hless.le
    · exact hsame.le
  have hbound : ∀ b n, ¬ μ n < b := by
    intro b
    induction b with
    | zero => exact fun n ↦ Nat.not_lt_zero _
    | succ b ih =>
        intro n hn
        obtain ⟨u, hu, hQ⟩ := hfair n
        have hle : μ u ≤ μ n := hanti hu
        rcases hstep u with hless | ⟨hnot, -⟩
        · exact ih (u + 1) (by omega)
        · exact hnot hQ
  exact hbound (μ 0 + 1) 0 (Nat.lt_succ_self _)

/-- What lasts only while a positive measure falls ends within the measure. -/
theorem ends_within {P : ℕ → Prop} {μ : ℕ → ℕ} (hpos : ∀ n, P n → 0 < μ n)
    (hstep : ∀ n, P n → P (n + 1) → μ (n + 1) < μ n) (n : ℕ) :
    ∃ m ≤ μ n, ¬ P (n + m) ∧ ∀ k < m, P (n + k) := by
  induction h : μ n using Nat.strong_induction_on generalizing n with
  | _ b ih =>
      subst h
      by_cases hnow : P n
      · by_cases hnext : P (n + 1)
        · have hless := hstep n hnow hnext
          obtain ⟨m, hm, hend, hbetween⟩ := ih (μ (n + 1)) hless (n + 1) rfl
          refine ⟨m + 1, by omega, ?_, ?_⟩
          · rwa [Nat.add_comm m 1, ← Nat.add_assoc]
          · intro k hk
            cases k with
            | zero => exact hnow
            | succ k =>
                rw [Nat.add_comm k 1, ← Nat.add_assoc]
                exact hbetween k (by omega)
        · refine ⟨1, hpos n hnow, hnext, ?_⟩
          intro k hk
          obtain rfl : k = 0 := by omega
          exact hnow
      · exact ⟨0, Nat.zero_le _, hnow, fun k hk ↦ absurd hk (Nat.not_lt_zero k)⟩

/-! ## Free-running machines -/

/-- The machine gets from one state to another in at least one step and every
state on the way is guarded. -/
inductive Via (f : σ → σ) (G : σ → Prop) : σ → σ → Prop
  | one (x : σ) : Via f G x (f x)
  | step {x y : σ} (hguard : G (f x)) (h : Via f G (f x) y) : Via f G x y

variable {f g : σ → σ} {G : σ → Prop} {x y z : σ}

theorem Via.trans (h : Via f G x y) (hguard : G y) (h' : Via f G y z) : Via f G x z := by
  induction h with
  | one x => exact .step hguard h'
  | step hmid _ ih => exact .step hmid (ih hguard h')

/-- A run of a component is one of the whole, which may begin elsewhere. -/
theorem Via.lift {τ : Type*} {g : τ → τ} {H : τ → Prop} (h : Via f G x y) (embed : σ → τ) {t : τ}
    (hstart : g t = embed (f x)) (hguarded : ∀ z, G z → g (embed z) = embed (f z) ∧ H (embed z)) :
    Via g H t (embed y) := by
  induction h generalizing t with
  | one x =>
      rw [← hstart]
      exact .one t
  | step hguard _ ih =>
      obtain ⟨hnext, hinner⟩ := hguarded _ hguard
      refine .step ?_ ?_
      · rw [hstart]
        exact hinner
      · rw [hstart]
        exact ih hnext

/-- Through a sequence of states. -/
theorem Via.sequence (states : ℕ → σ) {n : ℕ}
    (h : ∀ j ≤ n, Via f G (states j) (states (j + 1))) (hguard : ∀ j < n, G (states (j + 1))) :
    Via f G (states 0) (states (n + 1)) := by
  induction n with
  | zero => exact h 0 le_rfl
  | succ n ih =>
      have hfirst := ih (fun j hj ↦ h j (Nat.le_succ_of_le hj))
        fun j hj ↦ hguard j (Nat.lt_succ_of_lt hj)
      exact hfirst.trans (hguard n (Nat.lt_succ_self n)) (h (n + 1) le_rfl)

/-- What every step keeps holds in all states on the way. -/
theorem Via.invariant {I : σ → Prop} (h : Via f G x y) (hfirst : I (f x))
    (hstep : ∀ z, G z → I z → I (f z)) : Via f (fun z ↦ G z ∧ I z) x y := by
  induction h with
  | one x => exact .one x
  | step hguard _ ih => exact .step ⟨hguard, hfirst⟩ (ih (hstep _ hguard hfirst))

/-! ## Logs -/

section Logs

variable {ε : Type*} {ev : σ → List ε} {H : σ → Prop} {l l' : List ε}

/-- What happens in the first states of a run. -/
def log (ev : σ → List ε) (run : ℕ → σ) (n : ℕ) : List ε :=
  (List.range n).flatMap fun k ↦ ev (run k)

theorem log_succ (ev : σ → List ε) (run : ℕ → σ) (n : ℕ) :
    log ev run (n + 1) = ev (run 0) ++ log ev (fun k ↦ run (k + 1)) n := by
  rw [log, List.range_succ_eq_map, List.flatMap_cons, List.flatMap_map]
  rfl

theorem log_congr {run run' : ℕ → σ} {n : ℕ} (h : ∀ k < n, run k = run' k) :
    log ev run n = log ev run' n := by
  rw [log, log, List.flatMap_def, List.flatMap_def]
  congr 1
  refine List.map_congr_left ?_
  intro k hk
  rw [h k (List.mem_range.mp hk)]

theorem log_begins (ev : σ → List ε) (run : ℕ → σ) {m n : ℕ} (h : m ≤ n) :
    log ev run m <+: log ev run n := by
  obtain ⟨k, rfl⟩ := Nat.exists_eq_add_of_le h
  rw [log, log, List.range_add, List.flatMap_append]
  exact List.prefix_append _ _

/-- A run as in `Via` together with what happens in it. -/
inductive Logged (f : σ → σ) (ev : σ → List ε) (G : σ → Prop) : σ → List ε → σ → Prop
  | one (x : σ) : Logged f ev G x (ev x) (f x)
  | step {x y : σ} {l : List ε} (hguard : G (f x)) (h : Logged f ev G (f x) l y) :
      Logged f ev G x (ev x ++ l) y

theorem Logged.trans (h : Logged f ev G x l y) (hguard : G y) (h' : Logged f ev G y l' z) :
    Logged f ev G x (l ++ l') z := by
  induction h with
  | one x => exact .step hguard h'
  | step hmid _ ih =>
      rw [List.append_assoc]
      exact .step hmid (ih hguard h')

/-- The steps of a machine are runs of another one, in which nothing more
happens after the first. -/
theorem Via.refine (h : Via g G x y) (hfirst : Logged f ev H x l (g x))
    (hstep : ∀ z, G z → H z ∧ Logged f ev H z [] (g z)) : Logged f ev H x l y := by
  induction h generalizing l with
  | one x => exact hfirst
  | step hguard _ ih =>
      obtain ⟨hinner, hnext⟩ := hstep _ hguard
      have hrun := hfirst.trans hinner (ih hnext)
      rwa [List.append_nil] at hrun

theorem Logged.iterate (h : Logged f ev G x l y) :
    ∃ n, f^[n] x = y ∧ log ev (fun k ↦ f^[k] x) n = l ∧ ∀ k < n, 0 < k → G (f^[k] x) := by
  induction h with
  | one x => exact ⟨1, rfl, List.append_nil _, fun k hk hpos ↦ absurd hk (by omega)⟩
  | @step x y l hguard _ ih =>
      obtain ⟨n, hend, hlog, hbetween⟩ := ih
      refine ⟨n + 1, ?_, ?_, fun k hk hpos ↦ ?_⟩
      · rw [Function.iterate_succ_apply]
        exact hend
      · rw [log_succ, ← hlog]
        rfl
      · obtain ⟨k, rfl⟩ := Nat.exists_eq_succ_of_ne_zero hpos.ne'
        rw [Function.iterate_succ_apply]
        rcases Nat.eq_zero_or_pos k with rfl | hk'
        · exact hguard
        · exact hbetween k (by omega) hk'

/-- A run that begins guarded is guarded until its end. -/
theorem Logged.iterate_of_guard (h : Logged f ev G x l y) (hx : G x) :
    ∃ n, f^[n] x = y ∧ log ev (fun k ↦ f^[k] x) n = l ∧ ∀ k < n, G (f^[k] x) := by
  obtain ⟨n, hend, hlog, hbetween⟩ := h.iterate
  refine ⟨n, hend, hlog, fun k hk ↦ ?_⟩
  rcases Nat.eq_zero_or_pos k with rfl | hpos
  · exact hx
  · exact hbetween k hk hpos

/-- The states are guarded until the last one, which is not. -/
theorem Logged.unique (h : Logged f ev G x l y) (hx : G x) (hy : ¬ G y) {n : ℕ}
    (hbusy : ∀ k < n, G (f^[k] x)) (hdone : ¬ G (f^[n] x)) :
    f^[n] x = y ∧ log ev (fun k ↦ f^[k] x) n = l := by
  obtain ⟨m, hend, hlog, hguarded⟩ := h.iterate_of_guard hx
  have hmn : m = n := by
    rcases Nat.lt_trichotomy m n with hless | heq | hless
    · rw [← hend] at hy
      exact absurd (hbusy m hless) hy
    · exact heq
    · exact absurd (hguarded n hless) hdone
  rw [← hmn]
  exact ⟨hend, hlog⟩

/-- What happens before the guard is left begins with what happens in a guarded run. -/
theorem Logged.begins (h : Logged f ev G x l y) (hx : G x) {n : ℕ}
    (hdone : ¬ G (f^[n] x)) : l <+: log ev (fun k ↦ f^[k] x) n := by
  obtain ⟨m, hend, hlog, hguarded⟩ := h.iterate_of_guard hx
  have hmn : m ≤ n := by
    by_contra hless
    exact hdone (hguarded n (Nat.not_le.mp hless))
  rw [← hlog]
  exact log_begins ev _ hmn

end Logs

end TangNano.Clocked
