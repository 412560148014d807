import Mathlib.Data.List.Basic

/-!
# Runs of a state machine and what holds along them

A machine is a step function over events. A property of runs is stated as a
property of every state that the run goes through (`states`), a restriction on
runs as a condition on each event in the state where it occurs (`Along`).

Results:
1. `invariant_along`: an invariant of the steps that meet the condition holds in
   every state of a run whose steps all meet it.
2. `along_congr`: conditions that agree under an invariant admit the same runs.
3. `forall_states_iff_along`: when a step keeps a property exactly if it meets
   the condition, the property holds throughout a run exactly if all its steps
   meet the condition.
4. `run_iff_along`: it is enough to look at the end of the run when the property
   never comes back.
5. `foldlM_invariant`, `foldlM_isSome`: runs of a machine whose steps may have no
   result.
-/

namespace Runs

variable {σ ε : Type*} (step : σ → ε → σ)

def run (s : σ) (es : List ε) : σ := es.foldl step s

/-- The states of a run, the first one included. -/
def states : σ → List ε → List σ
  | s, [] => [s]
  | s, e :: es => s :: states (step s e) es

/-- Each event meets the condition in the state where it occurs. -/
def Along (ok : σ → ε → Prop) : σ → List ε → Prop
  | _, [] => True
  | s, e :: es => ok s e ∧ Along ok (step s e) es

variable {step}

theorem self_mem_states (s : σ) (es : List ε) : s ∈ states step s es := by
  cases es <;> simp [states]

theorem run_mem_states (s : σ) (es : List ε) : run step s es ∈ states step s es := by
  induction es generalizing s with
  | nil => exact List.mem_singleton_self s
  | cons e es ih => exact List.mem_cons_of_mem _ (ih _)

theorem along_append {ok : σ → ε → Prop} {s : σ} {es fs : List ε} :
    Along step ok s (es ++ fs) ↔ Along step ok s es ∧ Along step ok (run step s es) fs := by
  induction es generalizing s with
  | nil => exact (iff_of_eq (true_and _)).symm
  | cons e es ih => exact (and_congr_right fun _ => ih).trans and_assoc.symm

instance decidableAlong (ok : σ → ε → Prop) [∀ s e, Decidable (ok s e)] (s : σ) :
    ∀ es, Decidable (Along step ok s es)
  | [] => inferInstanceAs (Decidable True)
  | e :: es =>
    have := decidableAlong ok (step s e) es
    inferInstanceAs (Decidable (ok s e ∧ Along step ok (step s e) es))

/-- The rule of invariants. -/
theorem invariant_along {I : σ → Prop} {ok : σ → ε → Prop}
    (hstep : ∀ s e, I s → ok s e → I (step s e)) {s : σ} {es : List ε} (hs : I s)
    (h : Along step ok s es) : ∀ t ∈ states step s es, I t := by
  induction es generalizing s with
  | nil => simpa [states] using hs
  | cons e es ih =>
    intro t ht
    rcases List.mem_cons.mp ht with rfl | ht
    · exact hs
    · exact ih (hstep s e hs h.1) h.2 t ht

/-- The rule of invariants for unrestricted runs. -/
theorem invariant {I : σ → Prop} (hstep : ∀ s e, I s → I (step s e)) {s : σ} (hs : I s)
    (es : List ε) : ∀ t ∈ states step s es, I t := by
  induction es generalizing s with
  | nil => simpa [states] using hs
  | cons e es ih =>
    intro t ht
    rcases List.mem_cons.mp ht with rfl | ht
    · exact hs
    · exact ih (hstep s e hs) t ht

/-- Along a run whose steps meet a condition, an invariant of these steps gives
what each of them does. -/
theorem along_mono {I : σ → Prop} {P Q : σ → ε → Prop} {es : List ε}
    (hI : ∀ s, ∀ e ∈ es, I s → P s e → I (step s e)) (hPQ : ∀ s, ∀ e ∈ es, I s → P s e → Q s e)
    {s : σ} (hs : I s) (h : Along step P s es) : Along step Q s es := by
  induction es generalizing s with
  | nil => trivial
  | cons e es ih =>
    refine ⟨hPQ s e List.mem_cons_self hs h.1, ?_⟩
    exact ih (fun t f hf => hI t f (List.mem_cons_of_mem _ hf))
      (fun t f hf => hPQ t f (List.mem_cons_of_mem _ hf)) (hI s e List.mem_cons_self hs h.1) h.2

/-- Two conditions that agree on the states of an invariant admit the same runs. -/
theorem along_congr {I : σ → Prop} {P Q : σ → ε → Prop} (hI : ∀ s e, I s → I (step s e)) {s : σ}
    {es : List ε} (hPQ : ∀ s, I s → ∀ e ∈ es, (P s e ↔ Q s e)) (hs : I s) :
    Along step P s es ↔ Along step Q s es := by
  induction es generalizing s with
  | nil => exact Iff.rfl
  | cons e es ih =>
    exact and_congr (hPQ s hs e List.mem_cons_self)
      (ih (fun t ht f hf => hPQ t ht f (List.mem_cons_of_mem _ hf)) (hI s e hs))

/-- A property that does not hold and never comes back is not there at the end. -/
theorem run_of_lost {I P : σ → Prop} (hI : ∀ s e, I s → I (step s e))
    (hlost : ∀ s e, I s → ¬ P s → ¬ P (step s e)) {s : σ} (hIs : I s) (hs : ¬ P s) (es : List ε) :
    ¬ P (run step s es) := by
  induction es generalizing s with
  | nil => exact hs
  | cons e es ih => exact ih (hI s e hIs) (hlost s e hIs hs)

/-- A property that a step keeps exactly if it meets the condition, and that never
comes back, holds at the end of exactly the runs whose steps all meet it. -/
theorem run_iff_along {I P : σ → Prop} {ok : σ → ε → Prop} (hI : ∀ s e, I s → I (step s e))
    (hkeep : ∀ s e, I s → P s → (P (step s e) ↔ ok s e))
    (hlost : ∀ s e, I s → ¬ P s → ¬ P (step s e)) {s : σ} {es : List ε} (hIs : I s) (hs : P s) :
    P (run step s es) ↔ Along step ok s es := by
  induction es generalizing s with
  | nil => exact iff_of_true hs trivial
  | cons e es ih =>
    by_cases hok : ok s e
    · rw [Along, and_iff_right hok]
      exact ih (hI s e hIs) ((hkeep s e hIs hs).mpr hok)
    · have hgone : ¬ P (step s e) := fun h => hok ((hkeep s e hIs hs).mp h)
      exact iff_of_false (run_of_lost hI hlost (hI s e hIs) hgone es) fun h => hok h.1

/-- Under an invariant `I`, a property that a step keeps exactly if the step
meets the condition holds throughout exactly the runs whose steps all meet it. -/
theorem forall_states_iff_along {I P : σ → Prop} {ok : σ → ε → Prop} {es : List ε}
    (hI : ∀ s, ∀ e ∈ es, I s → I (step s e))
    (hP : ∀ s, ∀ e ∈ es, I s → P s → (P (step s e) ↔ ok s e)) {s : σ} (hIs : I s) :
    (∀ t ∈ states step s es, P t) ↔ P s ∧ Along step ok s es := by
  induction es generalizing s with
  | nil => simp [states, Along]
  | cons e es ih =>
    simp only [states, List.forall_mem_cons, Along,
      ih (fun t f hf => hI t f (List.mem_cons_of_mem _ hf))
        (fun t f hf => hP t f (List.mem_cons_of_mem _ hf)) (hI s e List.mem_cons_self hIs)]
    constructor
    · rintro ⟨hs, hse, hrest⟩
      exact ⟨hs, (hP s e List.mem_cons_self hIs hs).mp hse, hrest⟩
    · rintro ⟨hs, hok, hrest⟩
      exact ⟨hs, (hP s e List.mem_cons_self hIs hs).mpr hok, hrest⟩

/-! ## Steps without a result -/

section

variable {next : σ → ε → Option σ} {I : List ε → σ → Prop} {done es all : List ε} {s t : σ}

/-- The rule of invariants for a run that stops where a step has no result. The
invariant may speak of the events so far. -/
theorem foldlM_invariant
    (hnext : ∀ done e rest s t, done ++ e :: rest = all → I done s → next s e = some t →
      I (done ++ [e]) t)
    (hall : done ++ es = all) (hs : I done s) (h : es.foldlM next s = some t) : I all t := by
  induction es generalizing done s with
  | nil =>
    obtain rfl := Option.some.inj h
    rw [← hall, List.append_nil]
    exact hs
  | cons e es ih =>
    rw [List.foldlM_cons, Option.bind_eq_bind, Option.bind_eq_some_iff] at h
    obtain ⟨u, hu, hrest⟩ := h
    exact ih ((List.append_assoc _ _ _).trans hall) (hnext done e es s u hall hs hu) hrest

/-- Such a run does not stop if the invariant gives each step a result. -/
theorem foldlM_isSome
    (hnext : ∀ done e rest s t, done ++ e :: rest = all → I done s → next s e = some t →
      I (done ++ [e]) t)
    (hresult : ∀ done e s, I done s → (next s e).isSome = true)
    (hall : done ++ es = all) (hs : I done s) : (es.foldlM next s).isSome = true := by
  induction es generalizing done s with
  | nil => rfl
  | cons e es ih =>
    obtain ⟨u, hu⟩ := Option.isSome_iff_exists.mp (hresult done e s hs)
    rw [List.foldlM_cons, hu]
    exact ih ((List.append_assoc _ _ _).trans hall) (hnext done e es s u hall hs hu)

end

end Runs
