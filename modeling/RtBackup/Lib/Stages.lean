import RtBackup.Lib.InputReader

/-!
# Stages that are run on demand

A value is completed in stages that read input. A function that needs the first
`n` stages runs those that have not been run. It does not matter then in which
order such functions are called.

Results:
1. `ensure_add`: the stages that are missing are run, each once.
2. `run_eq_ensure`: a sequence of calls does what the call that goes furthest does.
-/

namespace Stages

open InputReader

variable {β σ : Type} {got : Nat → σ → Bool} {body : Nat → σ → Reader β σ}
  {inv : Nat → σ → Prop}

/-- The first `n` stages, which may have been run before. -/
def ensure (got : Nat → σ → Bool) (body : Nat → σ → Reader β σ) : Nat → σ → Reader β σ
  | 0, s => pure s
  | n + 1, s => if got n s then pure s else ensure got body n s >>= body n

/-- The `n` stages from `k` on. -/
def through (body : Nat → σ → Reader β σ) (k : Nat) : Nat → σ → Reader β σ
  | 0, s => pure s
  | n + 1, s => through body k n s >>= body (k + n)

/-- The first `n` stages have been run, after which `inv n` holds. A stage may hide
that it has been run if nothing happens when it is run again. -/
structure At (got : Nat → σ → Bool) (body : Nat → σ → Reader β σ) (inv : Nat → σ → Prop) (n : Nat)
    (s : σ) : Prop where
  holds : inv n s
  done : ∀ k < n, got k s = true ∨ body k s = pure s
  missing : ∀ k ≥ n, got k s = false

/-- A stage completes itself and leaves the other ones as they are. -/
def Completes (got : Nat → σ → Bool) (body : Nat → σ → Reader β σ) (inv : Nat → σ → Prop) : Prop :=
  ∀ n s input t r, At got body inv n s → body n s input = some (t, r) → At got body inv (n + 1) t

theorem through_add (k n m : Nat) (s : σ) :
    through body k (n + m) s = through body k n s >>= through body (k + n) m := by
  induction m with
  | zero => exact (bind_pure _).symm
  | succ m ih =>
    rw [← Nat.add_assoc, through, ih, bind_assoc]
    simp only [through, Nat.add_assoc]

theorem At.through (h : Completes got body inv) {n k : Nat} {s t : σ} {input r : List β}
    (hs : At got body inv n s) (hrun : through body n k s input = some (t, r)) :
    At got body inv (n + k) t := by
  induction k generalizing t r with
  | zero =>
    cases hrun
    exact hs
  | succ k ih =>
    obtain ⟨u, rest, hu, ht⟩ := bind_eq_some.mp hrun
    exact h _ _ _ _ _ (ih hu) ht

theorem ensure_of_le {n k : Nat} {s : σ} (hs : At got body inv n s) (hle : k ≤ n) :
    ensure got body k s = pure s := by
  induction k with
  | zero => rfl
  | succ k ih =>
    rw [ensure, ih (Nat.le_of_succ_le hle)]
    rcases hs.done k hle with hgot | hpure
    · exact if_pos hgot
    · split
      · rfl
      · exact hpure

theorem ensure_add {n : Nat} {s : σ} (hs : At got body inv n s) (k : Nat) :
    ensure got body (n + k) s = through body n k s := by
  induction k with
  | zero => exact ensure_of_le hs (Nat.le_refl n)
  | succ k ih =>
    rw [← Nat.add_assoc, ensure, hs.missing _ (Nat.le_add_right n k), ih]
    rfl

theorem At.ensure (h : Completes got body inv) {n k : Nat} {s t : σ} {input r : List β}
    (hs : At got body inv n s) (hrun : ensure got body k s input = some (t, r)) :
    At got body inv (max n k) t := by
  rcases Nat.le_total k n with hle | hle
  · rw [ensure_of_le hs hle] at hrun
    cases hrun
    rwa [Nat.max_eq_left hle]
  · obtain ⟨m, rfl⟩ := Nat.exists_eq_add_of_le hle
    rw [ensure_add hs] at hrun
    rw [Nat.max_eq_right hle]
    exact hs.through h hrun

/-- What the stages from `n` on leave alone stays as it is. -/
theorem At.ensure_keeps {γ : Type} (h : Completes got body inv) {f : σ → γ} {n k : Nat} {s t : σ}
    {input r : List β} (hs : At got body inv n s)
    (hkeep : ∀ m ≥ n, ∀ s t input r, At got body inv m s → body m s input = some (t, r) → f t = f s)
    (hrun : Stages.ensure got body k s input = some (t, r)) : f t = f s := by
  rcases Nat.le_total k n with hle | hle
  · rw [ensure_of_le hs hle] at hrun
    cases hrun
    rfl
  · obtain ⟨m, rfl⟩ := Nat.exists_eq_add_of_le hle
    rw [ensure_add hs] at hrun
    clear hle
    induction m generalizing t r with
    | zero =>
      cases hrun
      rfl
    | succ m ih =>
      obtain ⟨u, rest, hu, ht⟩ := bind_eq_some.mp hrun
      exact (hkeep _ (Nat.le_add_right n m) _ _ _ _ (hs.through h hu) ht).trans (ih hu)

theorem ensure_ensure (h : Completes got body inv) {n : Nat} {s : σ} (hs : At got body inv n s)
    (j k : Nat) : ensure got body j s >>= ensure got body k = ensure got body (max j k) s := by
  rcases Nat.le_total j n with hj | hj
  · rw [ensure_of_le hs hj, pure_bind]
    rcases Nat.le_total j k with hjk | hjk
    · rw [Nat.max_eq_right hjk]
    · rw [Nat.max_eq_left hjk, ensure_of_le hs (Nat.le_trans hjk hj), ensure_of_le hs hj]
  · obtain ⟨m, rfl⟩ := Nat.exists_eq_add_of_le hj
    rw [ensure_add hs]
    rcases Nat.le_total k (n + m) with hk | hk
    · rw [Nat.max_eq_left hk, ensure_add hs]
      conv_rhs => rw [← bind_pure (Stages.through body n m s)]
      exact bind_congr_of_result fun _ _ _ hrun => ensure_of_le (hs.through h hrun) hk
    · obtain ⟨l, rfl⟩ := Nat.exists_eq_add_of_le hk
      rw [Nat.max_eq_right hk, Nat.add_assoc, ensure_add hs, through_add]
      refine bind_congr_of_result fun _ _ _ hrun => ?_
      rw [← Nat.add_assoc, ensure_add (hs.through h hrun)]

/-- The calls, each of which needs some stages. -/
def run (got : Nat → σ → Bool) (body : Nat → σ → Reader β σ) : List Nat → σ → Reader β σ
  | [], s => pure s
  | k :: ks, s => ensure got body k s >>= run got body ks

theorem run_eq_ensure (h : Completes got body inv) {n : Nat} {s : σ} (hs : At got body inv n s)
    (ks : List Nat) : run got body ks s = ensure got body (ks.foldr max 0) s := by
  induction ks generalizing n s with
  | nil => rfl
  | cons k ks ih =>
    rw [List.foldr_cons, ← ensure_ensure h hs]
    exact bind_congr_of_result fun _ _ _ hrun => ih (hs.ensure h hrun)

end Stages
