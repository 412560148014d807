import RtBackup.Lib.Runs
import Mathlib.Data.List.Perm.Subperm

/-!
# A queue that is emptied by the callers that fill it

Whoever appends an element to the queue then works on it: reads the length of the
queue once, and takes and handles elements until it has taken as many, or finds the
queue empty. Between any two steps of one worker the others may go on, so that a
worker may find less or more than it counted.

Results:
1. `Sound.step`: an element is taken once and in order, and while no worker has still
   to count, the workers may take as many elements as there are.
2. `Sound.queue_eq_nil`: when all have returned, nothing is left.
3. `length_add_remaining`: how many steps the workers take.
-/

namespace Draining

open Runs

variable {σ α : Type*}

/-! ## Definitions -/

inductive Worker (α : Type*) where
  /-- It has not counted yet. -/
  | called
  /-- It may still take so many elements. -/
  | draining (budget : Nat)
  | handling (budget : Nat) (a : α)
  | returned

namespace Worker

/-- What it took and has not handled. -/
def hand : Worker α → List α
  | .handling _ a => [a]
  | .called | .draining _ | .returned => []

def budget : Worker α → Nat
  | .draining n | .handling n _ => n
  | .called | .returned => 0

/-- The steps it takes if it takes no other element. -/
def ahead : Worker α → Nat
  | .called | .handling _ _ => 2
  | .draining _ => 1
  | .returned => 0

/-- The sum over some workers. -/
def total (f : Worker α → Nat) : List (Worker α) → Nat
  | [] => 0
  | w :: ws => f w + total f ws

end Worker

structure Pool (σ α : Type*) where
  queue : List α := []
  workers : List (Worker α) := []
  /-- The elements appended, taken and handled so far. -/
  arrived : List α := []
  taken : List α := []
  handled : List α := []
  /-- What the handler works on. -/
  state : σ

inductive Event (α : Type*) where
  /-- The element is appended, and a worker called. -/
  | arrive (a : α)
  | step (worker : Nat)

/-- A step of a worker in a place of the list. -/
def work (handle : σ → α → σ) (i : Nat) (p : Pool σ α) : Worker α → Pool σ α
  | .called => { p with workers := p.workers.set i (.draining p.queue.length) }
  | .draining 0 => { p with workers := p.workers.set i .returned }
  | .draining (n + 1) =>
    match p.queue with
    | [] => { p with workers := p.workers.set i .returned }
    | a :: rest =>
      { p with queue := rest, workers := p.workers.set i (.handling n a), taken := p.taken ++ [a] }
  | .handling n a =>
    { p with
      workers := p.workers.set i (.draining n)
      handled := p.handled ++ [a]
      state := handle p.state a }
  | .returned => p

def step (handle : σ → α → σ) (p : Pool σ α) : Event α → Pool σ α
  | .arrive a =>
    { p with
      queue := p.queue ++ [a]
      workers := p.workers ++ [.called]
      arrived := p.arrived ++ [a] }
  | .step i => (p.workers[i]?.map (work handle i p)).getD p

def AllReturned (p : Pool σ α) : Prop := ∀ w ∈ p.workers, w = .returned

/-- The worker has not returned. -/
def Live (p : Pool σ α) (i : Nat) : Prop := ∃ w, p.workers[i]? = some w ∧ w ≠ .returned

/-- The event is a step of such a worker. -/
def LiveStep (p : Pool σ α) : Event α → Prop
  | .arrive _ => False
  | .step i => Live p i

/-- The steps that the workers take if nothing arrives. -/
def remaining (p : Pool σ α) : Nat := 2 * p.queue.length + Worker.total Worker.ahead p.workers

structure Sound (handle : σ → α → σ) (s : σ) (p : Pool σ α) : Prop where
  order : p.arrived = p.taken ++ p.queue
  hands : p.taken.Perm (p.handled ++ p.workers.flatMap Worker.hand)
  enough : .called ∈ p.workers ∨ p.queue.length ≤ Worker.total Worker.budget p.workers
  state : p.state = p.handled.foldl handle s

/-! ## Steps -/

section

variable {handle : σ → α → σ} {s : σ} {p : Pool σ α} {i : Nat} {w : Worker α}

/-- The list around one worker. -/
theorem exists_split {β : Type*} {l : List β} {i : Nat} {b : β} (h : l[i]? = some b) :
    ∃ front back, l = front ++ b :: back ∧ ∀ c, l.set i c = front ++ c :: back := by
  induction l generalizing i with
  | nil => cases h
  | cons x l ih =>
    cases i with
    | zero =>
      obtain rfl := Option.some.inj h
      exact ⟨[], l, rfl, fun _ => rfl⟩
    | succ i =>
      obtain ⟨front, back, rfl, hset⟩ := ih h
      exact ⟨x :: front, back, rfl, fun c => congrArg (x :: ·) (hset c)⟩

theorem total_split (f : Worker α → Nat) (front : List (Worker α)) (w : Worker α)
    (back : List (Worker α)) : Worker.total f (front ++ w :: back) =
      Worker.total f front + (f w + Worker.total f back) := by
  induction front with
  | nil => exact (Nat.zero_add _).symm
  | cons v front ih => rw [List.cons_append, Worker.total, ih, Worker.total, Nat.add_assoc]

theorem total_eq_zero_iff (f : Worker α → Nat) (ws : List (Worker α)) :
    Worker.total f ws = 0 ↔ ∀ w ∈ ws, f w = 0 := by
  induction ws with
  | nil => exact iff_of_true rfl fun _ h => absurd h List.not_mem_nil
  | cons w ws ih => rw [Worker.total, Nat.add_eq_zero_iff, ih, List.forall_mem_cons]

/-- What a step of a worker does: it counts, returns, takes the first element, or
handles the one that it took. -/
theorem work_cases (handle : σ → α → σ) (i : Nat) (p : Pool σ α) {w : Worker α}
    (hw : w ≠ .returned) :
    (w = .called ∧ work handle i p w =
      { p with workers := p.workers.set i (.draining p.queue.length) }) ∨
    (∃ n, w = .draining n ∧ (n = 0 ∨ p.queue = []) ∧ work handle i p w =
      { p with workers := p.workers.set i .returned }) ∨
    (∃ n a rest, w = .draining (n + 1) ∧ p.queue = a :: rest ∧ work handle i p w =
      { p with
        queue := rest, workers := p.workers.set i (.handling n a), taken := p.taken ++ [a] }) ∨
    ∃ n a, w = .handling n a ∧ work handle i p w =
      { p with
        workers := p.workers.set i (.draining n)
        handled := p.handled ++ [a]
        state := handle p.state a } := by
  cases w with
  | called => exact .inl ⟨rfl, rfl⟩
  | draining n =>
    cases n with
    | zero => exact .inr (.inl ⟨0, rfl, .inl rfl, rfl⟩)
    | succ n =>
      cases hq : p.queue with
      | nil => exact .inr (.inl ⟨n + 1, rfl, .inr rfl, by rw [work, hq]⟩)
      | cons a rest => exact .inr (.inr (.inl ⟨n, a, rest, rfl, rfl, by rw [work, hq]⟩))
  | handling n a => exact .inr (.inr (.inr ⟨n, a, rfl, rfl⟩))
  | returned => exact absurd rfl hw

/-- An element goes into a hand, and out of it. -/
theorem perm_taken (x y z : List α) (a : α) :
    ((x ++ (y ++ z)) ++ [a]).Perm (x ++ (y ++ ([a] ++ z))) := by
  rw [List.append_assoc, List.append_assoc]
  exact (List.perm_append_comm.append_left y).append_left x

theorem perm_handled (x y z : List α) (a : α) :
    (x ++ (y ++ ([a] ++ z))).Perm ((x ++ [a]) ++ (y ++ z)) := by
  rw [List.append_assoc x]
  exact List.perm_middle.append_left x

theorem Sound.work (h : Sound handle s p) (hi : p.workers[i]? = some w) (hw : w ≠ .returned) :
    Sound handle s (work handle i p w) := by
  obtain ⟨front, back, hsplit, hset⟩ := exists_split hi
  have hands := h.hands
  simp only [hsplit, List.flatMap_append, List.flatMap_cons] at hands
  -- a worker that does not count leaves those that have to, or the budgets
  have henough : ∀ w' : Worker α, ∀ queue : List α, w ≠ .called →
      (p.queue.length ≤
          (Worker.total Worker.budget front + Worker.total Worker.budget back) + w.budget →
        queue.length ≤
          (Worker.total Worker.budget front + Worker.total Worker.budget back) + w'.budget) →
      .called ∈ p.workers.set i w' ∨
        queue.length ≤ Worker.total Worker.budget (p.workers.set i w') := by
    intro w' queue hne hle
    have hold := h.enough
    simp only [hsplit, total_split, List.mem_append, List.mem_cons] at hold
    simp only [hset, total_split, List.mem_append, List.mem_cons]
    rcases hold with (hmem | hmem | hmem) | hmem
    · exact .inl (.inl hmem)
    · exact absurd hmem.symm hne
    · exact .inl (.inr (.inr hmem))
    · exact .inr (by have := hle (by omega); omega)
  rcases work_cases handle i p hw with ⟨rfl, heq⟩ | ⟨n, rfl, hn, heq⟩ | ⟨n, a, rest, rfl, hq, heq⟩ |
      ⟨n, a, rfl, heq⟩ <;> rw [heq]
  · refine ⟨h.order, ?_, .inr ?_, h.state⟩
    · simpa only [hset, List.flatMap_append, List.flatMap_cons, Worker.hand] using hands
    · simp only [hset, total_split, Worker.budget]
      omega
  · refine ⟨h.order, ?_, henough _ _ nofun fun hle => ?_, h.state⟩
    · simpa only [hset, List.flatMap_append, List.flatMap_cons, Worker.hand] using hands
    · rcases hn with rfl | hnil
      · exact hle
      · simp only [hnil, List.length_nil, Nat.zero_le]
  · refine ⟨?_, ?_, henough _ _ nofun fun hle => ?_, h.state⟩
    · show p.arrived = (p.taken ++ [a]) ++ rest
      rw [h.order, hq, List.append_assoc]
      rfl
    · show (p.taken ++ [a]).Perm _
      simp only [hset, List.flatMap_append, List.flatMap_cons, Worker.hand, List.nil_append]
        at hands ⊢
      exact (hands.append_right [a]).trans (perm_taken _ _ _ a)
    · rw [hq, List.length_cons] at hle
      simp only [Worker.budget] at hle ⊢
      omega
  · refine ⟨h.order, ?_, henough _ _ nofun fun hle => hle, ?_⟩
    · simp only [hset, List.flatMap_append, List.flatMap_cons, Worker.hand, List.nil_append]
        at hands ⊢
      exact hands.trans (perm_handled _ _ _ a)
    · show handle p.state a = (p.handled ++ [a]).foldl handle s
      rw [List.foldl_append, h.state]
      rfl

theorem Sound.arrive (h : Sound handle s p) (a : α) : Sound handle s (step handle p (.arrive a)) where
  order := by
    show p.arrived ++ [a] = p.taken ++ (p.queue ++ [a])
    rw [h.order, List.append_assoc]
  hands := by
    show p.taken.Perm (p.handled ++ (p.workers ++ [Worker.called]).flatMap Worker.hand)
    rw [List.flatMap_append]
    exact (List.append_nil _).symm ▸ h.hands
  enough := .inl (List.mem_append_right _ List.mem_cons_self)
  state := h.state

theorem step_live (handle : σ → α → σ) (hi : p.workers[i]? = some w) :
    step handle p (.step i) = work handle i p w := by
  rw [step, hi]
  rfl

/-- A step of a worker that has returned, or is not there, does nothing. -/
theorem step_of_not_live (handle : σ → α → σ) (hi : ¬ Live p i) : step handle p (.step i) = p := by
  cases hw : p.workers[i]? with
  | none =>
    rw [step, hw]
    rfl
  | some w =>
    have hret : w = .returned := by_contra fun hne => hi ⟨w, hw, hne⟩
    rw [step_live handle hw, hret]
    rfl

theorem Sound.step (h : Sound handle s p) (e : Event α) : Sound handle s (step handle p e) := by
  cases e with
  | arrive a => exact h.arrive a
  | step i =>
    by_cases hlive : Live p i
    · obtain ⟨w, hi, hw⟩ := hlive
      rw [step_live handle hi]
      exact h.work hi hw
    · rw [step_of_not_live handle hlive]
      exact h

theorem sound_start (handle : σ → α → σ) (s : σ) : Sound handle s { state := s } :=
  ⟨rfl, List.Perm.refl _, .inr (Nat.le_refl _), rfl⟩

/-- The rule of invariants for the workers. -/
theorem sound_run (handle : σ → α → σ) (s : σ) (events : List (Event α)) :
    Sound handle s (run (step handle) { state := s } events) :=
  invariant (I := Sound handle s) (fun _ e h => h.step e) (sound_start handle s) events _
    (run_mem_states _ _)

/-! ## The end -/

/-- When all workers have returned, nothing is left. -/
theorem Sound.queue_eq_nil (h : Sound handle s p) (hall : AllReturned p) : p.queue = [] := by
  rcases h.enough with hmem | hle
  · exact nomatch hall _ hmem
  · have hzero : Worker.total Worker.budget p.workers = 0 := by
      rw [total_eq_zero_iff]
      intro w hw
      rw [hall w hw]
      rfl
    exact List.length_eq_zero_iff.mp (Nat.le_zero.mp (hzero ▸ hle))

/-- Then each element was handled once. -/
theorem Sound.handled_perm (h : Sound handle s p) (hall : AllReturned p) :
    p.handled.Perm p.arrived := by
  have hnone : p.workers.flatMap Worker.hand = [] := by
    refine List.flatMap_eq_nil_iff.mpr fun w hw => ?_
    rw [hall w hw]
    rfl
  have hands := h.hands
  rw [hnone, List.append_nil] at hands
  rw [h.order, h.queue_eq_nil hall, List.append_nil]
  exact hands.symm

/-- Before, some were. -/
theorem Sound.handled_subperm (h : Sound handle s p) : p.handled.Subperm p.arrived := by
  rw [h.order]
  exact ((List.sublist_append_left _ _).subperm.trans h.hands.symm.subperm).trans
    (List.sublist_append_left _ _).subperm

/-- Each step of a worker brings the end nearer. -/
theorem remaining_step (handle : σ → α → σ) (hlive : Live p i) :
    1 + remaining (Draining.step handle p (.step i)) = remaining p := by
  obtain ⟨w, hi, hw⟩ := hlive
  obtain ⟨front, back, hsplit, hset⟩ := exists_split hi
  have hold : Worker.total Worker.ahead p.workers =
      Worker.total Worker.ahead front + (w.ahead + Worker.total Worker.ahead back) := by
    rw [hsplit, total_split]
  have hnew : ∀ w' : Worker α, Worker.total Worker.ahead (p.workers.set i w') =
      Worker.total Worker.ahead front + (w'.ahead + Worker.total Worker.ahead back) := fun w' => by
    rw [hset, total_split]
  rw [step_live handle hi]
  unfold remaining
  rcases work_cases handle i p hw with ⟨rfl, heq⟩ | ⟨n, rfl, hn, heq⟩ | ⟨n, a, rest, rfl, hq, heq⟩ |
      ⟨n, a, rfl, heq⟩ <;> rw [heq, hold, hnew] <;> simp only [Worker.ahead]
  · omega
  · omega
  · rw [hq, List.length_cons]
    omega
  · omega

/-- The workers take as many steps as are ahead, in whatever order they do. -/
theorem length_add_remaining {events : List (Event α)}
    (h : Along (Draining.step handle) LiveStep p events) :
    events.length + remaining (run (Draining.step handle) p events) = remaining p := by
  induction events generalizing p with
  | nil => exact Nat.zero_add _
  | cons e events ih =>
    cases e with
    | arrive a => exact h.1.elim
    | step i =>
      have hstep := remaining_step handle h.1
      have hrest := ih h.2
      rw [List.length_cons, run, List.foldl_cons]
      rw [run] at hrest
      omega

theorem remaining_eq_zero_iff (h : Sound handle s p) : remaining p = 0 ↔ AllReturned p := by
  have hahead : ∀ w : Worker α, w.ahead = 0 ↔ w = .returned := by
    intro w
    cases w <;> simp [Worker.ahead]
  have hsum : Worker.total Worker.ahead p.workers = 0 ↔ AllReturned p := by
    simp only [total_eq_zero_iff, hahead, AllReturned]
  unfold remaining
  rw [Nat.add_eq_zero_iff, hsum]
  refine and_iff_right_of_imp fun hall => ?_
  rw [h.queue_eq_nil hall]
  rfl

end

end Draining
