import RtBackup.Lib.Runs

/-!
# A work queue with one worker that can be asked to stop

Any number of producers append to a queue. One worker repeats: wait; while the
queue is not empty, take the oldest element and handle it; return if it was
asked to stop. The test for an empty queue, the removal, the handling and the
test for the request are separate steps.

Results:
1. `Conserved.step`: what was handled, is in the worker's hand and is queued is
   what was appended, in this order.
2. `step_drained_iff`, `run_drained_iff`: the worker leaves nothing behind
   exactly in the runs in which it returns on an empty queue and nothing is
   appended afterwards.
-/

namespace WorkQueue

open Runs

variable {α : Type*}

/-! ## Definitions -/

/-- Where the worker stands. -/
inductive Worker (α : Type*) where
  | waiting
  | testing
  | removing
  | handling (a : α)
  | checking
  | returned
deriving DecidableEq

/-- What the worker took and has not handled. -/
def Worker.hand : Worker α → List α
  | .handling a => [a]
  | .waiting | .testing | .removing | .checking | .returned => []

structure State (α : Type*) where
  queue : List α
  worker : Worker α
  stop : Bool
  /-- All elements appended so far, and those handled so far. -/
  appended : List α
  handled : List α

inductive Event (α : Type*) where
  | append (a : α)
  | work
  | stop

/-- One step of the worker. -/
def State.work (s : State α) : State α :=
  match s.worker with
  | .waiting => { s with worker := .testing }
  | .testing => { s with worker := if s.queue.isEmpty then .checking else .removing }
  | .removing =>
    match s.queue with
    | [] => { s with worker := .testing }
    | a :: rest => { s with queue := rest, worker := .handling a }
  | .handling a => { s with worker := .testing, handled := s.handled ++ [a] }
  | .checking => { s with worker := if s.stop then .returned else .waiting }
  | .returned => s

def step (s : State α) : Event α → State α
  | .append a => { s with queue := s.queue ++ [a], appended := s.appended ++ [a] }
  | .work => s.work
  | .stop => { s with stop := true }

/-- Nothing is lost, repeated or reordered up to now, and the worker removes
from a queue that is not empty. -/
structure Conserved (s : State α) : Prop where
  order : s.handled ++ s.worker.hand ++ s.queue = s.appended
  removing : s.worker = .removing → s.queue ≠ []

/-- A worker that returned left nothing behind. -/
def Drained (s : State α) : Prop :=
  s.worker = .returned → s.queue = []

/-- The worker returns on an empty queue only, and nothing is appended once it
has returned. -/
def LeavesNothing (s : State α) : Event α → Prop
  | .append _ => s.worker ≠ .returned
  | .work => s.worker = .checking → s.stop = true → s.queue = []
  | .stop => True

/-! ## Order -/

theorem Conserved.work {s : State α} (h : Conserved s) : Conserved s.work := by
  have horder := h.order
  unfold State.work
  cases hw : s.worker with
  | waiting => exact ⟨by simpa [hw, Worker.hand] using horder, nofun⟩
  | testing =>
    rw [hw] at horder
    cases hq : s.queue with
    | nil => exact ⟨by simpa [hq, Worker.hand] using horder, nofun⟩
    | cons a rest => exact ⟨by simpa [hq, Worker.hand] using horder, fun _ => by simp⟩
  | removing =>
    rw [hw] at horder
    cases hq : s.queue with
    | nil => exact absurd hq (h.removing hw)
    | cons a rest => exact ⟨by simpa [hq, Worker.hand] using horder, nofun⟩
  | handling a => exact ⟨by simpa [hw, Worker.hand] using horder, nofun⟩
  | checking =>
    rw [hw] at horder
    cases hs : s.stop with
    | true => exact ⟨by simpa [Worker.hand] using horder, nofun⟩
    | false => exact ⟨by simpa [Worker.hand] using horder, nofun⟩
  | returned => exact h

theorem Conserved.step {s : State α} (h : Conserved s) (e : Event α) : Conserved (step s e) := by
  cases e with
  | append a =>
    refine ⟨?_, fun _ => List.append_ne_nil_of_right_ne_nil _ (List.cons_ne_nil _ _)⟩
    show s.handled ++ s.worker.hand ++ (s.queue ++ [a]) = s.appended ++ [a]
    rw [← List.append_assoc, h.order]
  | work => exact h.work
  | stop => exact ⟨h.order, h.removing⟩

theorem Conserved.run {s : State α} (h : Conserved s) (es : List (Event α)) :
    Conserved (run WorkQueue.step s es) :=
  invariant (I := Conserved) (fun _ e hs => Conserved.step hs e) h es _ (run_mem_states _ _)

/-- Elements are handled in the order in which they were appended, each once. -/
theorem Conserved.handled_prefix {s : State α} (h : Conserved s) : s.handled <+: s.appended := by
  rw [← h.order, List.append_assoc]
  exact List.prefix_append _ _

/-- After the return everything was handled exactly if nothing is left. -/
theorem Conserved.handled_eq_iff {s : State α} (h : Conserved s) (hret : s.worker = .returned) :
    s.handled = s.appended ↔ Drained s := by
  have hall : s.handled ++ s.queue = s.appended := by
    simpa [hret, Worker.hand] using h.order
  rw [← hall, List.self_eq_append_right]
  exact ⟨fun hq _ => hq, fun hd => hd hret⟩

/-! ## Nothing left behind -/

theorem step_drained_iff {s : State α} (h : Drained s) (e : Event α) :
    Drained (step s e) ↔ LeavesNothing s e := by
  unfold Drained at h ⊢
  cases e with
  | append a =>
    show (s.worker = .returned → s.queue ++ [a] = []) ↔ s.worker ≠ .returned
    simp
  | stop => exact iff_of_true h trivial
  | work =>
    show (s.work.worker = .returned → s.work.queue = []) ↔ _
    unfold State.work LeavesNothing
    cases hw : s.worker with
    | waiting => simp
    | testing =>
      cases hq : s.queue.isEmpty with
      | true => simp
      | false => simp
    | removing =>
      cases hq : s.queue with
      | nil => simp
      | cons a rest => simp
    | handling a => simp
    | checking =>
      cases hs : s.stop with
      | true => simp
      | false => simp
    | returned => simpa [hw] using h hw

/-- What is left behind stays. -/
theorem step_not_drained {s : State α} (h : ¬ Drained s) (e : Event α) : ¬ Drained (step s e) := by
  obtain ⟨hret, hq⟩ : s.worker = .returned ∧ s.queue ≠ [] := by
    simpa [Drained] using h
  intro hd
  cases e with
  | append a => exact absurd (hd hret) (by simp [step])
  | work =>
    have hwork : s.work = s := by rw [State.work, hret]
    rw [step, hwork] at hd
    exact hq (hd hret)
  | stop => exact hq (hd hret)

theorem run_not_drained {s : State α} (h : ¬ Drained s) (es : List (Event α)) :
    ¬ Drained (run step s es) :=
  run_of_lost (I := fun _ => True) (P := Drained) (fun _ _ _ => trivial)
    (fun _ e _ hs => step_not_drained hs e) trivial h es

theorem run_drained_iff {s : State α} (h : Drained s) (es : List (Event α)) :
    Drained (run step s es) ↔ Along step LeavesNothing s es :=
  run_iff_along (I := fun _ => True) (P := Drained) (fun _ _ _ => trivial)
    (fun _ e _ hs => step_drained_iff hs e) (fun _ e _ hs => step_not_drained hs e) trivial h

end WorkQueue
