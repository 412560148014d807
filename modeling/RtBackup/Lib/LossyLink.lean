import Mathlib.Data.List.Perm.Basic
import Mathlib.Logic.Function.Iterate

/-!
# A queue that loses messages, with any number of senders

A sender issues some messages at once and then sends them one by one, in order.
Between two of its sends other senders may send. A message that is sent is
appended to the queue or lost. The receiver takes messages off the queue.

Beside the queue a link keeps the messages that were issued, sent, lost and taken
so far.

Results:
1. `Sound.issue`, `Sound.post`, `Sound.take`: an issued message is waiting at its
   sender, lost or sent, each once, and what was sent was taken or is in the queue,
   in order.
2. `iterate_take`: as many rounds as there are messages in the queue take all.
-/

namespace LossyLink

variable {α : Type*}

structure Link (α : Type*) where
  /-- What the senders under way have still to send. -/
  outbox : List (List α) := []
  queue : List α := []
  issued : List α := []
  sent : List α := []
  lost : List α := []
  taken : List α := []

namespace Link

/-- A sender starts with the messages `ms`. -/
def issue (ms : List α) (l : Link α) : Link α :=
  { l with outbox := l.outbox ++ [ms], issued := l.issued ++ ms }

/-- The sender `i` sends its next message. -/
def post (i : Nat) (delivered : Bool) (l : Link α) : Link α :=
  match l.outbox[i]? with
  | some (m :: rest) =>
    if delivered then
      { l with outbox := l.outbox.set i rest, queue := l.queue ++ [m], sent := l.sent ++ [m] }
    else { l with outbox := l.outbox.set i rest, lost := l.lost ++ [m] }
  | _ => l

/-- The message that `post` appends to the queue. -/
def posted (i : Nat) (delivered : Bool) (l : Link α) : Option α :=
  if delivered then l.outbox[i]?.bind List.head? else none

def take (l : Link α) : Link α :=
  match l.queue with
  | m :: rest => { l with queue := rest, taken := l.taken ++ [m] }
  | [] => l

structure Sound (l : Link α) : Prop where
  issued_perm : l.issued.Perm (l.sent ++ (l.lost ++ l.outbox.flatten))
  sent_eq : l.sent = l.taken ++ l.queue

end Link

open Link

/-- The first message of a sender, taken from all that wait. -/
theorem flatten_perm_set {outbox : List (List α)} {i : Nat} {m : α} {rest : List α}
    (h : outbox[i]? = some (m :: rest)) :
    outbox.flatten.Perm (m :: (outbox.set i rest).flatten) := by
  induction outbox generalizing i with
  | nil => cases h
  | cons ms outbox ih =>
    cases i with
    | zero =>
      obtain rfl := Option.some.inj h
      exact List.Perm.refl _
    | succ i =>
      rw [List.set_cons_succ, List.flatten_cons, List.flatten_cons]
      exact ((ih h).append_left ms).trans List.perm_middle

/-- A sender has nothing to send, or sends its first message. -/
theorem post_cases (i : Nat) (delivered : Bool) (l : Link α) :
    l.post i delivered = l ∨
    ∃ m rest, l.outbox[i]? = some (m :: rest) ∧
      (delivered = true ∧ l.post i delivered =
          { l with outbox := l.outbox.set i rest, queue := l.queue ++ [m], sent := l.sent ++ [m] } ∨
        delivered = false ∧ l.post i delivered =
          { l with outbox := l.outbox.set i rest, lost := l.lost ++ [m] }) := by
  unfold post
  split
  · next m rest h =>
    cases delivered with
    | true => exact .inr ⟨m, rest, h, .inl ⟨rfl, rfl⟩⟩
    | false => exact .inr ⟨m, rest, h, .inr ⟨rfl, rfl⟩⟩
  · exact .inl rfl

theorem post_queue (i : Nat) (delivered : Bool) (l : Link α) :
    (l.post i delivered).queue = l.queue ++ (l.posted i delivered).toList := by
  unfold post posted
  cases delivered with
  | true =>
    rcases h : l.outbox[i]? with - | - | ⟨m, rest⟩
    · exact (List.append_nil _).symm
    · exact (List.append_nil _).symm
    · rfl
  | false =>
    rcases l.outbox[i]? with - | - | ⟨m, rest⟩ <;> exact (List.append_nil _).symm

theorem take_nil {l : Link α} (h : l.queue = []) : l.take = l := by
  rw [take, h]

theorem take_cons {l : Link α} {m : α} {rest : List α} (h : l.queue = m :: rest) :
    l.take = { l with queue := rest, taken := l.taken ++ [m] } := by
  rw [take, h]

theorem post_taken (i : Nat) (delivered : Bool) (l : Link α) :
    (l.post i delivered).taken = l.taken := by
  rcases post_cases i delivered l with h | ⟨m, rest, -, ⟨-, h⟩ | ⟨-, h⟩⟩ <;> rw [h]

theorem post_issued (i : Nat) (delivered : Bool) (l : Link α) :
    (l.post i delivered).issued = l.issued := by
  rcases post_cases i delivered l with h | ⟨m, rest, -, ⟨-, h⟩ | ⟨-, h⟩⟩ <;> rw [h]

theorem take_issued (l : Link α) : l.take.issued = l.issued := by
  cases h : l.queue with
  | nil => rw [take_nil h]
  | cons m rest => rw [take_cons h]

theorem sound_empty : Sound ({} : Link α) := ⟨List.Perm.refl _, rfl⟩

namespace Link.Sound

variable {l : Link α}

theorem issue (h : Sound l) (ms : List α) : Sound (l.issue ms) where
  issued_perm := by
    show (l.issued ++ ms).Perm (l.sent ++ (l.lost ++ (l.outbox ++ [ms]).flatten))
    rw [List.flatten_append, List.flatten_singleton, ← List.append_assoc l.lost,
      ← List.append_assoc l.sent]
    exact h.issued_perm.append_right ms
  sent_eq := h.sent_eq

theorem post (h : Sound l) (i : Nat) (delivered : Bool) : Sound (l.post i delivered) := by
  rcases post_cases i delivered l with heq | ⟨m, rest, hm, ⟨-, heq⟩ | ⟨-, heq⟩⟩ <;> rw [heq]
  · exact h
  · refine ⟨h.issued_perm.trans ?_, ?_⟩
    · show List.Perm _ ((l.sent ++ [m]) ++ (l.lost ++ (l.outbox.set i rest).flatten))
      rw [List.append_assoc l.sent]
      exact (((flatten_perm_set hm).append_left l.lost).trans List.perm_middle).append_left l.sent
    · show l.sent ++ [m] = l.taken ++ (l.queue ++ [m])
      rw [h.sent_eq, List.append_assoc]
  · refine ⟨h.issued_perm.trans ?_, h.sent_eq⟩
    show List.Perm _ (l.sent ++ ((l.lost ++ [m]) ++ (l.outbox.set i rest).flatten))
    rw [List.append_assoc l.lost]
    exact ((flatten_perm_set hm).append_left l.lost).append_left l.sent

theorem take (h : Sound l) : Sound l.take := by
  cases hq : l.queue with
  | nil => rwa [take_nil hq]
  | cons m rest =>
    rw [take_cons hq]
    refine ⟨h.issued_perm, ?_⟩
    show l.sent = (l.taken ++ [m]) ++ rest
    rw [h.sent_eq, hq, List.append_assoc]
    rfl

theorem taken_prefix (h : Sound l) : l.taken <+: l.sent := ⟨l.queue, h.sent_eq.symm⟩

theorem sent_subset (h : Sound l) : l.sent ⊆ l.issued := fun _ hm =>
  h.issued_perm.mem_iff.mpr (List.mem_append_left _ hm)

theorem taken_subset (h : Sound l) : l.taken ⊆ l.issued := fun _ hm =>
  h.sent_subset (h.taken_prefix.subset hm)

end Link.Sound

/-- As many rounds as there are messages in the queue take all of them. -/
theorem iterate_take (l : Link α) :
    Link.take^[l.queue.length] l = { l with queue := [], taken := l.taken ++ l.queue } := by
  generalize hq : l.queue = ms
  induction ms generalizing l with
  | nil =>
    obtain ⟨outbox, queue, issued, sent, lost, taken⟩ := l
    obtain rfl : queue = [] := hq
    rw [List.append_nil]
    rfl
  | cons m rest ih =>
    rw [List.length_cons, Function.iterate_succ_apply, take_cons hq, ih _ rfl]
    rw [List.append_assoc]
    rfl

end LossyLink
