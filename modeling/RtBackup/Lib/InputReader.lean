import Mathlib.Data.List.Basic
import Mathlib.Control.Monad.Basic

/-!
# Readers of input

A reader takes items from the front of its input, or fails. Some look at items
that they leave in place. What a reader takes does not depend on what follows,
unless it looks there.

Results:
1. `Takes.unique`: of the inputs that a reader takes, none starts another.
2. `Local.none_of_short`: a reader that looks at nothing else fails on less than
   what it takes.
3. `Looks.bind`: looking ahead does no harm where what was looked at is taken
   next.
-/

namespace InputReader

variable {β α γ : Type}

abbrev Reader (β α : Type) := StateT (List β) Option α

/-! ## Readers -/

/-- The next item, which is taken. -/
def next : Reader β β
  | [] => none
  | b :: rest => some (b, rest)

/-- The item `n` places on, which stays where it is. -/
def peek (n : Nat) : Reader β β := fun input => input[n]?.map (·, input)

/-- The next `n` items. -/
def take (n : Nat) : Reader β (List β) := fun input =>
  if n ≤ input.length then some (input.take n, input.drop n) else none

/-- A result that is made of the next `n` items. -/
def takeWith (n : Nat) (g : List β → α) : Reader β α := do
  let items ← take n
  return g items

/-! ## What is taken -/

/-- The reader takes `c` and leaves everything behind it alone. -/
def Takes (m : Reader β α) (c : List β) (a : α) : Prop := ∀ r, m (c ++ r) = some (a, r)

/-- The reader takes `c` after a look at `u`. -/
def Looks (m : Reader β α) (c u : List β) (a : α) : Prop :=
  ∀ r, m (c ++ (u ++ r)) = some (a, u ++ r)

/-- The reader looks at nothing but what it takes. -/
def Local (m : Reader β α) : Prop :=
  ∀ input a r, m input = some (a, r) → ∃ c, input = c ++ r ∧ Takes m c a

theorem bind_apply (m : Reader β α) (f : α → Reader β γ) (input : List β) :
    (m >>= f) input = (m input).bind fun p => f p.1 p.2 := rfl

theorem bind_eq_some {m : Reader β α} {f : α → Reader β γ} {input r : List β} {b : γ} :
    (m >>= f) input = some (b, r) ↔ ∃ a s, m input = some (a, s) ∧ f a s = some (b, r) := by
  rw [bind_apply, Option.bind_eq_some_iff]
  exact Prod.exists

theorem pure_apply (a : α) (input : List β) : (pure a : Reader β α) input = some (a, input) := rfl

/-- Readers may be compared on the results of what goes before. -/
theorem bind_congr_of_result {m : Reader β α} {f g : α → Reader β γ}
    (h : ∀ input a r, m input = some (a, r) → f a = g a) : m >>= f = m >>= g := by
  funext input
  rw [bind_apply, bind_apply]
  cases hm : m input with
  | none => rfl
  | some p => exact congrFun (h input p.1 p.2 hm) p.2

theorem takes_pure (a : α) : Takes (pure a : Reader β α) [] a := fun _ => rfl

theorem takes_take (c : List β) : Takes (take c.length) c c := fun r => by
  rw [take, if_pos (by simp), List.take_left, List.drop_left]

theorem Takes.bind {m : Reader β α} {f : α → Reader β γ} {c d : List β} {a : α} {b : γ}
    (hm : Takes m c a) (hf : Takes (f a) d b) : Takes (m >>= f) (c ++ d) b := fun r => by
  rw [bind_apply, List.append_assoc, hm]
  exact hf r

theorem Takes.bind_pure {m : Reader β α} {f : α → Reader β γ} {c : List β} {a : α} {b : γ}
    (hm : Takes m c a) (hf : Takes (f a) [] b) : Takes (m >>= f) c b := by
  simpa using hm.bind hf

/-- What was looked at is taken next. -/
theorem Looks.bind {m : Reader β α} {f : α → Reader β γ} {c u d : List β} {a : α} {b : γ}
    (hm : Looks m c u a) (hf : Takes (f a) (u ++ d) b) : Takes (m >>= f) (c ++ (u ++ d)) b :=
  fun r => by
    rw [bind_apply, List.append_assoc, List.append_assoc, hm, ← List.append_assoc]
    exact hf r

theorem Takes.unique {m : Reader β α} {c d r s : List β} {a b : α} (hc : Takes m c a)
    (hd : Takes m d b) (h : c ++ r = d ++ s) : c = d ∧ a = b := by
  have heq := (hc r).symm.trans ((congrArg m h).trans (hd s))
  obtain ⟨rfl, rfl⟩ := Prod.mk.inj (Option.some.inj heq)
  exact ⟨List.append_cancel_right h, rfl⟩

theorem take_eq_some {n : Nat} {input c r : List β} (h : take n input = some (c, r)) :
    input = c ++ r ∧ c.length = n := by
  unfold take at h
  split at h
  · next hle =>
    cases h
    exact ⟨(List.take_append_drop _ _).symm, List.length_take_of_le hle⟩
  · cases h

theorem takeWith_eq_some {n : Nat} {g : List β → α} {input r : List β} {a : α}
    (h : takeWith n g input = some (a, r)) : ∃ c, input = c ++ r ∧ c.length = n ∧ a = g c := by
  obtain ⟨c, s, hc, ha⟩ := bind_eq_some.mp h
  cases ha
  obtain ⟨heq, hlen⟩ := take_eq_some hc
  exact ⟨c, heq, hlen, rfl⟩

theorem takes_takeWith (g : List β → α) (c : List β) : Takes (takeWith c.length g) c (g c) :=
  (takes_take c).bind_pure (takes_pure _)

theorem takeWith_zero (g : List β → α) : takeWith 0 g = pure (g []) := rfl

theorem takeWith_congr {n : Nat} {g g' : List β → α} (h : ∀ c, c.length = n → g c = g' c) :
    takeWith n g = takeWith n g' :=
  bind_congr_of_result fun _ c _ hc => congrArg pure (h c (take_eq_some hc).2)

theorem takeWith_bind_pure (n : Nat) (g : List β → α) (f : α → γ) :
    (takeWith n g >>= fun a => pure (f a)) = takeWith n fun c => f (g c) := by
  rw [takeWith, bind_assoc]
  rfl

theorem takeWith_bind_congr {n : Nat} {g : List β → α} {f k : α → Reader β γ}
    (h : ∀ c, f (g c) = k (g c)) : takeWith n g >>= f = takeWith n g >>= k := by
  simp only [takeWith, bind_assoc, pure_bind, h]

/-- Two reads in a row are one read. -/
theorem takeWith_bind_takeWith (m n : Nat) (g : List β → α) (f : α → List β → γ) :
    (takeWith m g >>= fun a => takeWith n (f a)) =
      takeWith (m + n) fun c => f (g (c.take m)) (c.drop m) := by
  funext input
  simp only [takeWith, bind_apply, take]
  by_cases hm : m ≤ input.length
  · by_cases hn : n ≤ (input.drop m).length
    · have hmn : m + n ≤ input.length := by
        rw [List.length_drop] at hn
        omega
      simp only [if_pos hm, if_pos hn, if_pos hmn, Option.bind_some, pure_apply,
        List.take_take, List.drop_take, List.drop_drop, Nat.min_eq_left (Nat.le_add_right m n),
        Nat.add_sub_cancel_left]
    · have hmn : ¬m + n ≤ input.length := by
        rw [List.length_drop] at hn
        omega
      simp only [if_pos hm, if_neg hn, if_neg hmn, Option.bind_some, Option.bind_none, pure_apply]
  · have hmn : ¬m + n ≤ input.length := by omega
    simp only [if_neg hm, if_neg hmn, Option.bind_none]

/-- One item at a time. -/
theorem next_bind_pure (d : β) (f : β → α) :
    (next >>= fun b => pure (f b)) = takeWith 1 fun c => f (c.headD d) := by
  funext input
  cases input with
  | nil => rfl
  | cons b rest => simp [takeWith, bind_apply, take, next, pure_apply]

/-- Nothing is found in less than what is taken. -/
theorem Local.none_of_short {m : Reader β α} (hm : Local m) {c d e : List β} {a : α}
    (hc : Takes m c a) (h : c = d ++ e) (he : e ≠ []) : m d = none := by
  cases hd : m d with
  | none => rfl
  | some p =>
    obtain ⟨d', rfl, hd'⟩ := hm d p.1 p.2 hd
    have hwhole : d' ++ (p.2 ++ e) = c ++ [] := by rw [h, List.append_nil, List.append_assoc]
    obtain ⟨rfl, -⟩ := hd'.unique hc hwhole
    have hlen := congrArg List.length h
    have hpos := List.length_pos_iff.mpr he
    simp only [List.length_append] at hlen
    omega

end InputReader
