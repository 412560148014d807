import Mathlib.Data.List.Basic
import Mathlib.Data.List.Induction

/-!
# A finite map given by its history

Entries carry their keys. An entry is put under its key, and a key is dropped. What
is held under a key is decided by the last event with this key.

Results:
1. `held_eq_some_iff`: an entry is held if it was put, and nothing happened to its key
   since then.
2. `Table`: a collection that has exactly the entries that are held, with what a new
   entry (`Table.put`) and a removed one (`Table.drop`) do to it.
-/

namespace KeyedMap

variable {κ α : Type*}

inductive Event (κ α : Type*) where
  | put (a : α)
  | drop (k : κ)

def Event.key (key : α → κ) : Event κ α → κ
  | .put a => key a
  | .drop k => k

variable [DecidableEq κ] (key : α → κ)

/-- What an event leaves under the key `k`. -/
def update (k : κ) (h : Option α) : Event κ α → Option α
  | .put a => if key a = k then some a else h
  | .drop k' => if k' = k then none else h

/-- What the events leave under the key `k`. -/
def held (events : List (Event κ α)) (k : κ) : Option α := events.foldl (update key k) none

variable {key} {events : List (Event κ α)} {a b : α} {k : κ}

theorem held_concat (e : Event κ α) :
    held key (events ++ [e]) k = update key k (held key events k) e := by
  rw [held, List.foldl_concat]
  rfl

theorem update_of_ne {h : Option α} {e : Event κ α} (hne : e.key key ≠ k) :
    update key k h e = h := by
  cases e with
  | put a => exact if_neg hne
  | drop k' => exact if_neg hne

theorem held_put_self : held key (events ++ [.put a]) (key a) = some a := by
  rw [held_concat]
  exact if_pos rfl

theorem held_drop_self : held key (events ++ [.drop k]) k = none := by
  rw [held_concat]
  exact if_pos rfl

theorem held_concat_of_ne {e : Event κ α} (hne : e.key key ≠ k) :
    held key (events ++ [e]) k = held key events k := by
  rw [held_concat, update_of_ne hne]

/-- Events with other keys do not matter. -/
theorem held_append_of_ne {after : List (Event κ α)} (hne : ∀ e ∈ after, e.key key ≠ k) :
    held key (events ++ after) k = held key events k := by
  induction after using List.reverseRecOn with
  | nil => rw [List.append_nil]
  | append_singleton after e ih =>
    have hlast := hne e (List.mem_append_right _ List.mem_cons_self)
    rw [← List.append_assoc, held_concat_of_ne hlast]
    exact ih fun e' he' => hne e' (List.mem_append_left _ he')

/-- An entry is held if it was the last one put under its key, and the key was not
dropped since. -/
theorem held_eq_some_iff :
    held key events k = some a ↔ ∃ before after, events = before ++ .put a :: after ∧
      key a = k ∧ ∀ e ∈ after, e.key key ≠ k := by
  constructor
  · intro h
    induction events using List.reverseRecOn with
    | nil => cases h
    | append_singleton events e ih =>
      by_cases hkey : e.key key = k
      · subst hkey
        cases e with
        | put b =>
          obtain rfl := Option.some.inj (held_put_self.symm.trans h)
          exact ⟨events, [], rfl, rfl, fun e he => absurd he List.not_mem_nil⟩
        | drop k' => cases held_drop_self.symm.trans h
      · rw [held_concat_of_ne hkey] at h
        obtain ⟨before, after, rfl, ha, hafter⟩ := ih h
        refine ⟨before, after ++ [e], ?_, ha, fun e' he' => ?_⟩
        · rw [List.append_assoc, List.cons_append]
        · rcases List.mem_append.mp he' with hold | hnew
          · exact hafter e' hold
          · exact List.mem_singleton.mp hnew ▸ hkey
  · rintro ⟨before, after, rfl, rfl, hafter⟩
    rw [← List.singleton_append, ← List.append_assoc, held_append_of_ne hafter, held_put_self]

theorem key_of_held (h : held key events k = some a) : key a = k := by
  obtain ⟨-, -, -, ha, -⟩ := held_eq_some_iff.mp h
  exact ha

/-! ## Collections of the entries that are held -/

variable (key) in
/-- The collection has exactly the entries that are held. -/
def Table (l : List α) (events : List (Event κ α)) : Prop :=
  ∀ a, a ∈ l ↔ held key events (key a) = some a

namespace Table

variable {l l' : List α}

theorem empty : Table key [] ([] : List (Event κ α)) := fun _ =>
  iff_of_false List.not_mem_nil (Option.some_ne_none _).symm

theorem held_eq_none (h : Table key l events) : held key events k = none ↔ ∀ a ∈ l, key a ≠ k := by
  constructor
  · rintro hnone a ha rfl
    cases hnone.symm.trans ((h a).mp ha)
  · intro hne
    cases hk : held key events k with
    | none => rfl
    | some a =>
      have ha := key_of_held hk
      exact absurd ha (hne a ((h a).mpr (ha.symm ▸ hk)))

theorem put (h : Table key l events) (hfree : held key events (key a) = none)
    (hl : ∀ b, b ∈ l' ↔ b = a ∨ b ∈ l) : Table key l' (events ++ [.put a]) := by
  intro b
  rw [hl b]
  by_cases hkey : key a = key b
  · rw [← hkey, held_put_self]
    constructor
    · rintro (rfl | hb)
      · rfl
      · exact absurd hkey.symm (h.held_eq_none.mp hfree b hb)
    · exact fun hb => .inl (Option.some.inj hb).symm
  · have hne : b ≠ a := fun heq => hkey (congrArg key heq).symm
    have hother : (Event.put a : Event κ α).key key ≠ key b := hkey
    rw [held_concat_of_ne hother, or_iff_right hne]
    exact h b

theorem drop (h : Table key l events) (hl : ∀ b, b ∈ l' ↔ b ∈ l ∧ key b ≠ k) :
    Table key l' (events ++ [.drop k]) := by
  intro b
  rw [hl b]
  by_cases hkey : k = key b
  · subst hkey
    rw [held_drop_self]
    exact iff_of_false (fun hb => hb.2 rfl) (Option.some_ne_none b).symm
  · have hne : key b ≠ k := fun heq => hkey heq.symm
    have hother : (Event.drop k : Event κ α).key key ≠ key b := hkey
    rw [held_concat_of_ne hother, and_iff_left hne]
    exact h b

end Table

end KeyedMap
