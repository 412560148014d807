import Mathlib.Data.List.Basic

/-!
# A row and the row behind it

A table gives the extent of a row by the row behind it. `firstPair` is the first row of
a kind with the row behind it. A search that reads the rows one after the other keeps
the row that it found until it sees the next one, and can so run over the end of one
table into the next.

Results:
1. `firstPair_eq_some_iff`: the pair in the table.
2. `search_eq_pair_iff`: a search of one table finds its pair.
3. `search_eq_pending_iff`: when a search leaves a table with a row that it found.
4. `search_append`: a search of two tables is one of the joined table.
-/

namespace FirstPair

variable {α : Type*} (p : α → Prop) [DecidablePred p]

/-- The first row of the kind `p` that has a row behind it, and that row. -/
def firstPair : List α → Option (α × α)
  | a :: b :: rows => if p a then some (a, b) else firstPair (b :: rows)
  | [_] | [] => none

/-- A search ends with a pair, or at the end of the rows with the row that it found. -/
inductive Outcome (α : Type*) where
  | pair (a b : α)
  | pending (found : Option α)

/-- The search, with the row that it found so far. -/
def search : Option α → List α → Outcome α
  | found, [] => .pending found
  | some a, b :: _ => .pair a b
  | none, b :: rows => search (if p b then some b else none) rows

variable {p} {a b c : α} {found : Option α} {rows table next : List α}

/-! ## The pair of a table -/

theorem firstPair_cons_of_pos (h : p a) : firstPair p (a :: b :: rows) = some (a, b) := if_pos h

theorem firstPair_cons_of_neg (h : ¬ p a) : firstPair p (a :: rows) = firstPair p rows := by
  cases rows with
  | nil => rfl
  | cons b rows => exact if_neg h

theorem firstPair_isSome_of_pos (h : p a) (hrows : rows ≠ []) :
    (firstPair p (a :: rows)).isSome := by
  obtain ⟨b, rows, rfl⟩ := List.exists_cons_of_ne_nil hrows
  rw [firstPair_cons_of_pos h]
  rfl

/-- The row of the pair is the first one of its kind. -/
theorem firstPair_eq_some_iff : firstPair p table = some (a, b) ↔
    ∃ front rest, table = front ++ a :: b :: rest ∧ p a ∧ ∀ c ∈ front, ¬ p c := by
  constructor
  · intro h
    induction table with
    | nil => cases h
    | cons c rows ih =>
      by_cases hc : p c
      · cases rows with
        | nil => cases h
        | cons d rows =>
          rw [firstPair_cons_of_pos hc] at h
          cases h
          exact ⟨[], rows, rfl, hc, List.forall_mem_nil _⟩
      · rw [firstPair_cons_of_neg hc] at h
        obtain ⟨front, rest, rfl, ha, hfront⟩ := ih h
        exact ⟨c :: front, rest, rfl, ha, List.forall_mem_cons.mpr ⟨hc, hfront⟩⟩
  · rintro ⟨front, rest, rfl, ha, hfront⟩
    induction front with
    | nil => exact firstPair_cons_of_pos ha
    | cons c front ih =>
      obtain ⟨hc, hfront⟩ := List.forall_mem_cons.mp hfront
      rw [List.cons_append, firstPair_cons_of_neg hc]
      exact ih hfront

/-- There is a pair exactly if some row of the kind has a row behind it. -/
theorem firstPair_isSome_iff : (firstPair p table).isSome ↔
    ∃ front a b rest, table = front ++ a :: b :: rest ∧ p a := by
  constructor
  · intro h
    obtain ⟨⟨a, b⟩, hab⟩ := Option.isSome_iff_exists.mp h
    obtain ⟨front, rest, htable, ha, -⟩ := firstPair_eq_some_iff.mp hab
    exact ⟨front, a, b, rest, htable, ha⟩
  · rintro ⟨front, a, b, rest, rfl, ha⟩
    induction front with
    | nil => exact firstPair_isSome_of_pos ha (List.cons_ne_nil _ _)
    | cons c front ih =>
      by_cases hc : p c
      · have hrows : front ++ a :: b :: rest ≠ [] :=
          List.append_ne_nil_of_right_ne_nil _ (List.cons_ne_nil _ _)
        exact firstPair_isSome_of_pos hc hrows
      · rw [List.cons_append, firstPair_cons_of_neg hc]
        exact ih

/-! ## The search -/

theorem search_cons_of_neg (h : ¬ p a) : search p none (a :: rows) = search p none rows := by
  rw [search, if_neg h]

theorem search_cons_of_pos (h : p a) : search p none (a :: rows) = search p (some a) rows := by
  rw [search, if_pos h]

/-- A search goes on in the next table with the row that it found in this one. -/
theorem search_append {found' : Option α} (h : search p found table = .pending found') :
    search p found (table ++ next) = search p found' next := by
  induction table generalizing found with
  | nil =>
    cases h
    rfl
  | cons c rows ih =>
    cases found with
    | some a => cases h
    | none => exact ih h

theorem search_append_of_pair (h : search p found table = .pair a b) :
    search p found (table ++ next) = .pair a b := by
  induction table generalizing found with
  | nil => cases h
  | cons c rows ih =>
    cases found with
    | some a => exact h
    | none => exact ih h

/-- A search of one table finds its pair. -/
theorem search_eq_pair_iff : search p none table = .pair a b ↔ firstPair p table = some (a, b) := by
  induction table with
  | nil => constructor <;> intro h <;> cases h
  | cons c rows ih =>
    by_cases hc : p c
    · rw [search_cons_of_pos hc]
      cases rows with
      | nil => constructor <;> intro h <;> cases h
      | cons d rows =>
        rw [firstPair_cons_of_pos hc, search, Outcome.pair.injEq, Option.some.injEq, Prod.mk.injEq]
    · rw [search_cons_of_neg hc, firstPair_cons_of_neg hc]
      exact ih

/-- A row is left over if it is the last one, and the only one of its kind. -/
theorem search_eq_pending_iff : search p none table = .pending (some a) ↔
    ∃ front, table = front ++ [a] ∧ p a ∧ ∀ c ∈ front, ¬ p c := by
  constructor
  · intro h
    induction table with
    | nil => cases h
    | cons c rows ih =>
      by_cases hc : p c
      · rw [search_cons_of_pos hc] at h
        cases rows with
        | nil =>
          cases h
          exact ⟨[], rfl, hc, List.forall_mem_nil _⟩
        | cons d rows => cases h
      · rw [search_cons_of_neg hc] at h
        obtain ⟨front, rfl, ha, hfront⟩ := ih h
        exact ⟨c :: front, rfl, ha, List.forall_mem_cons.mpr ⟨hc, hfront⟩⟩
  · rintro ⟨front, rfl, ha, hfront⟩
    induction front with
    | nil => exact search_cons_of_pos ha
    | cons c front ih =>
      obtain ⟨hc, hfront⟩ := List.forall_mem_cons.mp hfront
      rw [List.cons_append, search_cons_of_neg hc]
      exact ih hfront

end FirstPair
