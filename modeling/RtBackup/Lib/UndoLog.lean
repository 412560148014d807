import Mathlib.Data.Set.Function
import Mathlib.Data.Set.BooleanAlgebra
import Mathlib.Order.CompletePartialOrder
import Mathlib.Logic.Function.Basic

/-!
# Patches that are taken back

A memory is changed at some sites and later set back site by site, in any order.
For each patch that is in force, what its site held before is kept. It is enough
that no two patches in force have common places: then every saved content is the
original one.

Results:
1. `Undoable.patch`, `Undoable.undo`: a patch and its removal keep the invariant.
2. `Undoable.eq_of_none`: without patches the memory is the original one.
-/

namespace UndoLog

variable {α β ι : Type*} {site : ι → Set α} {orig cur : α → β} {saved : ι → Option (α → β)}

/-- The patches in force are those that have a saved content; it matters at
their sites only. -/
structure Undoable (site : ι → Set α) (orig : α → β) (saved : ι → Option (α → β)) (cur : α → β) :
    Prop where
  outside : ∀ a, (∀ i, (saved i).isSome = true → a ∉ site i) → cur a = orig a
  saved_eq : ∀ i old, saved i = some old → Set.EqOn old orig (site i)

namespace Undoable

theorem start (hnone : ∀ i, saved i = none) : Undoable site orig saved orig where
  outside _ _ := rfl
  saved_eq i _ hold := absurd ((hnone i).symm.trans hold) nofun

/-- A place that no patch in force covers holds what it held at first. -/
theorem eqOn_of_disjoint (h : Undoable site orig saved cur) {s : Set α}
    (hs : ∀ i, (saved i).isSome = true → Disjoint (site i) s) : Set.EqOn cur orig s :=
  fun a ha => h.outside a fun i hi hmem => Set.disjoint_left.mp (hs i hi) hmem ha

variable [DecidableEq ι]

theorem patch (h : Undoable site orig saved cur) {i : ι} {old new : α → β}
    (hdisjoint : ∀ j, (saved j).isSome = true → Disjoint (site j) (site i))
    (hold : Set.EqOn old cur (site i)) (hnew : ∀ a ∉ site i, new a = cur a) :
    Undoable site orig (Function.update saved i (some old)) new where
  outside a ha := by
    have hi : a ∉ site i := ha i (by rw [Function.update_self]; rfl)
    rw [hnew a hi]
    refine h.outside a fun j hj => ?_
    by_cases hji : j = i
    · exact hji ▸ hi
    · exact ha j (by rw [Function.update_of_ne hji]; exact hj)
  saved_eq j old' hold' := by
    by_cases hji : j = i
    · subst hji
      rw [Function.update_self] at hold'
      obtain rfl := Option.some.inj hold'
      exact hold.trans (h.eqOn_of_disjoint hdisjoint)
    · rw [Function.update_of_ne hji] at hold'
      exact h.saved_eq j old' hold'

theorem undo (h : Undoable site orig saved cur) {i : ι} {old new : α → β}
    (hi : saved i = some old) (hold : Set.EqOn new old (site i))
    (hnew : ∀ a ∉ site i, new a = cur a) :
    Undoable site orig (Function.update saved i none) new where
  outside a ha := by
    by_cases hmem : a ∈ site i
    · exact (hold hmem).trans (h.saved_eq i old hi hmem)
    · rw [hnew a hmem]
      refine h.outside a fun j hj => ?_
      by_cases hji : j = i
      · exact hji ▸ hmem
      · exact ha j (by rw [Function.update_of_ne hji]; exact hj)
  saved_eq j old' hold' := by
    by_cases hji : j = i
    · subst hji
      rw [Function.update_self] at hold'
      exact absurd hold' nofun
    · rw [Function.update_of_ne hji] at hold'
      exact h.saved_eq j old' hold'

omit [DecidableEq ι] in
theorem eq_of_none (h : Undoable site orig saved cur) (hnone : ∀ i, saved i = none) : cur = orig :=
  funext fun a => h.outside a fun i hi => absurd ((hnone i) ▸ hi) nofun

end Undoable

end UndoLog
