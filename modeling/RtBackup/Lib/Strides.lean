/-!
# Walks with strides of different lengths

A stream of records, each of a length of its own, is walked from one record to the
next. `len` gives the length of the record at a position, and 0 where there is none.

Results:
1. `Walk.step_le`: the records of a walk do not overlap.
2. `Stops`: where a walk that goes on up to a limit comes to an end.
-/

namespace Strides

variable {len : Nat → Nat} {p q n limit : Nat}

/-- Records follow one another from `p` to `q`. -/
inductive Walk (len : Nat → Nat) : Nat → Nat → Prop
  | here {p : Nat} : Walk len p p
  | stride {p q : Nat} : len p ≠ 0 → Walk len (p + len p) q → Walk len p q

namespace Walk

theorem le (h : Walk len p q) : p ≤ q := by
  induction h with
  | here => exact Nat.le_refl _
  | stride _ _ ih => exact Nat.le_of_add_right_le ih

theorem step {k : Nat} (h : Walk len p q) (hk : len q = k) (hne : k ≠ 0) :
    Walk len p (q + k) := by
  induction h with
  | here =>
    subst hk
    exact .stride hne .here
  | stride hp _ ih => exact .stride hp (ih hk)

/-- A record ends in front of the next one. -/
theorem step_le (hq : Walk len p q) (hn : Walk len p n) (hlt : q < n) : q + len q ≤ n := by
  induction hq with
  | here =>
    cases hn with
    | here => exact absurd hlt (Nat.lt_irrefl _)
    | stride _ hrest => exact hrest.le
  | stride _ hq ih =>
    cases hn with
    | here =>
      have hle := hq.le
      omega
    | stride _ hrest => exact ih hrest hlt

end Walk

/-- `n` is the first position of the walk that is not below the limit. -/
structure Stops (len : Nat → Nat) (limit p n : Nat) : Prop where
  walk : Walk len p n
  limit_le : limit ≤ n
  first : ∀ b, Walk len p b → limit ≤ b → n ≤ b

namespace Stops

theorem here (h : limit ≤ p) : Stops len limit p p :=
  ⟨.here, h, fun _ hb _ => hb.le⟩

theorem stride (hlt : p < limit) (hne : len p ≠ 0) (h : Stops len limit (p + len p) n) :
    Stops len limit p n := by
  refine ⟨.stride hne h.walk, h.limit_le, fun b hb hle => ?_⟩
  cases hb with
  | here => exact absurd hlt (Nat.not_lt.mpr hle)
  | stride _ hrest => exact h.first b hrest hle

/-- Some position of the walk lies between the limit and `size` if and only if the
first one does. -/
theorem le_iff (h : Stops len limit p n) {size : Nat} :
    n ≤ size ↔ ∃ b, Walk len p b ∧ limit ≤ b ∧ b ≤ size :=
  ⟨fun hle => ⟨n, h.walk, h.limit_le, hle⟩,
    fun ⟨b, hb, hlimit, hle⟩ => Nat.le_trans (h.first b hb hlimit) hle⟩

end Stops

end Strides
