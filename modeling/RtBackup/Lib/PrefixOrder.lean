import Mathlib.Data.List.Lex
import Mathlib.Order.Compare
import Mathlib.Data.UInt

/-!
# Truncated comparison of strings

A C program that looks for a prefix compares its argument with a key by
`strncmp(arg, key, strlen(key))`. This comparison is not an order: two keys
may both answer "equal" for one argument. This file relates it to the
lexicographic order, which is one.

Results:
1. `cmpPrefix_eq_iff`, `cmpPrefix_lt_iff`, `cmpPrefix_gt_iff`: the three
   answers in terms of "is a prefix of" and of the lexicographic order.
2. `prefix_of_between`: the strings that start with `a` are an interval of the
   lexicographic order.
3. `cmpPrefix_eq_iff_of_length`: on strings of one length the comparison is
   the equality test (`memcmp`).
-/

instance UInt8.linearOrder : LinearOrder UInt8 where
  le_refl := UInt8.le_refl
  le_trans _ _ _ := UInt8.le_trans
  le_antisymm _ _ := UInt8.le_antisymm
  le_total := UInt8.le_total
  lt_iff_le_not_ge a b := by rw [UInt8.not_le]; exact ⟨fun h => ⟨UInt8.le_of_lt h, h⟩, And.right⟩
  toDecidableLE := inferInstance

namespace PrefixOrder

variable {α : Type*} [LinearOrder α]

/-- `strncmp(s, t, n)` on two strings without their terminators. The end of a
string is below every letter. -/
def cmpUpTo : List α → List α → Nat → Ordering
  | _, _, 0 => .eq
  | [], [], _ + 1 => .eq
  | [], _ :: _, _ + 1 => .lt
  | _ :: _, [], _ + 1 => .gt
  | a :: s, b :: t, n + 1 =>
    if a < b then .lt else if b < a then .gt else cmpUpTo s t n

/-- `strncmp(s, key, strlen(key))`. -/
def cmpPrefix (s key : List α) : Ordering :=
  cmpUpTo s key key.length

@[simp] theorem cmpPrefix_nil (s : List α) : cmpPrefix s [] = .eq := by
  cases s <;> rfl

@[simp] theorem cmpPrefix_nil_cons (b : α) (t : List α) : cmpPrefix [] (b :: t) = .lt := rfl

theorem cmpPrefix_cons_cons (a b : α) (s t : List α) :
    cmpPrefix (a :: s) (b :: t) =
      if a < b then .lt else if b < a then .gt else cmpPrefix s t := rfl

/-- The answer "equal" means that the key is a prefix of the argument. -/
theorem cmpPrefix_eq_iff {s key : List α} : cmpPrefix s key = .eq ↔ key <+: s := by
  induction key generalizing s with
  | nil => simp
  | cons b t ih =>
    cases s with
    | nil => simp
    | cons a s =>
      rw [cmpPrefix_cons_cons, List.cons_prefix_cons]
      rcases lt_trichotomy a b with h | h | h
      · simp [h, h.ne']
      · simp [h, ih]
      · simp [h, h.ne, not_lt_of_gt h]

/-- The answer "less" means that the argument is below the key. -/
theorem cmpPrefix_lt_iff {s key : List α} : cmpPrefix s key = .lt ↔ s < key := by
  induction key generalizing s with
  | nil => simp
  | cons b t ih =>
    cases s with
    | nil => simp
    | cons a s =>
      rw [cmpPrefix_cons_cons, List.cons_lt_cons_iff]
      rcases lt_trichotomy a b with h | h | h
      · simp [h]
      · simp [h, ih]
      · simp [h, h.ne', not_lt_of_gt h]

theorem le_of_isPrefix {s t : List α} (h : s <+: t) : s ≤ t := by
  rw [← not_lt, ← cmpPrefix_lt_iff, cmpPrefix_eq_iff.mpr h]
  decide

/-- The answer "greater" means that the argument is above the key and does
not start with it. -/
theorem cmpPrefix_gt_iff {s key : List α} :
    cmpPrefix s key = .gt ↔ key < s ∧ ¬ key <+: s := by
  cases h : cmpPrefix s key with
  | lt =>
    have hlt := cmpPrefix_lt_iff.mp h
    simp [not_lt_of_gt hlt]
  | eq => simp [cmpPrefix_eq_iff.mp h]
  | gt =>
    have hnp : ¬ key <+: s := fun hp => by simp [cmpPrefix_eq_iff.mpr hp] at h
    have hnl : ¬ s < key := fun hl => by simp [cmpPrefix_lt_iff.mpr hl] at h
    have hne : key ≠ s := fun he => hnp (he ▸ List.prefix_refl _)
    simpa [hnp] using lt_of_le_of_ne (not_lt.mp hnl) hne

/-- The strings that start with `a` are an interval. -/
theorem prefix_of_between {a m b : List α} (hab : a <+: b) (ham : a ≤ m) (hmb : m ≤ b) :
    a <+: m := by
  induction a generalizing m b with
  | nil => exact List.nil_prefix
  | cons x a ih =>
    cases b with
    | nil => simp at hab
    | cons y b =>
      obtain ⟨rfl, htail⟩ := List.cons_prefix_cons.mp hab
      cases m with
      | nil => exact absurd (List.nil_lt_cons x a) (not_lt.mpr ham)
      | cons z m =>
        rw [← not_lt, List.cons_lt_cons_iff] at ham hmb
        have hxz : x = z :=
          le_antisymm (not_lt.mp fun h => ham (.inl h)) (not_lt.mp fun h => hmb (.inl h))
        subst hxz
        have ham' : a ≤ m := not_lt.mp fun h => ham (.inr ⟨rfl, h⟩)
        have hmb' : m ≤ b := not_lt.mp fun h => hmb (.inr ⟨rfl, h⟩)
        exact List.cons_prefix_cons.mpr ⟨rfl, ih htail ham' hmb'⟩

/-- On strings of one length the comparison tests equality. -/
theorem cmpPrefix_eq_iff_of_length {s t : List α} (h : s.length = t.length) :
    cmpPrefix s t = .eq ↔ s = t := by
  rw [cmpPrefix_eq_iff]
  exact ⟨fun hp => (hp.eq_of_length h.symm).symm, fun he => he ▸ List.prefix_refl _⟩

/-- On strings of one length the comparison is the lexicographic order. -/
theorem cmpPrefix_gt_iff_of_length {s t : List α} (h : s.length = t.length) :
    cmpPrefix s t = .gt ↔ t < s := by
  rw [cmpPrefix_gt_iff]
  refine ⟨And.left, fun hlt => ⟨hlt, fun hp => ?_⟩⟩
  exact hlt.ne (hp.eq_of_length h.symm)

end PrefixOrder
