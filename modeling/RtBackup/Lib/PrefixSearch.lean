import RtBackup.Lib.PrefixOrder
import RtBackup.Lib.SearchTree

/-!
# Search trees walked by a truncated comparison

A tree is sorted by the strings of its nodes, and a walk for a string compares it
with each of them only as far as the latter goes. Where one key is a prefix of
another, both compare equal to the strings below the longer one, and the walk
ends on the first it meets. Two strings are answered alike as long as no key
lies between them.

Results:
1. `prefixSearch_between`, `prefixSearch_extend`: for which other strings a walk
   ends on the same node.
2. `prefixSearch_of_last`, `prefixSearch_of_mem`: when a walk ends on a node, which
   need not be that of the longest prefix.
-/

namespace SearchTree

open PrefixOrder

namespace RbTree

variable {α β : Type} [LinearOrder β] {key : α → List β} {t : RbTree α} {a : α} {x y : List β}

/-- The node on which a walk for a string ends. -/
def prefixSearch (key : α → List β) (t : RbTree α) (x : List β) : Option α :=
  (t.descend fun a => cmpPrefix x (key a)).2

/-- The nodes are in the order of their keys. -/
abbrev KeySorted (key : α → List β) (t : RbTree α) : Prop :=
  t.toList.Pairwise fun a b => key a < key b

theorem prefixSearch_sound (h : t.prefixSearch key x = some a) :
    a ∈ t.toList ∧ key a <+: x := by
  obtain ⟨hmem, heq⟩ := descend_sound h
  exact ⟨hmem, cmpPrefix_eq_iff.mp heq⟩

section

variable {c : Color} {l r : RbTree α} {b : α}

theorem prefixSearch_left (h : x < key b) :
    (node c l b r).prefixSearch key x = l.prefixSearch key x := by
  simp only [prefixSearch, descend, cmpPrefix_lt_iff.mpr h]

theorem prefixSearch_right (h : key b < x) (hpre : ¬ key b <+: x) :
    (node c l b r).prefixSearch key x = r.prefixSearch key x := by
  simp only [prefixSearch, descend, cmpPrefix_gt_iff.mpr ⟨h, hpre⟩]

theorem prefixSearch_here (h : key b <+: x) : (node c l b r).prefixSearch key x = some b := by
  simp only [prefixSearch, descend, cmpPrefix_eq_iff.mpr h]

/-- The three ways on from a node. -/
theorem prefixSearch_cases (h : (node c l b r).prefixSearch key x = some a) :
    (x < key b ∧ l.prefixSearch key x = some a) ∨
    (key b < x ∧ ¬ key b <+: x ∧ r.prefixSearch key x = some a) ∨ (key b <+: x ∧ b = a) := by
  rcases hb : cmpPrefix x (key b) with _ | _ | _
  · have hlt := cmpPrefix_lt_iff.mp hb
    exact .inl ⟨hlt, prefixSearch_left hlt ▸ h⟩
  · have hpre := cmpPrefix_eq_iff.mp hb
    exact .inr (.inr ⟨hpre, Option.some.inj ((prefixSearch_here hpre).symm.trans h)⟩)
  · obtain ⟨hgt, hpre⟩ := cmpPrefix_gt_iff.mp hb
    exact .inr (.inl ⟨hgt, hpre, prefixSearch_right hgt hpre ▸ h⟩)

theorem KeySorted.node (hs : (node c l b r).KeySorted key) :
    l.KeySorted key ∧ r.KeySorted key ∧ (∀ a ∈ l.toList, key a < key b) ∧
      ∀ a ∈ r.toList, key b < key a := by
  simp only [KeySorted, toList_node, List.pairwise_append, List.pairwise_cons] at hs
  exact ⟨hs.1, hs.2.1.2, fun a ha => hs.2.2 a ha b List.mem_cons_self, hs.2.1.1⟩

end

/-- A key below `a` is a prefix of what starts with the key of `a` only if it is
one of the latter. -/
theorem not_prefix_of_lt {k : List β} (hlt : k < key a) (hx : key a <+: x) (hnot : ¬ k <+: x)
    (hy : key a <+: y) : ¬ k <+: y := by
  intro hpre
  rcases List.prefix_or_prefix_of_prefix hpre hy with h | h
  · exact hnot (h.trans hx)
  · exact absurd hlt (not_lt_of_ge (le_of_isPrefix h))

/-- The walk for a shorter or smaller string that still starts with the key ends on
the same node. -/
theorem prefixSearch_between (hs : t.KeySorted key) (h : t.prefixSearch key x = some a)
    (hpre : key a <+: y) (hyx : y ≤ x) : t.prefixSearch key y = some a := by
  induction t with
  | leaf => exact absurd h nofun
  | node c l b r ihl ihr =>
    obtain ⟨hl, hr, -, hbr⟩ := hs.node
    rcases prefixSearch_cases h with ⟨hlt, h⟩ | ⟨-, hnot, h⟩ | ⟨-, rfl⟩
    · rw [prefixSearch_left (lt_of_le_of_lt hyx hlt)]
      exact ihl hl h
    · obtain ⟨hmem, hx⟩ := prefixSearch_sound h
      have hba := hbr a hmem
      rw [prefixSearch_right (lt_of_lt_of_le hba (le_of_isPrefix hpre))
        (not_prefix_of_lt hba hx hnot hpre)]
      exact ihr hr h
    · exact prefixSearch_here hpre

/-- So does the walk for a greater one, if no key comes in between. -/
theorem prefixSearch_extend (hs : t.KeySorted key) (h : t.prefixSearch key x = some a)
    (hpre : key a <+: y) (hxy : x ≤ y) (hnone : ∀ b ∈ t.toList, x < key b → y < key b) :
    t.prefixSearch key y = some a := by
  induction t with
  | leaf => exact absurd h nofun
  | node c l b r ihl ihr =>
    obtain ⟨hl, hr, -, hbr⟩ := hs.node
    simp only [toList_node, List.mem_append, List.mem_cons] at hnone
    rcases prefixSearch_cases h with ⟨hlt, h⟩ | ⟨hgt, hnot, h⟩ | ⟨-, rfl⟩
    · rw [prefixSearch_left (hnone b (.inr (.inl rfl)) hlt)]
      exact ihl hl h fun d hd => hnone d (.inl hd)
    · obtain ⟨hmem, hx⟩ := prefixSearch_sound h
      rw [prefixSearch_right (lt_of_lt_of_le hgt hxy)
        (not_prefix_of_lt (hbr a hmem) hx hnot hpre)]
      exact ihr hr h fun d hd => hnone d (.inr (.inr hd))
    · exact prefixSearch_here hpre

/-- The walk for the key of the node ends there as well. -/
theorem prefixSearch_self (hs : t.KeySorted key) (h : t.prefixSearch key x = some a) :
    t.prefixSearch key (key a) = some a :=
  prefixSearch_between hs h (List.prefix_refl _) (le_of_isPrefix (prefixSearch_sound h).2)

/-- A walk ends on a node whenever the last key that is not above the string is a
prefix of it. -/
theorem prefixSearch_of_last (hs : t.KeySorted key) (ha : a ∈ t.toList) (hpre : key a <+: x)
    (hlast : ∀ b ∈ t.toList, key b ≤ x → key b ≤ key a) : ∃ b, t.prefixSearch key x = some b := by
  induction t with
  | leaf => exact absurd ha List.not_mem_nil
  | node c l b r ihl ihr =>
    obtain ⟨hl, hr, hlb, hbr⟩ := hs.node
    rw [toList_node, List.mem_append, List.mem_cons] at ha
    simp only [toList_node, List.mem_append, List.mem_cons] at hlast
    by_cases hbx : key b <+: x
    · exact ⟨b, prefixSearch_here hbx⟩
    · rcases lt_or_ge x (key b) with hlt | hle
      · rw [prefixSearch_left hlt]
        refine ihl hl (ha.resolve_right ?_) fun d hd => hlast d (.inl hd)
        rintro (rfl | ha)
        · exact hbx hpre
        · exact absurd (lt_trans (hbr a ha) (lt_of_le_of_lt (le_of_isPrefix hpre) hlt))
            (lt_irrefl _)
      · -- the last key is on the right of a smaller one
        have hba := hlast b (.inr (.inl rfl)) hle
        rw [prefixSearch_right (lt_of_le_of_ne hle fun h => hbx (h ▸ List.prefix_refl _)) hbx]
        refine ihr hr ?_ fun d hd => hlast d (.inr (.inr hd))
        rcases ha with ha | rfl | ha
        · exact absurd (hlb a ha) (not_lt_of_ge hba)
        · exact absurd hpre hbx
        · exact ha

/-- A walk for a key of the tree goes the way to its node, unless it meets a
shorter key. -/
theorem prefixSearch_of_mem (hs : t.KeySorted key) (ha : a ∈ t.toList) :
    ∃ b, t.prefixSearch key (key a) = some b :=
  prefixSearch_of_last hs ha (List.prefix_refl _) fun _ _ hle => hle

/-- Without a shorter key the walk for a key finds its node. -/
theorem prefixSearch_eq_of_mem (hs : t.KeySorted key) (ha : a ∈ t.toList)
    (hnone : ∀ b ∈ t.toList, key b <+: key a → key b = key a) :
    t.prefixSearch key (key a) = some a := by
  obtain ⟨b, hb⟩ := prefixSearch_of_mem hs ha
  obtain ⟨hmem, hpre⟩ := prefixSearch_sound hb
  have hnd : (t.toList.map key).Nodup := List.pairwise_map.mpr (hs.imp fun hlt => hlt.ne)
  obtain rfl : b = a := List.inj_on_of_nodup_map hnd hmem ha (hnone b hmem hpre)
  exact hb

end RbTree

end SearchTree
