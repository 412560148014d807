import RtBackup.Lib.SearchTree
import Mathlib.Data.List.Nodup
import Mathlib.Logic.Function.Basic

/-!
# The link words of a search tree

An intrusive tree keeps the links between its nodes in the nodes: a parent, a
left and a right child. `rb_next` steps from a node to the next one through these
words alone. It does not notice when it starts at a node that the tree no longer
has: then the words of this node are those of an earlier tree, and all other
words are current.

Results:
1. `rbNext_of_below`: from a node of the tree `rb_next` leads to the next node in
   order.
2. `rbNext_stale_right`, `rbNext_stale_up`: where it leads from a node that is
   gone.
-/

namespace SearchTree

namespace RbTree

variable {α : Type}

def root : RbTree α → Option α
  | leaf => none
  | node _ _ a _ => some a

/-- `rb_first`: down the left links from the root. -/
def first : RbTree α → Option α
  | leaf => none
  | node _ l a _ => some (l.first.getD a)

/-- A subtree, with its parent and the nodes before and behind it. -/
inductive Below (t : RbTree α) : Option α → List α → RbTree α → List α → Prop
  | top : Below t none [] t []
  | left {p : Option α} {b e : List α} {c : Color} {l : RbTree α} {a : α} {r : RbTree α} :
      Below t p b (node c l a r) e → Below t (some a) b l (a :: (r.toList ++ e))
  | right {p : Option α} {b e : List α} {c : Color} {l : RbTree α} {a : α} {r : RbTree α} :
      Below t p b (node c l a r) e → Below t (some a) (b ++ (l.toList ++ [a])) r e

section

variable [DecidableEq α]

/-- The node that is `x`, with its parent and its subtree. -/
def nodeAt (x : α) (parent : Option α) : RbTree α → Option (Option α × RbTree α)
  | leaf => none
  | node c l a r =>
    if a = x then some (parent, node c l a r)
    else (l.nodeAt x (some a)).or (r.nodeAt x (some a))

/-- The subtree below the node `x`. -/
def subtreeAt (t : RbTree α) (x : α) : RbTree α :=
  match t.nodeAt x none with
  | some (_, s) => s
  | none => leaf

/-- The link words of the node `x`. -/
def links (t : RbTree α) (x : α) : Links α :=
  match t.nodeAt x none with
  | some (p, node _ l _ r) => ⟨p, l.root, r.root⟩
  | _ => ⟨none, none, none⟩

/-- `while (node->rb_left) node = node->rb_left;` -/
def goLeft (mem : α → Links α) : Nat → α → α
  | 0, x => x
  | fuel + 1, x =>
    match (mem x).left with
    | some l => goLeft mem fuel l
    | none => x

/-- `while ((parent = rb_parent(node)) && node == parent->rb_right) node = parent;` -/
def goUp (mem : α → Links α) : Nat → α → Option α
  | 0, _ => none
  | fuel + 1, x =>
    match (mem x).parent with
    | none => none
    | some parent => if (mem parent).right = some x then goUp mem fuel parent else some parent

/-- `rb_next`, on nodes with these words. -/
def rbNext (mem : α → Links α) (fuel : Nat) (x : α) : Option α :=
  match (mem x).right with
  | some r => some (goLeft mem fuel r)
  | none => goUp mem fuel x

end

/-! ## Subtrees -/

theorem first_eq_head? (t : RbTree α) : t.first = t.toList.head? := by
  induction t with
  | leaf => rfl
  | node c l a r ihl _ =>
    rw [first, ihl, toList_node, List.head?_append, List.head?_cons]
    cases l.toList.head? <;> rfl

theorem toList_eq_nil_iff {t : RbTree α} : t.toList = [] ↔ t = leaf := by
  cases t <;> simp

theorem root_mem {t : RbTree α} {a : α} (h : t.root = some a) : a ∈ t.toList := by
  cases t with
  | leaf => exact absurd h nofun
  | node c l b r =>
    obtain rfl := Option.some.inj h
    simp

theorem Below.toList_eq {t s : RbTree α} {p : Option α} {b e : List α} (h : Below t p b s e) :
    t.toList = b ++ (s.toList ++ e) := by
  induction h with
  | top => simp
  | left _ ih => simpa using ih
  | right _ ih => simpa using ih

/-- The sequence around a node. -/
theorem Below.toList_around {t l r : RbTree α} {p : Option α} {b e : List α} {c : Color} {x : α}
    (h : Below t p b (node c l x r) e) :
    t.toList = (b ++ l.toList) ++ x :: (r.toList ++ e) := by
  rw [h.toList_eq, toList_node]
  simp only [List.append_assoc, List.cons_append]

theorem Below.subset {t s : RbTree α} {p : Option α} {b e : List α} (h : Below t p b s e) {x : α}
    (hx : x ∈ s.toList) : x ∈ t.toList := by
  rw [h.toList_eq]
  exact List.mem_append_right _ (List.mem_append_left _ hx)

theorem Below.nodup {t s : RbTree α} {p : Option α} {b e : List α} (h : Below t p b s e)
    (ht : t.toList.Nodup) : s.toList.Nodup := by
  rw [h.toList_eq] at ht
  exact ht.of_append_right.of_append_left

/-- Every node of a subtree has its own subtree. -/
theorem Below.exists_node {t s : RbTree α} {p : Option α} {b e : List α} (h : Below t p b s e)
    {x : α} (hx : x ∈ s.toList) :
    ∃ p b c l r e, Below t p b (node c l x r) e := by
  induction s generalizing p b e with
  | leaf => exact absurd hx List.not_mem_nil
  | node c l a r ihl ihr =>
    rw [toList_node, List.mem_append, List.mem_cons] at hx
    rcases hx with hx | rfl | hx
    · exact ihl h.left hx
    · exact ⟨p, b, c, l, r, e, h⟩
    · exact ihr h.right hx

theorem exists_below {t : RbTree α} {x : α} (hx : x ∈ t.toList) :
    ∃ p b c l r e, Below t p b (node c l x r) e :=
  Below.top.exists_node hx

/-- The parent of a subtree stands before or behind it, next to it. -/
theorem Below.parent {t s : RbTree α} {p : Option α} {b e : List α} (h : Below t p b s e) :
    (p = none ∧ b = [] ∧ e = []) ∨
    (∃ a e', p = some a ∧ e = a :: e') ∨ (∃ a b', p = some a ∧ b = b' ++ [a]) := by
  cases h with
  | top => exact .inl ⟨rfl, rfl, rfl⟩
  | left h => exact .inr (.inl ⟨_, _, rfl, rfl⟩)
  | right h => exact .inr (.inr ⟨_, _, rfl, (List.append_assoc _ _ _).symm⟩)

section

variable [DecidableEq α]

theorem nodeAt_eq_none {t : RbTree α} {x : α} (hx : x ∉ t.toList) (p : Option α) :
    t.nodeAt x p = none := by
  induction t generalizing p with
  | leaf => rfl
  | node c l a r ihl ihr =>
    simp only [toList_node, List.mem_append, List.mem_cons, not_or] at hx
    rw [nodeAt, if_neg (Ne.symm hx.2.1), ihl hx.1, ihr hx.2.2]
    rfl

theorem isSome_nodeAt {t : RbTree α} {x : α} (hx : x ∈ t.toList) (p : Option α) :
    (t.nodeAt x p).isSome = true := by
  induction t generalizing p with
  | leaf => exact absurd hx List.not_mem_nil
  | node c l a r ihl ihr =>
    rw [toList_node, List.mem_append, List.mem_cons] at hx
    rw [nodeAt]
    split
    · rfl
    · next hne =>
      rw [Option.isSome_or, Bool.or_eq_true]
      rcases hx with hx | rfl | hx
      · exact .inl (ihl hx _)
      · exact absurd rfl hne
      · exact .inr (ihr hx _)

/-- In a subtree a node is found as in the whole tree. -/
theorem Below.nodeAt_eq {t s : RbTree α} {p : Option α} {b e : List α} (h : Below t p b s e)
    (ht : t.toList.Nodup) {x : α} (hx : x ∈ s.toList) : t.nodeAt x none = s.nodeAt x p := by
  induction h with
  | top => rfl
  | left h ih =>
    rename_i p b e c l a r
    have hnd := h.nodup ht
    rw [toList_node, List.nodup_append] at hnd
    have hne : a ≠ x := (hnd.2.2 x hx a List.mem_cons_self).symm
    rw [ih (List.mem_append_left _ hx), nodeAt, if_neg hne]
    obtain ⟨found, hfound⟩ := Option.isSome_iff_exists.mp (isSome_nodeAt hx (some a))
    rw [hfound, Option.some_or]
  | right h ih =>
    rename_i p b e c l a r
    have hnd := h.nodup ht
    rw [toList_node, List.nodup_append, List.nodup_cons] at hnd
    have hne : a ≠ x := fun heq => hnd.2.1.1 (heq ▸ hx)
    have hleft : x ∉ l.toList := fun hl => hnd.2.2 x hl x (List.mem_cons_of_mem _ hx) rfl
    rw [ih (List.mem_append_right _ (List.mem_cons_of_mem _ hx)), nodeAt, if_neg hne,
      nodeAt_eq_none hleft, Option.none_or]

section

variable {t : RbTree α} (ht : t.toList.Nodup) {p : Option α} {b e : List α} {c : Color}
  {l r : RbTree α} {x : α}

include ht

theorem nodeAt_of_below (h : Below t p b (node c l x r) e) :
    t.nodeAt x none = some (p, node c l x r) := by
  rw [h.nodeAt_eq ht (by simp), nodeAt, if_pos rfl]

theorem subtreeAt_of_below (h : Below t p b (node c l x r) e) : t.subtreeAt x = node c l x r := by
  rw [subtreeAt, nodeAt_of_below ht h]

/-- What is below a node is in the tree. -/
theorem subtreeAt_subset {y : α} (hy : y ∈ (t.subtreeAt x).toList) : y ∈ t.toList := by
  by_cases hx : x ∈ t.toList
  · obtain ⟨p, b, c, l, r, e, h⟩ := exists_below hx
    exact h.subset (subtreeAt_of_below ht h ▸ hy)
  · rw [subtreeAt, nodeAt_eq_none hx] at hy
    exact absurd hy List.not_mem_nil

theorem exists_below_of_subtreeAt (h : t.subtreeAt x = node c l x r) :
    ∃ p b e, Below t p b (node c l x r) e := by
  by_cases hx : x ∈ t.toList
  · obtain ⟨p, b, c', l', r', e, hbelow⟩ := exists_below hx
    exact ⟨p, b, e, (subtreeAt_of_below ht hbelow).symm.trans h ▸ hbelow⟩
  · rw [subtreeAt, nodeAt_eq_none hx] at h
    exact absurd h nofun

theorem links_of_below (h : Below t p b (node c l x r) e) :
    t.links x = ⟨p, l.root, r.root⟩ := by
  rw [links, nodeAt_of_below ht h]

end

/-! ## Stepping in a tree -/

/-- The words of the nodes of a tree. -/
def Agrees (t : RbTree α) (mem : α → Links α) : Prop := ∀ x ∈ t.toList, mem x = t.links x

section

variable {t : RbTree α} (ht : t.toList.Nodup) {mem : α → Links α} (hmem : t.Agrees mem)
  {p : Option α} {b e : List α}

include ht hmem

theorem Agrees.words {c : Color} {l r : RbTree α} {x : α} (h : Below t p b (node c l x r) e) :
    mem x = ⟨p, l.root, r.root⟩ := by
  rw [hmem x (h.subset (by simp)), links_of_below ht h]

theorem Agrees.parent {s : RbTree α} {a : α} (h : Below t p b s e) (hroot : s.root = some a) :
    (mem a).parent = p := by
  cases s with
  | leaf => exact absurd hroot nofun
  | node c l x r =>
    obtain rfl := Option.some.inj hroot
    rw [hmem.words ht h]

theorem goLeft_of_below {s : RbTree α} {a : α} {fuel : Nat} (h : Below t p b s e)
    (hroot : s.root = some a) (hfuel : s.toList.length ≤ fuel) :
    some (goLeft mem fuel a) = s.first := by
  induction s generalizing p b e a fuel with
  | leaf => exact absurd hroot nofun
  | node c l x r ihl _ =>
    obtain rfl := Option.some.inj hroot
    cases fuel with
    | zero => exact absurd hfuel (by simp)
    | succ fuel =>
      rw [goLeft, hmem.words ht h]
      cases l with
      | leaf => rfl
      | node c' l' y r' =>
        have hlen : (node c' l' y r').toList.length ≤ fuel := by
          rw [toList_node, List.length_append, List.length_cons] at hfuel
          omega
        have hleft := ihl h.left rfl hlen
        exact hleft

theorem goUp_of_below {s : RbTree α} {a : α} {fuel : Nat} (h : Below t p b s e)
    (hroot : s.root = some a) (hfuel : b.length < fuel) : goUp mem fuel a = e.head? := by
  induction h generalizing a fuel with
  | top =>
    obtain ⟨fuel, rfl⟩ := Nat.exists_eq_add_one.mpr hfuel
    rw [goUp, hmem.parent ht .top hroot]
    rfl
  | left h ih =>
    rename_i p b e c l x r
    obtain ⟨fuel, rfl⟩ := Nat.exists_eq_add_one.mpr (Nat.zero_lt_of_lt hfuel)
    -- the node is the left child, and no right one
    have hright : (mem x).right ≠ some a := by
      rw [hmem.words ht h]
      intro hr
      have hnd := h.nodup ht
      rw [toList_node, List.nodup_append] at hnd
      exact hnd.2.2 a (root_mem hroot) a (List.mem_cons_of_mem _ (root_mem hr)) rfl
    rw [goUp, hmem.parent ht h.left hroot]
    exact if_neg hright
  | right h ih =>
    rename_i p b e c l x r
    obtain ⟨fuel, rfl⟩ := Nat.exists_eq_add_one.mpr (Nat.zero_lt_of_lt hfuel)
    have hright : (mem x).right = some a := by rw [hmem.words ht h, hroot]
    rw [goUp, hmem.parent ht h.right hroot]
    refine (if_pos hright).trans (ih rfl ?_)
    simp only [List.length_append, List.length_cons, List.length_nil] at hfuel
    omega

/-- From a node of the tree to the next one in order. -/
theorem rbNext_of_below {c : Color} {l r : RbTree α} {x : α} {fuel : Nat}
    (h : Below t p b (node c l x r) e) (hfuel : t.toList.length ≤ fuel) :
    rbNext mem fuel x = (r.toList ++ e).head? := by
  have hlen : b.length + (l.toList.length + (r.toList.length + 1) + e.length) ≤ fuel := by
    rw [h.toList_eq] at hfuel
    simpa only [List.length_append, toList_node, List.length_cons] using hfuel
  rw [rbNext, hmem.words ht h]
  cases r with
  | leaf => exact goUp_of_below ht hmem h rfl (by omega)
  | node c' l' y r' =>
    refine (goLeft_of_below ht hmem h.right rfl (by omega)).trans ?_
    rw [first_eq_head?, List.head?_append_of_ne_nil]
    simp

end

/-! ## Stepping from a node that is gone -/

theorem links_right_mem {t : RbTree α} (ht : t.toList.Nodup) {x y : α}
    (h : (t.links x).right = some y) : y ∈ t.toList := by
  by_cases hx : x ∈ t.toList
  · obtain ⟨p, b, c, l, r, e, hbelow⟩ := exists_below hx
    rw [links_of_below ht hbelow] at h
    exact hbelow.right.subset (root_mem h)
  · rw [links, nodeAt_eq_none hx] at h
    exact absurd h nofun

section

variable {t : RbTree α} (ht : t.toList.Nodup) {x : α} (hx : x ∉ t.toList) {stale : Links α}
  {fuel : Nat}

include ht hx

/-- To the first node below the right child that it had. -/
theorem rbNext_stale_right {r : α} (hright : stale.right = some r) (hr : r ∈ t.toList)
    (hfuel : t.toList.length ≤ fuel) :
    rbNext (Function.update t.links x stale) fuel x = (t.subtreeAt r).first := by
  have hmem : t.Agrees (Function.update t.links x stale) := fun y hy =>
    Function.update_of_ne (ne_of_mem_of_not_mem hy hx) _ _
  obtain ⟨p, b, c, l, r', e, hbelow⟩ := exists_below hr
  have hlen : (node c l r r').toList.length ≤ fuel := by
    rw [hbelow.toList_eq, List.length_append, List.length_append] at hfuel
    omega
  rw [rbNext, Function.update_self, hright, subtreeAt_of_below ht hbelow]
  exact goLeft_of_below ht hmem hbelow rfl hlen

/-- Without a right child, to the parent that it had. -/
theorem rbNext_stale_up (hright : stale.right = none) :
    rbNext (Function.update t.links x stale) (fuel + 1) x = stale.parent := by
  rw [rbNext, Function.update_self, hright]
  simp only [goUp, Function.update_self]
  cases hparent : stale.parent with
  | none => rfl
  | some p =>
    have hne : (Function.update t.links x stale p).right ≠ some x := by
      by_cases hpx : p = x
      · rw [hpx, Function.update_self, hright]
        exact nofun
      · rw [Function.update_of_ne hpx]
        exact fun h => hx (links_right_mem ht h)
    exact if_neg hne

end

end

end RbTree

end SearchTree
