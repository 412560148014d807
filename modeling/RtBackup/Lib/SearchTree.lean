import Mathlib.Data.List.Basic
import Mathlib.Data.List.Perm.Basic

/-!
# Search trees behind a rebalancing library

A client of an intrusive search-tree library walks the tree by its own
comparison, links the new node at the leaf it reached and lets the library
rebalance; it removes a node by handing its position to the library. The
client sees the shape of the tree, but what the library does to the shape is
its own affair. `RbLib` is such a library: two operations on coloured trees
and what they keep of the in-order sequence. What the link words of an erased
node say is the library's affair too.

Results:
1. `descend_some`, `descend_none`: where a walk ends, and what linking or
   removing a node there does to the in-order sequence.
2. `pairwise_linkAt`: linking at the leaf reached keeps an order that the
   comparison respects.
3. `descend_complete`: a walk finds a node that compares equal when the answers
   of the comparison are monotone along the in-order sequence.
4. `insertBy_some`, `removeBy_some`: insertion and removal through a library.
-/

namespace SearchTree

inductive Color where
  | red
  | black
deriving DecidableEq, Repr

inductive Dir where
  | left
  | right
deriving DecidableEq, Repr

/-- The position of a node: the turns taken from the root. -/
abbrev Path := List Dir

inductive RbTree (α : Type) where
  | leaf
  | node (color : Color) (left : RbTree α) (val : α) (right : RbTree α)
deriving Repr

/-- The link words of a node. -/
structure Links (α : Type) where
  parent : Option α
  left : Option α
  right : Option α

namespace RbTree

variable {α β : Type}

/-- The in-order sequence, the one `rb_first` and `rb_next` go through. -/
def toList : RbTree α → List α
  | leaf => []
  | node _ l a r => l.toList ++ a :: r.toList

def map (f : α → β) : RbTree α → RbTree β
  | leaf => leaf
  | node c l a r => node c (l.map f) (f a) (r.map f)

/-- Walk down by `cmp`, the comparison of the sought key with a node: the
position where the walk ends, and the node there if it compared equal. -/
def descend (cmp : α → Ordering) : RbTree α → Path × Option α
  | leaf => ([], none)
  | node _ l a r =>
    match cmp a with
    | .lt => ((Dir.left :: (l.descend cmp).1), (l.descend cmp).2)
    | .gt => ((Dir.right :: (r.descend cmp).1), (r.descend cmp).2)
    | .eq => ([], some a)

/-- Replace the leaf at a position by a node. -/
def linkAt (x : α) : Path → RbTree α → RbTree α
  | [], leaf => node .red leaf x leaf
  | .left :: p, node c l a r => node c (l.linkAt x p) a r
  | .right :: p, node c l a r => node c l a (r.linkAt x p)
  | _, t => t

/-- The in-order sequence without the node at a position. -/
def withoutAt : Path → RbTree α → List α
  | [], node _ l _ r => l.toList ++ r.toList
  | .left :: p, node _ l a r => l.withoutAt p ++ a :: r.toList
  | .right :: p, node _ l a r => l.toList ++ a :: r.withoutAt p
  | _, leaf => []

/-- The nodes behind a position, in order. -/
def behind : Path → RbTree α → List α
  | [], node _ _ _ r => r.toList
  | .left :: p, node _ l a r => l.behind p ++ a :: r.toList
  | .right :: p, node _ _ _ r => r.behind p
  | _, leaf => []

/-- The position of the first node in order that satisfies `q`. -/
def findPath (q : α → Bool) : RbTree α → Option Path
  | leaf => none
  | node _ l a r =>
    match l.findPath q with
    | some p => some (.left :: p)
    | none => if q a then some [] else (r.findPath q).map (.right :: ·)

@[simp] theorem toList_leaf : (leaf : RbTree α).toList = [] := rfl

@[simp] theorem toList_node (c : Color) (l : RbTree α) (a : α) (r : RbTree α) :
    (node c l a r).toList = l.toList ++ a :: r.toList := rfl

@[simp] theorem toList_map (f : α → β) (t : RbTree α) : (t.map f).toList = t.toList.map f := by
  induction t with
  | leaf => rfl
  | node c l a r ihl ihr => simp [map, ihl, ihr]

/-- A walk that answers a node stands on it: taking the node at this position
out of the sequence takes this node out. -/
theorem descend_some {cmp : α → Ordering} {t : RbTree α} {a : α}
    (h : (t.descend cmp).2 = some a) :
    cmp a = .eq ∧ ∃ l r, t.toList = l ++ a :: r ∧ t.withoutAt (t.descend cmp).1 = l ++ r := by
  induction t with
  | leaf => simp [descend] at h
  | node c L b R ihl ihr =>
    simp only [descend] at h ⊢
    cases hb : cmp b with
    | lt =>
      simp only [hb] at h ⊢
      obtain ⟨ha, l, r, hl, hw⟩ := ihl h
      exact ⟨ha, l, r ++ b :: R.toList, by simp [hl], by simp [withoutAt, hw]⟩
    | gt =>
      simp only [hb] at h ⊢
      obtain ⟨ha, l, r, hl, hw⟩ := ihr h
      exact ⟨ha, L.toList ++ b :: l, r, by simp [hl], by simp [withoutAt, hw]⟩
    | eq =>
      simp only [hb, Option.some.injEq] at h ⊢
      subst h
      exact ⟨hb, L.toList, R.toList, by simp, by simp [withoutAt]⟩

/-- The node a walk answers is in the tree and compared equal. -/
theorem descend_sound {cmp : α → Ordering} {t : RbTree α} {a : α}
    (h : (t.descend cmp).2 = some a) : a ∈ t.toList ∧ cmp a = .eq := by
  obtain ⟨ha, l, r, hl, -⟩ := descend_some h
  exact ⟨by simp [hl], ha⟩

/-- A walk that answers nothing ends at a leaf, and this leaf separates the
nodes that the walk left on its left from those on its right. The order `lt` is
any transitive relation that sorts the tree and that `cmp` respects. -/
theorem descend_none {cmp : α → Ordering} {t : RbTree α} {x : α} {lt : α → α → Prop}
    (htrans : ∀ a b c, lt a b → lt b c → lt a c) (hs : t.toList.Pairwise lt)
    (hl : ∀ a ∈ t.toList, cmp a = .lt → lt x a) (hg : ∀ a ∈ t.toList, cmp a = .gt → lt a x)
    (h : (t.descend cmp).2 = none) :
    ∃ l r, t.toList = l ++ r ∧ (t.linkAt x (t.descend cmp).1).toList = l ++ x :: r ∧
      (∀ a ∈ l, lt a x) ∧ (∀ a ∈ r, lt x a) := by
  induction t with
  | leaf => exact ⟨[], [], rfl, rfl, by simp, by simp⟩
  | node c L b R ihl ihr =>
    simp only [toList_node, List.mem_append, List.mem_cons] at hl hg
    simp only [toList_node, List.pairwise_append, List.pairwise_cons, List.mem_cons] at hs
    obtain ⟨hsL, ⟨hbR, hsR⟩, hLbR⟩ := hs
    simp only [descend] at h ⊢
    cases hb : cmp b with
    | lt =>
      simp only [hb] at h ⊢
      have hxb : lt x b := hl b (.inr (.inl rfl)) hb
      obtain ⟨l, r, ht, hlink, hlo, hhi⟩ :=
        ihl hsL (fun a ha => hl a (.inl ha)) (fun a ha => hg a (.inl ha)) h
      refine ⟨l, r ++ b :: R.toList, by simp [ht], by simp [linkAt, hlink], hlo, ?_⟩
      intro a ha
      simp only [List.mem_append, List.mem_cons] at ha
      rcases ha with ha | rfl | ha
      · exact hhi a ha
      · exact hxb
      · exact htrans _ _ _ hxb (hbR a ha)
    | gt =>
      simp only [hb] at h ⊢
      have hbx : lt b x := hg b (.inr (.inl rfl)) hb
      obtain ⟨l, r, ht, hlink, hlo, hhi⟩ :=
        ihr hsR (fun a ha => hl a (.inr (.inr ha))) (fun a ha => hg a (.inr (.inr ha))) h
      refine ⟨L.toList ++ b :: l, r, by simp [ht], by simp [linkAt, hlink], ?_, hhi⟩
      intro a ha
      simp only [List.mem_append, List.mem_cons] at ha
      rcases ha with ha | rfl | ha
      · exact htrans _ _ _ (hLbR a ha b (.inl rfl)) hbx
      · exact hbx
      · exact hlo a ha
    | eq => simp [hb] at h

/-- Linking at the leaf reached keeps the tree sorted. -/
theorem pairwise_linkAt {cmp : α → Ordering} {t : RbTree α} {x : α} {lt : α → α → Prop}
    (htrans : ∀ a b c, lt a b → lt b c → lt a c) (hs : t.toList.Pairwise lt)
    (hl : ∀ a ∈ t.toList, cmp a = .lt → lt x a) (hg : ∀ a ∈ t.toList, cmp a = .gt → lt a x)
    (h : (t.descend cmp).2 = none) :
    (t.linkAt x (t.descend cmp).1).toList.Pairwise lt ∧
      (t.linkAt x (t.descend cmp).1).toList.Perm (x :: t.toList) := by
  obtain ⟨l, r, ht, hlink, hlo, hhi⟩ := descend_none htrans hs hl hg h
  rw [hlink, ht]
  rw [ht, List.pairwise_append] at hs
  refine ⟨?_, List.perm_middle⟩
  rw [List.pairwise_append, List.pairwise_cons]
  refine ⟨hs.1, ⟨hhi, hs.2.1⟩, ?_⟩
  intro a ha b hb
  rcases List.mem_cons.mp hb with rfl | hb
  · exact hlo a ha
  · exact hs.2.2 a ha b hb

/-- The answers of `cmp` along a sequence are first `gt`, then `eq`, then `lt`. -/
def Monotone (cmp : α → Ordering) (l : List α) : Prop :=
  l.Pairwise fun a b => (cmp a = .lt → cmp b = .lt) ∧ (cmp b = .gt → cmp a = .gt)

/-- Under a monotone comparison a walk finds a node that compares equal. -/
theorem descend_complete {cmp : α → Ordering} {t : RbTree α} (hm : Monotone cmp t.toList)
    {a : α} (ha : a ∈ t.toList) (heq : cmp a = .eq) : ∃ b, (t.descend cmp).2 = some b := by
  induction t with
  | leaf => simp at ha
  | node c L b R ihl ihr =>
    simp only [Monotone, toList_node, List.pairwise_append, List.pairwise_cons,
      List.mem_cons] at hm
    obtain ⟨hL, ⟨hbR, hR⟩, hLbR⟩ := hm
    simp only [descend]
    rw [toList_node, List.mem_append, List.mem_cons] at ha
    cases hb : cmp b with
    | lt =>
      rcases ha with ha | rfl | ha
      · exact ihl hL ha
      · simp [heq] at hb
      · simp [(hbR a ha).1 hb] at heq
    | gt =>
      rcases ha with ha | rfl | ha
      · simp [(hLbR a ha b (.inl rfl)).2 hb] at heq
      · simp [heq] at hb
      · exact ihr hR ha
    | eq => exact ⟨b, rfl⟩

theorem findPath_none {q : α → Bool} {t : RbTree α} (h : t.findPath q = none) :
    ∀ a ∈ t.toList, q a = false := by
  induction t with
  | leaf => simp
  | node c L b R ihl ihr =>
    simp only [findPath] at h
    cases hL : L.findPath q with
    | some p => simp [hL] at h
    | none =>
      simp only [hL] at h
      split at h
      · simp at h
      · next hb =>
        rw [Option.map_eq_none_iff] at h
        intro a ha
        simp only [toList_node, List.mem_append, List.mem_cons] at ha
        rcases ha with ha | rfl | ha
        · exact ihl hL a ha
        · simpa using hb
        · exact ihr h a ha

theorem findPath_some {q : α → Bool} {t : RbTree α} {p : Path} (h : t.findPath q = some p) :
    ∃ l a r, t.toList = l ++ a :: r ∧ q a = true ∧ (∀ b ∈ l, q b = false) ∧
      t.withoutAt p = l ++ r := by
  induction t generalizing p with
  | leaf => simp [findPath] at h
  | node c L b R ihl ihr =>
    simp only [findPath] at h
    cases hL : L.findPath q with
    | some p' =>
      simp only [hL, Option.some.injEq] at h
      subst h
      obtain ⟨l, a, r, ht, hq, hno, hw⟩ := ihl hL
      exact ⟨l, a, r ++ b :: R.toList, by simp [ht], hq, hno, by simp [withoutAt, hw]⟩
    | none =>
      simp only [hL] at h
      have hnoL := findPath_none hL
      split at h
      · next hb =>
        simp only [Option.some.injEq] at h
        subst h
        exact ⟨L.toList, b, R.toList, rfl, hb, hnoL, by simp [withoutAt]⟩
      · next hb =>
        obtain ⟨p', hR, rfl⟩ := Option.map_eq_some_iff.mp h
        obtain ⟨l, a, r, ht, hq, hno, hw⟩ := ihr hR
        refine ⟨L.toList ++ b :: l, a, r, by simp [ht], hq, ?_, by simp [withoutAt, hw]⟩
        intro d hd
        simp only [List.mem_append, List.mem_cons] at hd
        rcases hd with hd | rfl | hd
        · exact hnoL d hd
        · simpa using hb
        · exact hno d hd

/-- The nodes behind the one that is found. -/
theorem findPath_behind {q : α → Bool} {t : RbTree α} {p : Path} (h : t.findPath q = some p) :
    ∃ l a, t.toList = l ++ a :: t.behind p ∧ q a = true := by
  induction t generalizing p with
  | leaf => simp [findPath] at h
  | node c L b R ihl ihr =>
    rw [findPath] at h
    cases hL : L.findPath q with
    | some p' =>
      simp only [hL, Option.some.injEq] at h
      subst h
      obtain ⟨l, a, ht, hq⟩ := ihl hL
      exact ⟨l, a, by rw [toList_node, behind, ht, List.append_assoc, List.cons_append], hq⟩
    | none =>
      simp only [hL] at h
      split at h
      · next hb =>
        obtain rfl := Option.some.inj h
        exact ⟨L.toList, b, rfl, hb⟩
      · obtain ⟨p', hR, rfl⟩ := Option.map_eq_some_iff.mp h
        obtain ⟨l, a, ht, hq⟩ := ihr hR
        exact ⟨L.toList ++ b :: l, a, by rw [toList_node, behind, ht]; simp, hq⟩

/-- What is behind a position is not at it. -/
theorem behind_subset {t : RbTree α} {p : Path} {y : α} (h : y ∈ t.behind p) :
    y ∈ t.withoutAt p := by
  induction p generalizing t with
  | nil =>
    cases t with
    | leaf => exact absurd h List.not_mem_nil
    | node c l a r => exact List.mem_append_right _ h
  | cons d p ih =>
    cases t with
    | leaf => cases d <;> exact absurd h List.not_mem_nil
    | node c l a r =>
      cases d with
      | left =>
        rcases List.mem_append.mp h with hy | hy
        · exact List.mem_append_left _ (ih hy)
        · exact List.mem_append_right _ hy
      | right => exact List.mem_append_right _ (List.mem_cons_of_mem _ (ih (t := r) h))

end RbTree

/-- A rebalancing library: what `rb_insert_color` does after a node was linked
at a position, and what `rb_erase` does for the node at a position. Both may
give the tree any shape and any colours; they keep the sequence of the other
nodes. The link words of the erased node lead to nodes that are still there. -/
structure RbLib where
  insertColor : ∀ {α : Type}, Path → RbTree α → RbTree α
  erase : ∀ {α : Type}, Path → RbTree α → RbTree α
  /-- The link words of the erased node when it is read again. -/
  staleLinks : ∀ {α : Type}, Path → RbTree α → Links α
  insertColor_toList : ∀ {α : Type} (p : Path) (t : RbTree α),
    (insertColor p t).toList = t.toList
  erase_toList : ∀ {α : Type} (p : Path) (t : RbTree α), (erase p t).toList = t.withoutAt p
  staleLinks_parent : ∀ {α : Type} (p : Path) (t : RbTree α) (y : α),
    (staleLinks p t).parent = some y → y ∈ t.withoutAt p
  staleLinks_right : ∀ {α : Type} (p : Path) (t : RbTree α) (y : α),
    (staleLinks p t).right = some y → y ∈ t.withoutAt p

attribute [simp] RbLib.insertColor_toList RbLib.erase_toList

namespace RbLib

variable {α : Type}

/-- Link `x` at the leaf a walk reaches and rebalance; `none` if the walk ends
on a node. -/
def insertBy (rb : RbLib) (cmp : α → Ordering) (x : α) (t : RbTree α) : Option (RbTree α) :=
  match t.descend cmp with
  | (_, some _) => none
  | (p, none) => some (rb.insertColor p (t.linkAt x p))

/-- Remove the node a walk ends on. -/
def removeBy (rb : RbLib) (cmp : α → Ordering) (t : RbTree α) : Option (α × RbTree α) :=
  match t.descend cmp with
  | (_, none) => none
  | (p, some a) => some (a, rb.erase p t)

theorem insertBy_eq_none {rb : RbLib} {cmp : α → Ordering} {x : α} {t : RbTree α} :
    rb.insertBy cmp x t = none ↔ ∃ a, (t.descend cmp).2 = some a := by
  unfold insertBy
  split
  · next h => simp [h]
  · next h => simp [h]

/-- An insertion is refused exactly where a walk ends on a node. -/
theorem insertBy_answer (rb : RbLib) (cmp : α → Ordering) (x : α) (t : RbTree α) :
    ((t.descend cmp).2 = none ∧ ∃ t', rb.insertBy cmp x t = some t') ∨
    ((∃ a, (t.descend cmp).2 = some a) ∧ rb.insertBy cmp x t = none) := by
  unfold insertBy
  split
  · next h => exact .inr ⟨⟨_, by rw [h]⟩, rfl⟩
  · next h => exact .inl ⟨by rw [h], _, rfl⟩

/-- A successful insertion found no node, adds the new one and keeps the order. -/
theorem insertBy_some {rb : RbLib} {cmp : α → Ordering} {x : α} {t t' : RbTree α}
    {lt : α → α → Prop} (htrans : ∀ a b c, lt a b → lt b c → lt a c)
    (hs : t.toList.Pairwise lt) (hl : ∀ a ∈ t.toList, cmp a = .lt → lt x a)
    (hg : ∀ a ∈ t.toList, cmp a = .gt → lt a x) (h : rb.insertBy cmp x t = some t') :
    (t.descend cmp).2 = none ∧ t'.toList.Pairwise lt ∧ t'.toList.Perm (x :: t.toList) := by
  unfold insertBy at h
  split at h
  · simp at h
  · next p hd =>
    simp only [Option.some.injEq] at h
    subst h
    have hp : p = (t.descend cmp).1 := by rw [hd]
    have hnone : (t.descend cmp).2 = none := by rw [hd]
    rw [insertColor_toList, hp]
    exact ⟨hnone, RbTree.pairwise_linkAt htrans hs hl hg hnone⟩

theorem removeBy_eq_none {rb : RbLib} {cmp : α → Ordering} {t : RbTree α} :
    rb.removeBy cmp t = none ↔ (t.descend cmp).2 = none := by
  unfold removeBy
  split
  · next h => simp [h]
  · next h => simp [h]

/-- A removal takes out one node, the one the walk answers. -/
theorem removeBy_some {rb : RbLib} {cmp : α → Ordering} {t t' : RbTree α} {a : α}
    (h : rb.removeBy cmp t = some (a, t')) :
    (t.descend cmp).2 = some a ∧ ∃ l r, t.toList = l ++ a :: r ∧ t'.toList = l ++ r := by
  unfold removeBy at h
  split at h
  · simp at h
  · next p b hd =>
    simp only [Option.some.injEq, Prod.mk.injEq] at h
    obtain ⟨rfl, rfl⟩ := h
    have hb : (t.descend cmp).2 = some b := by rw [hd]
    have hp : p = (t.descend cmp).1 := by rw [hd]
    rw [erase_toList, hp]
    exact ⟨hb, (RbTree.descend_some hb).2⟩

/-- Put the second tree at the rightmost leaf of the first. -/
def hang : RbTree α → RbTree α → RbTree α
  | .leaf, t => t
  | .node c l a r, t => .node c l a (hang r t)

def cut : Path → RbTree α → RbTree α
  | [], .node _ l _ r => hang l r
  | .left :: p, .node c l a r => .node c (cut p l) a r
  | .right :: p, .node c l a r => .node c l a (cut p r)
  | _, .leaf => .leaf

theorem hang_toList (s t : RbTree α) : (hang s t).toList = s.toList ++ t.toList := by
  induction s with
  | leaf => rfl
  | node c l a r _ ihr => simp [hang, ihr]

theorem cut_toList (p : Path) (t : RbTree α) : (cut p t).toList = t.withoutAt p := by
  induction p generalizing t with
  | nil =>
    cases t with
    | leaf => rfl
    | node c l a r => exact hang_toList l r
  | cons d p ih =>
    cases t with
    | leaf => cases d <;> rfl
    | node c l a r => cases d <;> simp [cut, RbTree.withoutAt, ih]

/-- A library that never rotates. Its erased nodes lead to the node that came
behind them. -/
def still : RbLib where
  insertColor _ t := t
  erase p t := cut p t
  staleLinks p t := ⟨(t.behind p).head?, none, none⟩
  insertColor_toList _ _ := rfl
  erase_toList p t := cut_toList p t
  staleLinks_parent _ _ _ h := RbTree.behind_subset (List.mem_of_mem_head? h)
  staleLinks_right _ _ _ h := absurd h nofun

end RbLib

end SearchTree
