import RtBackup.Lib.ErasingShape

/-!
# A library that replaces an erased node and does nothing else

An only child takes the place of an erased node, a node with two children is
replaced by its in-order successor. Nothing is rotated, so this is what a
rebalancing library does wherever the colours need no correction. The words of the
erased node stay, or those of a node whose successor is its right child are
changed: both kinds of library exist.

Results:
1. `eraseNode_subtreeAt`: an erased node changes the tree at its own place only.
2. `staleNode_of_below`: the words of an erased node.
3. `inPlace_successorInPlace`: what these words lead to.
-/

namespace SearchTree

namespace RbTree

variable {α : Type}

/-- The first node, and the tree without it. -/
def popFirst : RbTree α → Option (α × RbTree α)
  | leaf => none
  | node c l a r =>
    match l.popFirst with
    | none => some (a, r)
    | some (s, l') => some (s, node c l' a r)

/-- The tree that takes the place of a node. -/
def dropRoot : RbTree α → RbTree α
  | leaf => leaf
  | node _ leaf _ r => r
  | node c l _ r =>
    match r.popFirst with
    | none => l
    | some (s, r') => node c l s r'

def dropAt : Path → RbTree α → RbTree α
  | [], t => t.dropRoot
  | .left :: p, node c l a r => node c (l.dropAt p) a r
  | .right :: p, node c l a r => node c l a (r.dropAt p)
  | _, leaf => leaf

theorem popFirst_cases (t : RbTree α) :
    (t.popFirst = none ∧ t = leaf) ∨
      ∃ s t', t.popFirst = some (s, t') ∧ t.toList = s :: t'.toList := by
  induction t with
  | leaf => exact .inl ⟨rfl, rfl⟩
  | node c l a r ihl _ =>
    refine .inr ?_
    rcases ihl with ⟨hpop, rfl⟩ | ⟨s, l', hpop, hl⟩
    · exact ⟨a, r, rfl, rfl⟩
    · refine ⟨s, node c l' a r, ?_, ?_⟩
      · rw [popFirst, hpop]
      · rw [toList_node, toList_node, hl, List.cons_append]

theorem dropRoot_toList (c : Color) (l r : RbTree α) (a : α) :
    (node c l a r).dropRoot.toList = l.toList ++ r.toList := by
  cases l with
  | leaf => rfl
  | node c₁ l₁ a₁ r₁ =>
    rcases r.popFirst_cases with ⟨hpop, rfl⟩ | ⟨s, r', hpop, hr⟩
    · rw [dropRoot, hpop, toList_leaf, List.append_nil]
      exact nofun
    · rw [dropRoot, hpop, hr]
      · rfl
      · exact nofun

theorem dropAt_toList (p : Path) (t : RbTree α) : (t.dropAt p).toList = t.withoutAt p := by
  induction p generalizing t with
  | nil =>
    cases t with
    | leaf => rfl
    | node c l a r => exact dropRoot_toList c l r a
  | cons d p ih =>
    cases t with
    | leaf => cases d <;> rfl
    | node c l a r => cases d <;> simp [dropAt, withoutAt, ih]

/-- The subtree at a position of a tree below `parent`, with its own parent. -/
def subtreeFrom (parent : Option α) : Path → RbTree α → Option α × RbTree α
  | .left :: p, node _ l a _ => l.subtreeFrom (some a) p
  | .right :: p, node _ _ a r => r.subtreeFrom (some a) p
  | _, t => (parent, t)

theorem subtreeFrom_parent {t : RbTree α} {parent : Option α} {p : Path} {y : α}
    (h : (t.subtreeFrom parent p).1 = some y) : parent = some y ∨ y ∈ t.withoutAt p := by
  induction p generalizing t parent with
  | nil => cases t <;> exact .inl h
  | cons d p ih =>
    cases t with
    | leaf => cases d <;> exact .inl h
    | node c l a r =>
      cases d with
      | left =>
        rcases ih (t := l) h with ha | hy
        · exact .inr (List.mem_append_right _ (Option.some.inj ha ▸ List.mem_cons_self))
        · exact .inr (List.mem_append_left _ hy)
      | right =>
        rcases ih (t := r) h with ha | hy
        · exact .inr (List.mem_append_right _ (Option.some.inj ha ▸ List.mem_cons_self))
        · exact .inr (List.mem_append_right _ (List.mem_cons_of_mem _ hy))

theorem subtreeFrom_right {t : RbTree α} {parent : Option α} {p : Path} {c : Color}
    {l r : RbTree α} {x y : α} (h : (t.subtreeFrom parent p).2 = node c l x r)
    (hy : y ∈ r.toList) : y ∈ t.withoutAt p := by
  induction p generalizing t parent with
  | nil =>
    cases t with
    | leaf => exact absurd h nofun
    | node c' l' a r' =>
      obtain ⟨-, -, -, rfl⟩ := RbTree.node.inj h
      exact List.mem_append_right _ hy
  | cons d p ih =>
    cases t with
    | leaf => cases d <;> exact absurd h nofun
    | node c' l' a r' =>
      cases d with
      | left => exact List.mem_append_left _ (ih (t := l') h)
      | right => exact List.mem_append_right _ (List.mem_cons_of_mem _ (ih (t := r') h))

/-- The words that a node is left with: its own, or, where its right child is its
successor and the library hands the right child of this one over, that one. -/
def staleWords (handsOver : Bool) : Option α × RbTree α → Links α
  | (_, leaf) => ⟨none, none, none⟩
  | (p, node _ (node _ _ b _) _ (node _ leaf y r)) =>
    ⟨p, some b, if handsOver then r.root else some y⟩
  | (p, node _ l _ r) => ⟨p, l.root, r.root⟩

theorem staleWords_parent {handsOver : Bool} {s : Option α × RbTree α} {y : α}
    (h : (staleWords handsOver s).parent = some y) : s.1 = some y := by
  unfold staleWords at h
  split at h
  · exact absurd h nofun
  · exact h
  · exact h

theorem staleWords_right {handsOver : Bool} {s : Option α × RbTree α} {y : α}
    (h : (staleWords handsOver s).right = some y) :
    ∃ c l x r, s.2 = node c l x r ∧ y ∈ r.toList := by
  unfold staleWords at h
  split at h
  · exact absurd h nofun
  · refine ⟨_, _, _, _, rfl, ?_⟩
    cases handsOver with
    | true => exact List.mem_cons_of_mem _ (root_mem h)
    | false => exact Option.some.inj h ▸ List.mem_cons_self
  · exact ⟨_, _, _, _, rfl, root_mem h⟩

end RbTree

open RbTree

def RbLib.inPlace (handsOver : Bool) : RbLib where
  insertColor := RbLib.still.insertColor
  erase p t := t.dropAt p
  staleLinks p t := staleWords handsOver (t.subtreeFrom none p)
  insertColor_toList := RbLib.still.insertColor_toList
  erase_toList p t := dropAt_toList p t
  staleLinks_parent _ _ _ h :=
    (subtreeFrom_parent (staleWords_parent h)).resolve_left nofun
  staleLinks_right _ _ _ h := by
    obtain ⟨c, l, x, r, hsub, hy⟩ := staleWords_right h
    exact subtreeFrom_right hsub hy

section

variable {α : Type} [DecidableEq α] {handsOver : Bool}

theorem subtreeAt_root (c : Color) (l r : RbTree α) (a : α) :
    (node c l a r).subtreeAt a = node c l a r := by
  rw [subtreeAt, nodeAt, if_pos rfl]

/-- The parent in which a node is looked for is no part of its subtree. -/
theorem subtreeAt_eq (t : RbTree α) (x : α) (p : Option α) :
    t.subtreeAt x = ((t.nodeAt x p).map Prod.snd).getD leaf := by
  have hparent : (t.nodeAt x none).map Prod.snd = (t.nodeAt x p).map Prod.snd := by
    cases t with
    | leaf => rfl
    | node c l a r =>
      rw [nodeAt, nodeAt]
      split <;> rfl
  rw [← hparent, subtreeAt]
  cases t.nodeAt x none <;> rfl

section

variable {c : Color} {l r : RbTree α} {a y : α} (ha : a ≠ y)

include ha

theorem subtreeAt_left (hy : y ∈ l.toList) : (node c l a r).subtreeAt y = l.subtreeAt y := by
  obtain ⟨found, hfound⟩ := Option.isSome_iff_exists.mp (isSome_nodeAt hy (some a))
  rw [subtreeAt_eq _ y none, subtreeAt_eq l y (some a), nodeAt, if_neg ha, hfound, Option.some_or]

theorem subtreeAt_right (hy : y ∉ l.toList) : (node c l a r).subtreeAt y = r.subtreeAt y := by
  rw [subtreeAt_eq _ y none, subtreeAt_eq r y (some a), nodeAt, if_neg ha, nodeAt_eq_none hy,
    Option.none_or]

end

theorem findPath_eq_none {t : RbTree α} {x : α} (hx : x ∉ t.toList) :
    t.findPath (fun a => a = x) = none := by
  cases h : t.findPath fun a => a = x with
  | none => rfl
  | some p =>
    obtain ⟨l, a, r, ht, ha, -⟩ := findPath_some h
    obtain rfl := of_decide_eq_true ha
    exact absurd (ht ▸ List.mem_append_right _ List.mem_cons_self) hx

theorem exists_findPath {t : RbTree α} {x : α} (hx : x ∈ t.toList) :
    ∃ p, t.findPath (fun a => a = x) = some p := by
  cases h : t.findPath fun a => a = x with
  | none => exact absurd (findPath_none h x hx) (by simp)
  | some p => exact ⟨p, rfl⟩

section

variable {c : Color} {l r : RbTree α} {a x : α}

theorem eraseNode_left (hx : x ∈ l.toList) :
    (RbLib.inPlace handsOver).eraseNode x (node c l a r) = node c ((RbLib.inPlace handsOver).eraseNode x l) a r := by
  obtain ⟨p, hp⟩ := exists_findPath hx
  rw [RbLib.eraseNode, RbLib.eraseNode, findPath, hp]
  rfl

theorem eraseNode_root (hx : x ∉ l.toList) :
    (RbLib.inPlace handsOver).eraseNode x (node c l x r) = (node c l x r).dropRoot := by
  rw [RbLib.eraseNode, findPath, findPath_eq_none hx]
  simp only [decide_true, if_true]
  rfl

theorem eraseNode_right (hx : x ∉ l.toList) (ha : a ≠ x) :
    (RbLib.inPlace handsOver).eraseNode x (node c l a r) = node c l a ((RbLib.inPlace handsOver).eraseNode x r) := by
  rw [RbLib.eraseNode, RbLib.eraseNode, findPath, findPath_eq_none hx]
  simp only [decide_eq_false ha, Bool.false_eq_true, if_false]
  cases r.findPath fun a => a = x <;> rfl

end

/-- The nodes below an erased node are where they are in what takes its place. -/
theorem eraseNode_subtreeAt {t : RbTree α} (ht : t.toList.Nodup) {x y : α}
    (hy : y ∈ (t.subtreeAt x).toList) (hne : y ≠ x) :
    ((RbLib.inPlace handsOver).eraseNode x t).subtreeAt y = (t.subtreeAt x).dropRoot.subtreeAt y := by
  induction t with
  | leaf => exact absurd hy List.not_mem_nil
  | node c l a r ihl ihr =>
    have hnd := ht
    rw [toList_node, List.nodup_append, List.nodup_cons] at hnd
    obtain ⟨hl, ⟨har, hr⟩, hdisj⟩ := hnd
    by_cases hxl : x ∈ l.toList
    · have hax : a ≠ x := (hdisj x hxl a List.mem_cons_self).symm
      rw [subtreeAt_left hax hxl] at hy ⊢
      have hyl : y ∈ l.toList := subtreeAt_subset hl hy
      have hay : a ≠ y := (hdisj y hyl a List.mem_cons_self).symm
      have hkept : y ∈ ((RbLib.inPlace handsOver).eraseNode x l).toList := by
        rw [RbLib.eraseNode_toList]
        exact (List.mem_erase_of_ne hne).mpr hyl
      rw [eraseNode_left hxl, subtreeAt_left hay hkept]
      exact ihl hl hy
    · by_cases hax : a = x
      · subst hax
        rw [eraseNode_root hxl, subtreeAt_root]
      · rw [subtreeAt_right hax hxl] at hy ⊢
        have hyr : y ∈ r.toList := subtreeAt_subset hr hy
        have hay : a ≠ y := fun h => har (h ▸ hyr)
        have hyl : y ∉ l.toList := fun h => hdisj y h y (List.mem_cons_of_mem _ hyr) rfl
        rw [eraseNode_right hxl hax, subtreeAt_right hay hyl]
        exact ihr hr hy

/-- The right child of an erased node, where it is then. -/
theorem inPlace_subtreeAt {t : RbTree α} (ht : t.toList.Nodup) {x y : α} {c c' : Color}
    {l l' r' : RbTree α} (hsub : t.subtreeAt x = node c l x (node c' l' y r')) :
    ((RbLib.inPlace handsOver).eraseNode x t).subtreeAt y =
        (node c l x (node c' l' y r')).dropRoot.subtreeAt y ∧
      (l.toList ++ (l'.toList ++ y :: r'.toList)).Nodup := by
  obtain ⟨p, b, e, hbelow⟩ := exists_below_of_subtreeAt ht hsub
  have hnd := hbelow.nodup ht
  have hy : y ∈ (node c' l' y r').toList := by simp
  have hne : y ≠ x := by
    rintro rfl
    exact (List.nodup_cons.mp hnd.of_append_right).1 hy
  have hmem : y ∈ (t.subtreeAt x).toList := by
    rw [hsub]
    exact List.mem_append_right _ (List.mem_cons_of_mem _ hy)
  refine ⟨hsub ▸ eraseNode_subtreeAt ht hmem hne, ?_⟩
  exact hnd.sublist (List.Sublist.append_left (List.sublist_cons_self _ _) _)

/-- The position at which a node is found is that of the node. -/
theorem subtreeFrom_findPath {t : RbTree α} (ht : t.toList.Nodup) {x : α} (hx : x ∈ t.toList)
    (parent : Option α) :
    ∃ p, t.findPath (fun a => a = x) = some p ∧
      t.nodeAt x parent = some (t.subtreeFrom parent p) := by
  induction t generalizing parent with
  | leaf => exact absurd hx List.not_mem_nil
  | node c l a r ihl ihr =>
    rw [toList_node, List.nodup_append, List.nodup_cons] at ht
    obtain ⟨hl, ⟨har, hr⟩, hdisj⟩ := ht
    by_cases hxl : x ∈ l.toList
    · obtain ⟨p, hp, hat⟩ := ihl hl hxl (some a)
      have hne : a ≠ x := (hdisj x hxl a List.mem_cons_self).symm
      exact ⟨.left :: p, by rw [findPath, hp], by rw [nodeAt, if_neg hne, hat]; rfl⟩
    · by_cases hax : a = x
      · subst hax
        refine ⟨[], ?_, ?_⟩
        · rw [findPath, findPath_eq_none hxl]
          simp only [decide_true, if_true]
        · rw [nodeAt, if_pos rfl]
          rfl
      · have hxr : x ∈ r.toList := by
          rcases List.mem_append.mp hx with h | h
          · exact absurd h hxl
          · exact (List.mem_cons.mp h).resolve_left (Ne.symm hax)
        obtain ⟨p, hp, hat⟩ := ihr hr hxr (some a)
        refine ⟨.right :: p, ?_, ?_⟩
        · rw [findPath, findPath_eq_none hxl, hp]
          simp only [decide_eq_false hax, Bool.false_eq_true, if_false, Option.map_some]
        · rw [nodeAt, if_neg hax, nodeAt_eq_none hxl, hat]
          rfl

theorem staleNode_of_below {t : RbTree α} (ht : t.toList.Nodup) {p : Option α} {b e : List α}
    {c : Color} {l r : RbTree α} {x : α} (h : Below t p b (node c l x r) e) :
    (RbLib.inPlace handsOver).staleNode x t = staleWords handsOver (p, node c l x r) := by
  obtain ⟨path, hpath, hat⟩ := subtreeFrom_findPath ht (x := x) (h.subset (by simp)) none
  rw [nodeAt_of_below ht h, Option.some.injEq] at hat
  rw [RbLib.staleNode, hpath]
  exact congrArg (staleWords handsOver) hat.symm

/-- The words stay when no right child is handed over. -/
theorem staleNode_eq_links {t : RbTree α} (ht : t.toList.Nodup) {c : Color} {l r : RbTree α} {x : α}
    (hsub : t.subtreeAt x = node c l x r)
    (hwords : ∀ p, staleWords handsOver (p, node c l x r) = ⟨p, l.root, r.root⟩) :
    (RbLib.inPlace handsOver).staleNode x t = t.links x := by
  obtain ⟨p, b, e, hbelow⟩ := exists_below_of_subtreeAt ht hsub
  rw [staleNode_of_below ht hbelow, links_of_below ht hbelow, hwords]

theorem inPlace_successorInPlace (handsOver : Bool) :
    (RbLib.inPlace handsOver).SuccessorInPlace α where
  onlyChild ht hsub := by
    rw [(inPlace_subtreeAt ht hsub).1, dropRoot, subtreeAt_root]
    exact ⟨_, rfl⟩
  words ht hsub := staleNode_eq_links ht hsub fun _ => rfl
  wordsUp {t x c l} ht hsub := staleNode_eq_links ht hsub fun _ => by cases l <;> rfl
  wordsFar {t x y c c' l l' r'} ht hsub hl' := by
    refine staleNode_eq_links ht hsub fun _ => ?_
    cases l' with
    | leaf => exact absurd rfl hl'
    | node => cases l <;> rfl
  wordsNear {t x y c c' l r'} ht hsub := by
    cases l with
    | leaf => exact .inl (staleNode_eq_links ht hsub fun _ => rfl)
    | node c₁ l₁ x₁ r₁ =>
      cases handsOver with
      | false => exact .inl (staleNode_eq_links ht hsub fun _ => rfl)
      | true =>
        obtain ⟨p, b, e, hbelow⟩ := exists_below_of_subtreeAt ht hsub
        refine .inr ⟨?_, fun z hz => ?_⟩
        · rw [staleNode_of_below ht hbelow, links_of_below ht hbelow]
          rfl
        · have hnd := hbelow.nodup ht
          have hzr := root_mem hz
          have hmem : z ∈ (t.subtreeAt x).toList := by
            rw [hsub]
            exact List.mem_append_right _ (List.mem_cons_of_mem _ (List.mem_cons_of_mem _ hzr))
          rw [toList_node, List.nodup_append, List.nodup_cons] at hnd
          have hzx : z ≠ x := fun h => hnd.2.1.1 (h ▸ List.mem_cons_of_mem _ hzr)
          have hzy : y ≠ z := fun h => (List.nodup_cons.mp hnd.2.1.2).1 (h ▸ hzr)
          have hzl : z ∉ (node c₁ l₁ x₁ r₁).toList := fun h => hnd.2.2 z h z
            (List.mem_cons_of_mem _ (List.mem_cons_of_mem _ hzr)) rfl
          have hdrop : (node c (node c₁ l₁ x₁ r₁) x (node c' leaf y r')).dropRoot =
              node c (node c₁ l₁ x₁ r₁) y r' := rfl
          rw [eraseNode_subtreeAt ht hmem hzx, hsub, hdrop, subtreeAt_right hzy hzl]
          cases r' with
          | leaf => exact absurd hz nofun
          | node c₂ l₂ z' r₂ =>
            obtain rfl := Option.some.inj hz
            rw [subtreeAt_root]
  successor {t x y c c' l l' r'} ht hsub hl hl' := by
    obtain ⟨hat, hnd⟩ := inPlace_subtreeAt ht hsub
    rcases l'.popFirst_cases with ⟨-, hleaf⟩ | ⟨s, l'', hpop, hlist⟩
    · exact absurd hleaf hl'
    · have hpop' : (node c' l' y r').popFirst = some (s, node c' l'' y r') := by
        rw [popFirst, hpop]
      have hdrop : (node c l x (node c' l' y r')).dropRoot = node c l s (node c' l'' y r') := by
        rw [dropRoot, hpop']
        exact hl
      rw [hlist, List.nodup_append, List.cons_append, List.nodup_cons] at hnd
      have hys : s ≠ y := fun h => hnd.2.1.1 (h ▸ List.mem_append_right _ List.mem_cons_self)
      have hyl : y ∉ l.toList := fun h =>
        hnd.2.2 y h y (List.mem_cons_of_mem _ (List.mem_append_right _ List.mem_cons_self)) rfl
      rw [hat, hdrop, subtreeAt_right hys hyl, subtreeAt_root, first_eq_head?, hlist,
        List.cons_append, List.tail_cons]
      rfl

end

end SearchTree
