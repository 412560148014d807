import RtBackup.Lib.InPlace

/-!
# Nodes that an erasing walk leaves behind

Where two nodes side by side satisfy the test, and one before them does not, the
walk can leave the second one. The tree that shows it has the first one at its root
and the second one as the right child: the second takes the place of the first, and
a library that hands the right child over leads the walk behind it.

Results:
1. `exists_pair`: such a pair with nothing to erase right behind it.
2. `exists_skipping`: the tree, and what the walk leaves of it.
-/

namespace SearchTree

open RbTree ErasingWalk

variable {α σ : Type}

/-! ## The pair -/

theorem exists_pair_of_not_isolated {q : α → Bool} {l : List α} (h : ¬Isolated q l) :
    ∃ pre x s post, l = pre ++ x :: s :: post ∧ q x = true ∧ q s = true ∧
      ∀ u, post.head? = some u → q u = false := by
  induction l with
  | nil => exact absurd List.IsChain.nil h
  | cons a l ih =>
    cases l with
    | nil => exact absurd (List.IsChain.singleton a) h
    | cons b l =>
      by_cases hrest : Isolated q (b :: l)
      · rw [Isolated, List.isChain_cons_cons, not_and_or, not_not] at h
        obtain ⟨ha, hb⟩ := h.resolve_right (not_not.mpr hrest)
        refine ⟨[], a, b, l, rfl, ha, hb, fun u hu => ?_⟩
        obtain ⟨rest, rfl⟩ := List.head?_eq_some_iff.mp hu
        have hnot := (List.isChain_cons_cons.mp hrest).1
        exact Bool.eq_false_iff.mpr fun hq => hnot ⟨hb, hq⟩
      · obtain ⟨pre, x, s, post, heq, hpair⟩ := ih hrest
        exact ⟨a :: pre, x, s, post, by rw [heq, List.cons_append], hpair⟩

theorem exists_pair {q : α → Bool} {l : List α} (h : ¬Scattered q l) :
    ∃ pre x s post, l = pre ++ x :: s :: post ∧ q x = true ∧ q s = true ∧
      (∃ d ∈ pre, q d = false) ∧ ∀ u, post.head? = some u → q u = false := by
  obtain ⟨pre, x, s, post, heq, hx, hs, hpost⟩ := exists_pair_of_not_isolated h
  obtain ⟨hl, hd⟩ := split_of_dropWhile hx heq
  exact ⟨l.takeWhile q ++ pre, x, s, post, hl, hx, hs, hd, hpost⟩

/-! ## The tree -/

/-- Each node is the right child of the one before it, or the left child of the one
behind it. -/
def rightSpine : List α → RbTree α
  | [] => leaf
  | a :: l => node .black leaf a (rightSpine l)

def leftSpine (l : List α) : RbTree α :=
  l.foldl (fun t a => node .black t a leaf) leaf

theorem leftSpine_concat (l : List α) (a : α) :
    leftSpine (l ++ [a]) = node .black (leftSpine l) a leaf := by
  rw [leftSpine, List.foldl_append]
  rfl

@[simp] theorem rightSpine_toList (l : List α) : (rightSpine l).toList = l := by
  induction l with
  | nil => rfl
  | cons a l ih => rw [rightSpine, toList_node, ih, toList_leaf, List.nil_append]

@[simp] theorem leftSpine_toList (l : List α) : (leftSpine l).toList = l := by
  induction l using List.reverseRecOn with
  | nil => rfl
  | append_singleton l a ih => rw [leftSpine_concat, toList_node, ih, toList_leaf]

section

variable [DecidableEq α] {handsOver : Bool} {l : List α} (hl : l.Nodup) {y : α} (hy : y ∈ l)

include hl hy

theorem rightSpine_erase :
    (RbLib.inPlace handsOver).eraseNode y (rightSpine l) = rightSpine (l.erase y) := by
  induction l with
  | nil => exact absurd hy List.not_mem_nil
  | cons a l ih =>
    by_cases ha : a = y
    · subst ha
      rw [rightSpine, eraseNode_root List.not_mem_nil, List.erase_cons_head]
      rfl
    · have hyl := (List.mem_cons.mp hy).resolve_left (Ne.symm ha)
      rw [rightSpine, eraseNode_right List.not_mem_nil ha, ih (List.nodup_cons.mp hl).2 hyl,
        List.erase_cons_tail (by simpa using ha)]
      rfl

theorem rightSpine_subtreeAt : ∃ r, (rightSpine l).subtreeAt y = node .black leaf y r := by
  induction l with
  | nil => exact absurd hy List.not_mem_nil
  | cons a l ih =>
    by_cases ha : a = y
    · subst ha
      exact ⟨_, subtreeAt_root ..⟩
    · have hyl := (List.mem_cons.mp hy).resolve_left (Ne.symm ha)
      rw [rightSpine, subtreeAt_right ha List.not_mem_nil]
      exact ih (List.nodup_cons.mp hl).2 hyl

theorem leftSpine_erase :
    (RbLib.inPlace handsOver).eraseNode y (leftSpine l) = leftSpine (l.erase y) := by
  induction l using List.reverseRecOn with
  | nil => exact absurd hy List.not_mem_nil
  | append_singleton l a ih =>
    have hnd := List.nodup_append.mp hl
    by_cases hyl : y ∈ l
    · rw [leftSpine_concat, eraseNode_left (by simpa using hyl), ih hnd.1 hyl,
        List.erase_append_left _ hyl, leftSpine_concat]
    · obtain rfl := List.mem_singleton.mp ((List.mem_append.mp hy).resolve_left hyl)
      rw [leftSpine_concat, eraseNode_root (by simpa using hyl), List.erase_append_right _ hyl,
        List.erase_cons_head, List.append_nil]
      cases leftSpine l <;> rfl

theorem leftSpine_subtreeAt : ∃ s, (leftSpine l).subtreeAt y = node .black s y leaf := by
  induction l using List.reverseRecOn with
  | nil => exact absurd hy List.not_mem_nil
  | append_singleton l a ih =>
    have hnd := List.nodup_append.mp hl
    by_cases hyl : y ∈ l
    · have hne : a ≠ y := (hnd.2.2 y hyl a (List.mem_singleton_self a)).symm
      rw [leftSpine_concat, subtreeAt_left hne (by simpa using hyl)]
      exact ih hnd.1 hyl
    · obtain rfl := List.mem_singleton.mp ((List.mem_append.mp hy).resolve_left hyl)
      rw [leftSpine_concat]
      exact ⟨_, subtreeAt_root ..⟩

end

/-! ## The walk -/

section

variable [DecidableEq α] {q : α → Bool} {x s : α} {post : List α}

/-- The root is still there, the walk is below it to the left or at it. -/
def BeforePair (q : α → Bool) (x s : α) (post : List α) (w : ErasingWalk α σ) : Prop :=
  ∃ pre, (∃ d ∈ pre, q d = false) ∧
    w.tree = node .black (leftSpine pre) x (node .black leaf s (rightSpine post)) ∧
    ∃ y, w.node = some y ∧ (y ∈ pre ∨ y = x)

/-- The second node is the root, the walk is behind it. -/
def AfterPair (q : α → Bool) (s : α) (w : ErasingWalk α σ) : Prop :=
  ∃ pre rest, w.tree = node .black (leftSpine pre) s (rightSpine rest) ∧
    (∀ u, rest.head? = some u → q u = false) ∧ ∀ y, w.node = some y → y ∈ rest

variable (free : α → σ → σ) {all : List α} (hall : all.Nodup) {w : ErasingWalk α σ}

omit [DecidableEq α] in
theorem beforePair_toList {pre : List α} :
    (node .black (leftSpine pre) x (node .black leaf s (rightSpine post))).toList =
      pre ++ x :: s :: post := by
  simp

include hall

/-- Erasing the root puts the second node into its place, and the walk is behind it. -/
theorem erase_root (h : Sound all w) {pre : List α} (hpre : pre ≠ [])
    (hw : w.tree = node .black (leftSpine pre) x (node .black leaf s (rightSpine post))) :
    (RbLib.inPlace true).eraseNode x w.tree = node .black (leftSpine pre) s (rightSpine post) ∧
      landing ((RbLib.inPlace true).eraseNode x w.tree)
        ((RbLib.inPlace true).staleNode x w.tree) = post.head? := by
  have hnd : (pre ++ x :: s :: post).Nodup := by
    rw [← beforePair_toList, ← hw]
    exact h.sublist.nodup hall
  have htree : w.tree.toList.Nodup := h.sublist.nodup hall
  obtain ⟨init, a, rfl⟩ := (List.eq_nil_or_concat' pre).resolve_left hpre
  rw [hw] at htree ⊢
  rw [List.nodup_append, List.nodup_cons] at hnd
  have hx : x ∉ (leftSpine (init ++ [a])).toList := by
    rw [leftSpine_toList]
    exact fun hx => hnd.2.2 x hx x List.mem_cons_self rfl
  have herase : (RbLib.inPlace true).eraseNode x
      (node .black (leftSpine (init ++ [a])) x (node .black leaf s (rightSpine post))) =
      node .black (leftSpine (init ++ [a])) s (rightSpine post) := by
    rw [eraseNode_root hx, leftSpine_concat]
    rfl
  refine ⟨herase, ?_⟩
  rw [herase, staleNode_of_below htree Below.top, leftSpine_concat]
  cases post with
  | nil => rfl
  | cons u post =>
    have hsu : s ≠ u := fun heq =>
      (List.nodup_cons.mp hnd.2.1.2).1 (heq ▸ List.mem_cons_self)
    have hu : u ∉ (node .black (leftSpine init) a leaf).toList := by
      rw [← leftSpine_concat, leftSpine_toList]
      exact fun hu => hnd.2.2 u hu u (by simp) rfl
    change ((node .black (node .black (leftSpine init) a leaf) s
      (rightSpine (u :: post))).subtreeAt u).first = some u
    rw [subtreeAt_right hsu hu, rightSpine, subtreeAt_root]
    rfl

theorem BeforePair.step (hx : q x = true) (hpost : ∀ u, post.head? = some u → q u = false)
    (h : Sound all w) (hw : BeforePair q x s post w) :
    BeforePair q x s post (ErasingWalk.step (.inPlace true) q free w) ∨
      AfterPair q s (ErasingWalk.step (.inPlace true) q free w) := by
  obtain ⟨pre, ⟨d, hd, hqd⟩, htree, y, hy, hyx⟩ := hw
  have h' := h.step (.inPlace true) q free hall
  have hlist : w.tree.toList = pre ++ x :: s :: post := by rw [htree, beforePair_toList]
  have hnd : (pre ++ x :: s :: post).Nodup := hlist ▸ h.sublist.nodup hall
  rcases step_cases (.inPlace true) q free hall h with
    ⟨hnone, -⟩ | ⟨y', p, b, c, l, r, e, hy', hbelow, hcase⟩
  · exact absurd (hnone.symm.trans hy) (Option.some_ne_none y).symm
  obtain rfl := Option.some.inj (hy'.symm.trans hy)
  have haround := hbelow.toList_around
  by_cases hyeq : y' = x
  · -- the root is erased
    subst hyeq
    obtain ⟨htree', hland⟩ := erase_root hall h (List.ne_nil_of_mem hd) htree
    rcases hcase with ⟨hq, -⟩ | ⟨-, -, heq⟩
    · exact absurd (hq.symm.trans hx) Bool.false_ne_true
    · rw [heq]
      refine .inr ⟨pre, post, htree', hpost, fun z hz => ?_⟩
      exact List.mem_of_mem_head? (hland.symm.trans hz)
  · have hypre : y' ∈ pre := hyx.resolve_right hyeq
    have hxy : x ∈ r.toList ++ e := by
      rw [← h.mem_post_iff hall haround]
      refine ⟨by rw [hlist]; simp, ?_⟩
      exact h.lt_of_mem_pre hall hlist hypre
    -- what is not behind the root is below it to the left or the root itself
    have hleft : ∀ z ∈ w.tree.toList, all.idxOf z ≤ all.idxOf x → z ∈ pre ∨ z = x := by
      intro z hz hle
      have hnot : z ∉ s :: post := fun hmem =>
        Nat.not_lt.mpr hle ((h.mem_post_iff hall hlist).mpr hmem).2
      rw [hlist, List.mem_append, List.mem_cons] at hz
      rcases hz with hz | hz | hz
      · exact .inl hz
      · exact .inr hz
      · exact absurd hz hnot
    rcases hcase with ⟨-, heq⟩ | ⟨hq, hlist', heq⟩
    · obtain ⟨z, rest, hz⟩ := List.exists_cons_of_ne_nil (List.ne_nil_of_mem hxy)
      have hhead := congrArg List.head? hz
      refine .inl ⟨pre, ⟨d, hd, hqd⟩, by rw [heq]; exact htree, z, by rw [heq]; exact hhead, ?_⟩
      refine hleft z ?_ (h.head_le hall haround hxy hhead)
      rw [haround, hz]
      simp
    · have hr : r = leaf := by
        obtain ⟨s', hs'⟩ := leftSpine_subtreeAt (List.nodup_append.mp hnd).1 hypre
        have hsub := subtreeAt_of_below (h.sublist.nodup hall) hbelow
        rw [htree, subtreeAt_left (Ne.symm hyeq) (by simpa using hypre), hs'] at hsub
        exact (RbTree.node.inj hsub).2.2.2.symm
      have htree' : (RbLib.inPlace true).eraseNode y' w.tree =
          node .black (leftSpine (pre.erase y')) x (node .black leaf s (rightSpine post)) := by
        rw [htree, eraseNode_left (by simpa using hypre),
          leftSpine_erase (List.nodup_append.mp hnd).1 hypre]
      have hdne : d ≠ y' := fun heq => absurd ((heq ▸ hqd).symm.trans hq) Bool.false_ne_true
      rw [heq] at h' ⊢
      rcases h.landing_cases hall (inPlace_successorInPlace true) hbelow ⟨h'.sublist, nofun⟩ hlist'
        with hback | ⟨-, hne, -⟩
      · obtain ⟨z, hz, hle⟩ := hback x hxy
        refine .inl ⟨pre.erase y', ⟨d, (List.mem_erase_of_ne hdne).mpr hd, hqd⟩, htree', z, hz, ?_⟩
        have hzmem := h'.mem z hz
        change z ∈ ((RbLib.inPlace true).eraseNode y' w.tree).toList at hzmem
        rw [RbLib.eraseNode_toList, (h.sublist.nodup hall).mem_erase_iff] at hzmem
        exact (hleft z hzmem.2 hle).imp_left (List.mem_erase_of_ne hzmem.1).mpr
      · exact absurd hr hne

theorem AfterPair.step (h : Sound all w) (hw : AfterPair q s w) :
    AfterPair q s (ErasingWalk.step (.inPlace true) q free w) := by
  obtain ⟨pre, rest, htree, hhead, hnode⟩ := hw
  have h' := h.step (.inPlace true) q free hall
  have hlist : w.tree.toList = pre ++ s :: rest := by rw [htree]; simp
  have hnd : (pre ++ s :: rest).Nodup := hlist ▸ h.sublist.nodup hall
  rw [List.nodup_append, List.nodup_cons] at hnd
  rcases step_cases (.inPlace true) q free hall h with
    ⟨-, heq⟩ | ⟨y, p, b, c, l, r, e, hy, hbelow, hcase⟩
  · rw [heq]
    exact ⟨pre, rest, htree, hhead, hnode⟩
  have hyrest := hnode y hy
  have haround := hbelow.toList_around
  have hsy := ((h.mem_post_iff hall hlist).mpr hyrest).2
  -- what comes behind the second node is below it to the right
  have hright : ∀ z ∈ r.toList ++ e, z ∈ rest := fun z hz => by
    have hyz := (h.mem_post_iff hall haround).mpr hz
    exact (h.mem_post_iff hall hlist).mp ⟨hyz.1, Nat.lt_trans hsy hyz.2⟩
  rcases hcase with ⟨-, heq⟩ | ⟨hq, hlist', heq⟩
  · rw [heq]
    exact ⟨pre, rest, htree, hhead, fun z hz => hright z (List.mem_of_mem_head? hz)⟩
  obtain ⟨u, rest, rfl⟩ := List.exists_cons_of_ne_nil (List.ne_nil_of_mem hyrest)
  have hqu := hhead u rfl
  have huy : u ≠ y := fun heq => absurd ((heq ▸ hqu).symm.trans hq) nofun
  have hyl : y ∉ (leftSpine pre).toList := by
    rw [leftSpine_toList]
    exact fun hmem => hnd.2.2 y hmem y (List.mem_cons_of_mem _ hyrest) rfl
  have hne : s ≠ y := fun heq => hnd.2.1.1 (heq ▸ hyrest)
  have htree' : (RbLib.inPlace true).eraseNode y w.tree =
      node .black (leftSpine pre) s (rightSpine ((u :: rest).erase y)) := by
    rw [htree, eraseNode_right hyl hne, rightSpine_erase hnd.2.1.2 hyrest]
  have hl : l = leaf := by
    obtain ⟨r', hr'⟩ := rightSpine_subtreeAt hnd.2.1.2 hyrest
    have hsub := subtreeAt_of_below (h.sublist.nodup hall) hbelow
    rw [htree, subtreeAt_right hne hyl, hr'] at hsub
    exact (RbTree.node.inj hsub).2.1.symm
  subst hl
  rw [heq] at h' ⊢
  refine ⟨pre, (u :: rest).erase y, htree', ?_, fun z hz => ?_⟩
  · rw [List.erase_cons_tail (by simpa using huy)]
    exact hhead
  · have hzmem := h'.mem z hz
    change z ∈ ((RbLib.inPlace true).eraseNode y w.tree).toList at hzmem
    rw [RbLib.eraseNode_toList, (h.sublist.nodup hall).mem_erase_iff] at hzmem
    refine (List.mem_erase_of_ne hzmem.1).mpr ?_
    have hwords := (inPlace_successorInPlace (α := α) true).words (h.sublist.nodup hall)
      (subtreeAt_of_below (h.sublist.nodup hall) hbelow)
    have hland := landing_of_words (h.sublist.nodup hall) hbelow hwords
    change landing _ _ = some z at hz
    cases r with
    | node c' l' x' r' =>
      refine hright z (List.mem_of_mem_head? ?_)
      exact (landing_onlyChild (h.sublist.nodup hall)
        (inPlace_successorInPlace true).toChildInPlace hbelow).symm.trans hz
    | leaf =>
      obtain rfl := (hz.symm.trans hland).symm
      rcases hbelow.parent with ⟨hp, -⟩ | ⟨z', e', hp, he⟩ | ⟨z', b', hp, hb⟩
      · exact absurd hp nofun
      · obtain rfl := Option.some.inj hp
        exact hright z (by simp [he])
      · -- the parent is the node in front of the erased one, at least the first behind the second
        obtain rfl := Option.some.inj hp
        have hub : u ∈ b' ++ [z] := by
          have hlt : all.idxOf u ≤ all.idxOf y := by
            refine h.head_le hall hlist hyrest rfl
          have humem : u ∈ w.tree.toList := by rw [hlist]; simp
          rw [haround, toList_leaf, List.append_nil, hb] at humem
          rcases List.mem_append.mp humem with hu | hu
          · exact hu
          · have hafter := (List.mem_cons.mp hu).resolve_left huy
            exact absurd hlt (Nat.not_le.mpr ((h.mem_post_iff hall haround).mpr hafter).2)
        have hsu := ((h.mem_post_iff hall hlist).mpr (List.mem_cons_self (a := u))).2
        refine (h.mem_post_iff hall hlist).mp ⟨hzmem.2, ?_⟩
        rcases List.mem_append.mp hub with hu | hu
        · have hsplit : w.tree.toList = b' ++ z :: (y :: (RbTree.leaf.toList ++ e)) := by
            rw [haround, toList_leaf, List.append_nil, hb, List.append_assoc]
            rfl
          exact Nat.lt_trans hsu (h.lt_of_mem_pre hall hsplit hu)
        · exact List.mem_singleton.mp hu ▸ hsu

end

/-- For every sequence of nodes that is not scattered there is a tree of these nodes
on which a walk leaves one that it should erase. -/
theorem exists_skipping [DecidableEq α] {q : α → Bool} {l : List α} (hl : l.Nodup)
    (h : ¬Scattered q l) :
    ∃ t : RbTree α, t.toList = l ∧ ∀ (free : α → σ → σ) (acc : σ),
      (run (.inPlace true) q free t acc).tree.toList ≠ l.filter fun a => !q a := by
  obtain ⟨pre, x, s, post, rfl, hx, hs, ⟨d, hd, hqd⟩, hpost⟩ := exists_pair h
  let t := node .black (leftSpine pre) x (node .black leaf s (rightSpine post))
  have ht : t.toList = pre ++ x :: s :: post := beforePair_toList
  have hnd : t.toList.Nodup := ht ▸ hl
  refine ⟨t, ht, fun free acc hexact => ?_⟩
  have hinv : ∀ i, BeforePair q x s post (atRound (.inPlace true) q free t acc i) ∨
      AfterPair q s (atRound (.inPlace true) q free t acc i) := by
    intro i
    induction i with
    | zero =>
      obtain ⟨a, pre', rfl⟩ := List.exists_cons_of_ne_nil (List.ne_nil_of_mem hd)
      refine .inl ⟨a :: pre', ⟨d, hd, hqd⟩, rfl, a, ?_, .inl List.mem_cons_self⟩
      change t.first = some a
      rw [first_eq_head?, ht]
      rfl
    | succ i ih =>
      have hsound := atRound_sound (.inPlace true) q free hnd acc i
      rw [atRound_succ]
      rcases ih with hbefore | hafter
      · exact hbefore.step free hnd hx hpost hsound
      · exact .inr (hafter.step free hnd hsound)
  have hmem : s ∈ (run (.inPlace true) q free t acc).tree.toList := by
    rcases hinv ((t.toList.length + 1) ^ 2) with ⟨_, -, htree, -⟩ | ⟨_, _, htree, -⟩
    · change s ∈ (atRound (.inPlace true) q free t acc _).tree.toList
      rw [htree]
      simp
    · change s ∈ (atRound (.inPlace true) q free t acc _).tree.toList
      rw [htree]
      simp
  rw [hexact, List.mem_filter, hs] at hmem
  exact absurd hmem.2 nofun

end SearchTree
