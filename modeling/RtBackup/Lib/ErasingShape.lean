import RtBackup.Lib.ErasingWalk
import Mathlib.Data.List.Chain
import Mathlib.Data.List.TakeWhile

/-!
# The shape of the tree around an erased node

Where the link words of an erased node lead to depends on what the library puts
into its place. An only child keeps what is below it, so the walk goes on with the
next node. A node with two children is replaced by its in-order successor, and the
walk may go on behind the successor: always when this is not a child of the node,
and when it is, if the library hands its right child over to the erased node.

Results:
1. `landing_cases`: where the words of an erased node lead to.
2. `passes_step`: a round passes the in-order successor of a node with two
   children that it erases, and no other node.
3. `run_exact_of_single`, `run_exact_of_next`: walks that erase all nodes that
   satisfy their test, whatever the shape.
4. `run_exact_of_unskipped`: when no successor that satisfies the test is passed.
5. `follows_of_mem_run`, `run_exact_of_scattered`: what a walk can leave behind,
   whatever the shape.
6. `run_all`: a walk that erases every node visits them in order.
-/

namespace SearchTree

open RbTree Function

variable {α σ : Type} [DecidableEq α]

/-! ## The shape around an erased node -/

/-- The right child of a node without a left one takes the place of the node, with
all that is below it, and the words of the node stay. -/
structure RbLib.ChildInPlace (rb : RbLib) (α : Type) [DecidableEq α] : Prop where
  onlyChild : ∀ {t : RbTree α} {x y : α} {c c' : Color} {l' r' : RbTree α}, t.toList.Nodup →
    t.subtreeAt x = node c leaf x (node c' l' y r') →
    ∃ c'', (rb.eraseNode x t).subtreeAt y = node c'' l' y r'
  words : ∀ {t : RbTree α} {x : α} {c : Color} {r : RbTree α}, t.toList.Nodup →
    t.subtreeAt x = node c leaf x r → rb.staleNode x t = t.links x

/-- A node with two children is replaced by its in-order successor; what is left
below the right child then begins behind the successor. The words of the node stay,
except that the link to its right child may be the one that this child had, if it is
the successor; what is below that one stays below it. -/
structure RbLib.SuccessorInPlace (rb : RbLib) (α : Type) [DecidableEq α] : Prop
    extends rb.ChildInPlace α where
  successor : ∀ {t : RbTree α} {x y : α} {c c' : Color} {l l' r' : RbTree α}, t.toList.Nodup →
    t.subtreeAt x = node c l x (node c' l' y r') → l ≠ leaf → l' ≠ leaf →
    ((rb.eraseNode x t).subtreeAt y).first = (l'.toList ++ y :: r'.toList).tail.head?
  wordsUp : ∀ {t : RbTree α} {x : α} {c : Color} {l : RbTree α}, t.toList.Nodup →
    t.subtreeAt x = node c l x leaf → rb.staleNode x t = t.links x
  wordsFar : ∀ {t : RbTree α} {x y : α} {c c' : Color} {l l' r' : RbTree α}, t.toList.Nodup →
    t.subtreeAt x = node c l x (node c' l' y r') → l' ≠ leaf → rb.staleNode x t = t.links x
  wordsNear : ∀ {t : RbTree α} {x y : α} {c c' : Color} {l r' : RbTree α}, t.toList.Nodup →
    t.subtreeAt x = node c l x (node c' leaf y r') → rb.staleNode x t = t.links x ∨
      rb.staleNode x t = { t.links x with right := r'.root } ∧
        ∀ z, r'.root = some z → ((rb.eraseNode x t).subtreeAt z).first = r'.first

namespace ErasingWalk

section

variable {rb : RbLib} {t : RbTree α} (ht : t.toList.Nodup) {p : Option α} {b e : List α}
  {c c' : Color} {l l' r r' : RbTree α} {x y : α}

include ht

/-- Words that stay lead to the parent, or to what is now below the right child. -/
theorem landing_of_words (hbelow : Below t p b (RbTree.node c l x r) e)
    (hwords : rb.staleNode x t = t.links x) :
    landing (rb.eraseNode x t) (rb.staleNode x t) =
      r.root.elim p fun y => ((rb.eraseNode x t).subtreeAt y).first := by
  rw [landing, hwords, links_of_below ht hbelow]
  cases r <;> rfl

/-- An only child takes the place of the node, and the walk goes on with the first
node below it. -/
theorem landing_onlyChild (hrb : rb.ChildInPlace α)
    (hbelow : Below t p b (RbTree.node c leaf x (RbTree.node c' l' y r')) e) :
    landing (rb.eraseNode x t) (rb.staleNode x t) =
      ((RbTree.node c' l' y r').toList ++ e).head? := by
  have hsub := subtreeAt_of_below ht hbelow
  obtain ⟨c'', hchild⟩ := hrb.onlyChild ht hsub
  refine (landing_of_words ht hbelow (hrb.words ht hsub)).trans ?_
  change ((rb.eraseNode x t).subtreeAt y).first = _
  rw [hchild, first_eq_head?, List.head?_append_of_ne_nil _ (by simp)]
  rfl

/-- Behind a successor that is not a child the walk goes on with the next node. -/
theorem landing_successor (hrb : rb.SuccessorInPlace α)
    (hbelow : Below t p b (RbTree.node c l x (RbTree.node c' l' y r')) e) (hl : l ≠ leaf)
    (hl' : l' ≠ leaf) :
    ∃ s rest, (RbTree.node c' l' y r').toList ++ e = s :: rest ∧
      landing (rb.eraseNode x t) (rb.staleNode x t) = rest.head? := by
  have hsub := subtreeAt_of_below ht hbelow
  obtain ⟨s, rest, hs⟩ := List.exists_cons_of_ne_nil (mt toList_eq_nil_iff.mp hl')
  refine ⟨s, rest ++ y :: r'.toList ++ e, by rw [toList_node, hs]; rfl, ?_⟩
  refine (landing_of_words ht hbelow (hrb.wordsFar ht hsub hl')).trans ?_
  change ((rb.eraseNode x t).subtreeAt y).first = _
  rw [hrb.successor ht hsub hl hl', hs]
  exact (List.head?_append_of_ne_nil (rest ++ y :: r'.toList) (by simp)).symm

end

section

variable {all : List α} (hall : all.Nodup) {w : ErasingWalk α σ}

theorem pairwise_idxOf {l : List α} (hl : l.Nodup) :
    l.Pairwise fun a b => l.idxOf a < l.idxOf b := by
  rw [List.pairwise_iff_getElem]
  intro i j hi hj hij
  rw [hl.idxOf_getElem, hl.idxOf_getElem]
  exact hij

include hall

/-- The order of the nodes around the current one. -/
theorem Sound.sorted (h : Sound all w) :
    w.tree.toList.Pairwise fun a b => all.idxOf a < all.idxOf b :=
  (pairwise_idxOf hall).sublist h.sublist

variable {x : α} {pre post : List α}

theorem Sound.lt_of_mem_pre (h : Sound all w) (ht : w.tree.toList = pre ++ x :: post) {a : α}
    (ha : a ∈ pre) : all.idxOf a < all.idxOf x := by
  have hsorted := h.sorted hall
  rw [ht, List.pairwise_append] at hsorted
  exact hsorted.2.2 a ha x List.mem_cons_self

theorem Sound.mem_post_iff (h : Sound all w) (ht : w.tree.toList = pre ++ x :: post) {a : α} :
    a ∈ w.tree.toList ∧ all.idxOf x < all.idxOf a ↔ a ∈ post := by
  have hsorted := h.sorted hall
  rw [ht, List.pairwise_append, List.pairwise_cons] at hsorted
  rw [ht, List.mem_append, List.mem_cons]
  constructor
  · rintro ⟨ha | rfl | ha, hlt⟩
    · exact absurd hlt (Nat.lt_asymm (hsorted.2.2 a ha x List.mem_cons_self))
    · exact absurd hlt (Nat.lt_irrefl _)
    · exact ha
  · exact fun ha => ⟨.inr (.inr ha), hsorted.2.1.1 a ha⟩

/-- The next node is not behind the nodes that come after the current one. -/
theorem Sound.head_le (h : Sound all w) (ht : w.tree.toList = pre ++ x :: post) {a y : α}
    (ha : a ∈ post) (hy : post.head? = some y) : all.idxOf y ≤ all.idxOf a := by
  have hsorted := h.sorted hall
  rw [ht, List.pairwise_append, List.pairwise_cons] at hsorted
  cases post with
  | nil => exact absurd ha List.not_mem_nil
  | cons z post =>
    obtain rfl := Option.some.inj hy
    rcases List.mem_cons.mp ha with rfl | ha
    · exact Nat.le_refl _
    · exact Nat.le_of_lt ((List.pairwise_cons.mp hsorted.2.1.2).1 a ha)

/-- A round passes what lies between its node and the next one. -/
theorem Sound.passes_iff (h : Sound all w) (ht : w.tree.toList = pre ++ x :: post)
    (hx : w.node = some x) {w' : ErasingWalk α σ} {a : α} :
    Passes all w w' a ↔ a ∈ post ∧ ¬NotBehind all w' a := by
  rw [← h.mem_post_iff hall ht, Passes, hx, and_assoc]
  refine and_congr_right fun _ => and_congr_left fun _ => ⟨?_, fun hlt => ⟨x, rfl, hlt⟩⟩
  rintro ⟨y, hy, hlt⟩
  obtain rfl := Option.some.inj hy
  exact hlt

/-- What is below a node comes first at most at the node. -/
theorem Sound.first_subtreeAt (h : Sound all w) {y : α} (hy : y ∈ w.tree.toList) :
    ∃ z, (w.tree.subtreeAt y).first = some z ∧ all.idxOf z ≤ all.idxOf y := by
  obtain ⟨p, b, c, l, r, e, hbelow⟩ := exists_below hy
  rw [subtreeAt_of_below (h.sublist.nodup hall) hbelow, first_eq_head?, toList_node]
  cases hl : l.toList with
  | nil => exact ⟨y, rfl, Nat.le_refl _⟩
  | cons z rest =>
    have hz : z ∈ b ++ l.toList := List.mem_append_right _ (hl ▸ List.mem_cons_self)
    exact ⟨z, rfl, Nat.le_of_lt (h.lt_of_mem_pre hall hbelow.toList_around hz)⟩

variable {p : Option α} {b e : List α} {c c' : Color} {l l' r r' : RbTree α} {y : α}

/-- The parent of a node without a right child is the next node or one before. -/
theorem Sound.parent_le (h : Sound all w)
    (hbelow : Below w.tree p b (RbTree.node c l x leaf) e) {a : α} (ha : a ∈ e) :
    ∃ z, p = some z ∧ all.idxOf z ≤ all.idxOf a := by
  have haround : w.tree.toList = b ++ l.toList ++ x :: e := hbelow.toList_around
  rcases hbelow.parent with ⟨-, -, he⟩ | ⟨z, e', hz, he⟩ | ⟨z, b', hz, hb⟩
  · exact absurd (he ▸ ha) List.not_mem_nil
  · exact ⟨z, hz, h.head_le hall haround ha (congrArg List.head? he)⟩
  · have hpre : z ∈ b ++ l.toList := by simp [hb]
    have hlt := ((h.mem_post_iff hall haround).mpr ha).2
    exact ⟨z, hz, Nat.le_of_lt (Nat.lt_trans (h.lt_of_mem_pre hall haround hpre) hlt)⟩

/-- The words of an erased node lead to the next node or to one before it, or to the
one behind the next, when it has two children. -/
theorem Sound.landing_cases {rb : RbLib} (hrb : rb.SuccessorInPlace α) (h : Sound all w)
    (hbelow : Below w.tree p b (RbTree.node c l x r) e)
    (h' : Sound all { w with tree := rb.eraseNode x w.tree, node := none })
    (hlist : (rb.eraseNode x w.tree).toList = b ++ (l.toList ++ (r.toList ++ e))) :
    (∀ a ∈ r.toList ++ e, ∃ z,
      landing (rb.eraseNode x w.tree) (rb.staleNode x w.tree) = some z ∧
        all.idxOf z ≤ all.idxOf a) ∨
    (l ≠ leaf ∧ r ≠ leaf ∧ ∃ s rest, r.toList ++ e = s :: rest ∧
      landing (rb.eraseNode x w.tree) (rb.staleNode x w.tree) = rest.head?) := by
  have hnd : w.tree.toList.Nodup := h.sublist.nodup hall
  have hsub := subtreeAt_of_below hnd hbelow
  have haround := hbelow.toList_around
  cases r with
  | leaf =>
    refine .inl fun a ha => ?_
    rw [landing_of_words hnd hbelow (hrb.wordsUp hnd hsub)]
    exact h.parent_le hall hbelow ha
  | node c' l' y r' =>
    by_cases hl : l = leaf
    · subst hl
      refine .inl fun a ha => ?_
      obtain ⟨z, rest, hz⟩ := List.exists_cons_of_ne_nil (List.ne_nil_of_mem ha)
      have hhead := congrArg List.head? hz
      exact ⟨z, (landing_onlyChild hnd hrb.toChildInPlace hbelow).trans hhead,
        h.head_le hall haround ha hhead⟩
    · by_cases hl' : l' = leaf
      · subst hl'
        rcases hrb.wordsNear hnd hsub with hwords | ⟨hwords, hfirst⟩
        · have hy : y ∈ (rb.eraseNode x w.tree).toList := by
            rw [hlist]
            simp
          obtain ⟨z, hz, hle⟩ := h'.first_subtreeAt hall hy
          refine .inl fun a ha => ⟨z, ?_, hle.trans (h.head_le hall haround ha rfl)⟩
          rw [landing_of_words hnd hbelow hwords]
          exact hz
        · have hlanding : landing (rb.eraseNode x w.tree) (rb.staleNode x w.tree) =
              r'.root.elim p fun z => ((rb.eraseNode x w.tree).subtreeAt z).first := by
            rw [landing, hwords, links_of_below hnd hbelow]
            cases r' <;> rfl
          cases r' with
          | node c₂ l₂ z r₂ =>
            refine .inr ⟨hl, nofun, y, (RbTree.node c₂ l₂ z r₂).toList ++ e, rfl, ?_⟩
            refine hlanding.trans ((hfirst z rfl).trans ?_)
            rw [first_eq_head?, List.head?_append_of_ne_nil _ (by simp)]
          | leaf =>
            -- the walk goes up, behind the successor or in front of the node
            rcases hbelow.parent with ⟨hp, -, he⟩ | ⟨z, e', hp, he⟩ | ⟨z, b', hp, hb⟩
            · exact .inr ⟨hl, nofun, y, [], by rw [he]; rfl, hlanding.trans hp⟩
            · exact .inr ⟨hl, nofun, y, z :: e', by rw [he]; rfl, hlanding.trans hp⟩
            · refine .inl fun a ha => ⟨z, hlanding.trans hp, ?_⟩
              have hpre : z ∈ b ++ l.toList := by simp [hb]
              have hlt := ((h.mem_post_iff hall haround).mpr ha).2
              exact Nat.le_of_lt (Nat.lt_trans (h.lt_of_mem_pre hall haround hpre) hlt)
      · obtain ⟨s, rest, hpost, hland⟩ := landing_successor hnd hrb hbelow hl hl'
        exact .inr ⟨hl, nofun, s, rest, hpost, hland⟩

/-- A round that passes a node erases another one. -/
theorem Sound.passes_erases (h : Sound all w) (rb : RbLib) (q : α → Bool) (free : α → σ → σ)
    {a : α} (hpass : Passes all w (ErasingWalk.step rb q free w) a) :
    ∃ x, w.node = some x ∧ q x = true ∧ x ≠ a := by
  obtain ⟨x, hx, hlt⟩ := hpass.2.1
  refine ⟨x, hx, ?_, fun heq => Nat.lt_irrefl _ (heq ▸ hlt)⟩
  rcases step_cases rb q free hall h with
    ⟨hnone, -⟩ | ⟨y, p, b, c, l, r, e, hy, hbelow, ⟨-, heq⟩ | ⟨hq, -⟩⟩
  · exact absurd (hnone.symm.trans hx) nofun
  · rw [h.passes_iff hall hbelow.toList_around hy, heq] at hpass
    obtain ⟨z, rest, hz⟩ := List.exists_cons_of_ne_nil (List.ne_nil_of_mem hpass.1)
    have hhead := congrArg List.head? hz
    exact absurd ⟨z, hhead, h.head_le hall hbelow.toList_around hpass.1 hhead⟩ hpass.2
  · exact Option.some.inj (hy.symm.trans hx) ▸ hq

/-- A round that passes a node erases one with two children, and the node is the
next one in order. -/
theorem Sound.passes_step {rb : RbLib} (hrb : rb.SuccessorInPlace α) (h : Sound all w)
    (q : α → Bool) (free : α → σ → σ) {a : α}
    (hpass : Passes all w (ErasingWalk.step rb q free w) a) :
    ∃ x, w.node = some x ∧ q x = true ∧ ∃ d pre rest,
      w.tree.toList = d :: pre ++ x :: a :: rest := by
  have h' := h.step rb q free hall
  rcases step_cases rb q free hall h with
    ⟨hnone, -⟩ | ⟨x, p, b, c, l, r, e, hx, hbelow, ⟨hq, heq⟩ | ⟨hq, hlist, heq⟩⟩
  · obtain ⟨x, hx, -⟩ := h.passes_erases hall rb q free hpass
    exact absurd (hnone.symm.trans hx) nofun
  · obtain ⟨y, hy, hqy, -⟩ := h.passes_erases hall rb q free hpass
    obtain rfl := Option.some.inj (hx.symm.trans hy)
    exact absurd (hq.symm.trans hqy) nofun
  · refine ⟨x, hx, hq, ?_⟩
    rw [h.passes_iff hall hbelow.toList_around hx, heq] at hpass
    rw [heq] at h'
    rcases h.landing_cases hall hrb hbelow ⟨h'.sublist, nofun⟩ hlist with
      hback | ⟨hl, -, s, rest, hpost, hland⟩
    · exact absurd (hback a hpass.1) hpass.2
    · obtain ⟨d, l', hd⟩ := List.exists_cons_of_ne_nil (mt toList_eq_nil_iff.mp hl)
      have haround := hbelow.toList_around
      rw [hpost] at haround hpass
      obtain rfl : a = s := by
        rcases List.mem_cons.mp hpass.1 with rfl | ha
        · rfl
        · obtain ⟨z, rest', hz⟩ := List.exists_cons_of_ne_nil (List.ne_nil_of_mem ha)
          have hhead := congrArg List.head? hz
          have hnext : w.tree.toList = (b ++ l.toList ++ [x]) ++ s :: rest := by
            rw [haround, List.append_assoc _ [x]]
            rfl
          exact absurd ⟨z, hland.trans hhead, h.head_le hall hnext ha hhead⟩ hpass.2
      obtain ⟨d', pre, hpre⟩ := List.exists_cons_of_ne_nil
        (List.append_ne_nil_of_right_ne_nil b (hd ▸ List.cons_ne_nil d l'))
      exact ⟨d', pre, rest, by rw [haround, hpre]⟩

end

/-! ## Whole walks -/

/-- No two nodes side by side satisfy the test. -/
def Isolated (q : α → Bool) (l : List α) : Prop :=
  l.IsChain fun a b => ¬(q a = true ∧ q b = true)

/-- Behind the first node that does not satisfy the test, no two nodes side by side
satisfy it. -/
def Scattered (q : α → Bool) (l : List α) : Prop :=
  Isolated q (l.dropWhile q)

instance (q : α → Bool) (l : List α) : Decidable (Scattered q l) :=
  inferInstanceAs (Decidable (List.IsChain _ _))

/-- The node is directly behind one that satisfies the test, and another one before
them does not. -/
def Follows (q : α → Bool) (l : List α) (a : α) : Prop :=
  ∃ pre x post, l = pre ++ x :: a :: post ∧ q x = true ∧ ∃ d ∈ pre, q d = false

section

omit [DecidableEq α]

variable {q : α → Bool} {pre post : List α} {x : α}

theorem dropWhile_append_of_exists (h : ∃ d ∈ pre, q d = false) :
    (pre ++ post).dropWhile q = pre.dropWhile q ++ post := by
  have hne : (pre.dropWhile q).isEmpty = false := by
    rw [List.isEmpty_eq_false_iff, ne_eq, List.dropWhile_eq_nil_iff]
    obtain ⟨d, hd, hq⟩ := h
    exact fun hall => absurd (hq.symm.trans (hall d hd)) nofun
  rw [List.dropWhile_append, if_neg (by simp [hne])]

/-- What satisfies the test, behind one that does not, has that one before it. -/
theorem split_of_dropWhile {l : List α} (hx : q x = true) (h : l.dropWhile q = pre ++ x :: post) :
    l = (l.takeWhile q ++ pre) ++ x :: post ∧ ∃ d ∈ l.takeWhile q ++ pre, q d = false := by
  have hl : l = (l.takeWhile q ++ pre) ++ x :: post := by
    rw [List.append_assoc, ← h, List.takeWhile_append_dropWhile]
  refine ⟨hl, ?_⟩
  have hhead := List.head?_dropWhile_not q l
  rw [h] at hhead
  cases pre with
  | nil => exact absurd (hx.symm.trans hhead) nofun
  | cons d pre => exact ⟨d, List.mem_append_right _ List.mem_cons_self, hhead⟩

/-- Two nodes side by side satisfy the test only where all nodes before them do. -/
theorem Scattered.before {s : α} (h : Scattered q (pre ++ x :: s :: post)) (hx : q x = true)
    (hs : q s = true) : ∀ d ∈ pre, q d = true := by
  intro d hd
  by_contra hq
  rw [Scattered, dropWhile_append_of_exists ⟨d, hd, Bool.not_eq_true _ ▸ hq⟩, Isolated,
    List.isChain_append] at h
  exact absurd ⟨hx, hs⟩ (List.isChain_cons_cons.mp h.2.1).1

theorem follows_iff {l : List α} {a : α} :
    Follows q l a ↔ ∃ x ∈ l, q x = true ∧ [x, a] <:+: l.dropWhile q := by
  constructor
  · rintro ⟨pre, x, post, rfl, hx, hd⟩
    refine ⟨x, by simp, hx, pre.dropWhile q, post, ?_⟩
    rw [dropWhile_append_of_exists hd]
    simp
  · rintro ⟨x, -, hx, pre, post, heq⟩
    have hsplit : l.dropWhile q = pre ++ x :: a :: post := by
      rw [← heq, List.append_assoc]
      rfl
    obtain ⟨hl, hd⟩ := split_of_dropWhile hx hsplit
    exact ⟨_, x, post, hl, hx, hd⟩

/-- A node that is put in and satisfies the test changes nothing for those behind it. -/
theorem Follows.insert {a : α} (hx : q x = true) (h : Follows q (pre ++ post) a) :
    Follows q (pre ++ x :: post) a := by
  obtain ⟨p, y, r, heq, hy, d, hd, hqd⟩ := h
  rcases List.append_eq_append_iff.mp heq with ⟨p', rfl, rfl⟩ | ⟨c, rfl, hc⟩
  · refine ⟨pre ++ x :: p', y, r, by simp, hy, d, ?_, hqd⟩
    rcases List.mem_append.mp hd with hd | hd
    · exact List.mem_append_left _ hd
    · exact List.mem_append_right _ (List.mem_cons_of_mem _ hd)
  · cases c with
    | nil =>
      obtain rfl : post = y :: a :: r := hc.symm
      refine ⟨p ++ [x], y, r, by simp, hy, d, List.mem_append_left _ hd, hqd⟩
    | cons y' c =>
      obtain ⟨rfl, hrest⟩ := List.cons.inj hc
      cases c with
      | nil =>
        obtain rfl : post = a :: r := hrest.symm
        exact ⟨p ++ [y], x, r, by simp, hx, d, List.mem_append_left _ hd, hqd⟩
      | cons a' c =>
        obtain ⟨rfl, rfl⟩ := List.cons.inj hrest
        exact ⟨p, y, c ++ x :: post, by simp, hy, d, hd, hqd⟩

end

instance (q : α → Bool) (l : List α) (a : α) : Decidable (Follows q l a) :=
  letI (x : α) : Decidable ([x, a] <:+: l.dropWhile q) := List.instDecidableIsInfixOfDecidableEq _ _
  decidable_of_iff _ follows_iff.symm

section

variable (rb : RbLib) (q : α → Bool) (free : α → σ → σ) {t : RbTree α} (ht : t.toList.Nodup)
  (acc : σ)

include ht

/-- A walk that passes no node that satisfies the test erases all of them. -/
theorem run_exact_of_not_passed (h : ∀ i a, q a = true →
      ¬Passes t.toList (atRound rb q free t acc i) (atRound rb q free t acc (i + 1)) a) :
    (run rb q free t acc).tree.toList = t.toList.filter fun a => !q a :=
  (run_exact_iff rb q free ht acc).mpr fun i a hq hpass => absurd hpass (h i a hq)

/-- One node at most satisfies the test. -/
theorem run_exact_of_single (h : ∀ a ∈ t.toList, ∀ b ∈ t.toList, q a = true → q b = true → a = b) :
    (run rb q free t acc).tree.toList = t.toList.filter fun a => !q a := by
  refine run_exact_of_not_passed rb q free ht acc fun i a hqa hpass => ?_
  have hsound : Sound t.toList (atRound rb q free t acc i) := atRound_sound rb q free ht acc i
  rw [atRound_succ] at hpass
  obtain ⟨x, hx, hqx, hne⟩ := hsound.passes_erases ht rb q free hpass
  exact hne (h x (hsound.sublist.subset (hsound.mem x hx)) a (hsound.sublist.subset hpass.1) hqx hqa)

/-- A library whose erased nodes lead to the next node in order. -/
theorem run_exact_of_next (hnext : ∀ {t : RbTree α} {x : α} {pre post : List α}, t.toList.Nodup →
      t.toList = pre ++ x :: post →
      landing (rb.eraseNode x t) (rb.staleNode x t) = post.head?) :
    (run rb q free t acc).tree.toList = t.toList.filter fun a => !q a := by
  refine run_exact_of_not_passed rb q free ht acc fun i a hqa hpass => ?_
  have hsound : Sound t.toList (atRound rb q free t acc i) := atRound_sound rb q free ht acc i
  rw [atRound_succ] at hpass
  obtain ⟨y, hy, hqy, -⟩ := hsound.passes_erases ht rb q free hpass
  rcases step_cases rb q free ht hsound with
    ⟨hnone, -⟩ | ⟨x, p, b, c, l, r, e, hx, hbelow, ⟨hq, -⟩ | ⟨-, -, heq⟩⟩
  · exact absurd (hnone.symm.trans hy) nofun
  · obtain rfl := Option.some.inj (hx.symm.trans hy)
    exact absurd (hq.symm.trans hqy) nofun
  · have haround := hbelow.toList_around
    rw [hsound.passes_iff ht haround hx, heq] at hpass
    obtain ⟨z, rest, hz⟩ := List.exists_cons_of_ne_nil (List.ne_nil_of_mem hpass.1)
    have hhead := congrArg List.head? hz
    have hland := (hnext (hsound.sublist.nodup ht) haround).trans hhead
    exact hpass.2 ⟨z, hland, hsound.head_le ht haround hpass.1 hhead⟩

/-- The library that never rotates is one. -/
theorem run_exact_of_still :
    (run .still q free t acc).tree.toList = t.toList.filter fun a => !q a := by
  refine run_exact_of_next .still q free ht acc fun {t x pre post} hnd hsplit => ?_
  have hx : x ∈ t.toList := hsplit ▸ List.mem_append_right _ List.mem_cons_self
  cases h : t.findPath fun a => a = x with
  | none => exact absurd (findPath_none h x hx) (by simp)
  | some p =>
    obtain ⟨l, a, ht, ha⟩ := findPath_behind h
    obtain rfl := of_decide_eq_true ha
    have hl : a ∉ l ∧ a ∉ t.behind p := by
      rw [ht, List.nodup_append, List.nodup_cons] at hnd
      exact ⟨fun hmem => hnd.2.2 a hmem a List.mem_cons_self rfl, hnd.2.1.1⟩
    have hbehind := ((List.append_cons_inj_of_notMem hl.1 hl.2).mp (ht.symm.trans hsplit)).2.2
    rw [← hbehind, landing, RbLib.staleNode, h]
    rfl

/-- What every walk leaves of its tree. -/
theorem run_sublist : (run rb q free t acc).tree.toList.Sublist t.toList :=
  (atRound_sound rb q free ht acc _).sublist

/-- As long as a node that satisfies the test is not passed, the walk is not behind
it. -/
theorem notBehind_of_not_passed {n : Nat} {a : α} (h : ∀ i < n,
      ¬Passes t.toList (atRound rb q free t acc i) (atRound rb q free t acc (i + 1)) a)
    (hq : q a = true) (ha : a ∈ (atRound rb q free t acc n).tree.toList) :
    NotBehind t.toList (atRound rb q free t acc n) a := by
  induction n with
  | zero => exact start_notBehind t acc ha
  | succ n ih =>
    by_contra hbehind
    rw [mem_atRound_succ rb q free ht acc] at ha
    obtain ⟨y, hy, hle⟩ := ih (fun i hi => h i (Nat.lt_succ_of_lt hi)) ha.1
    have hne : y ≠ a := fun heq => ha.2 ⟨heq ▸ hy, hq⟩
    have hsound := atRound_sound rb q free ht acc n
    have hlt : t.toList.idxOf y < t.toList.idxOf a := by
      refine Nat.lt_of_le_of_ne hle fun heq => hne ?_
      exact (List.idxOf_inj (hsound.sublist.subset (hsound.mem y hy))).mp heq
    exact h n (Nat.lt_succ_self n) ⟨ha.1, ⟨y, hy, hlt⟩, hbehind⟩

/-- A node that follows others in what is left followed others from the start. -/
theorem follows_of_atRound {a : α} {i : Nat}
    (h : Follows q (atRound rb q free t acc i).tree.toList a) : Follows q t.toList a := by
  induction i with
  | zero => exact h
  | succ i ih =>
    rw [atRound_succ] at h
    rcases step_cases rb q free ht (atRound_sound rb q free ht acc i) with
      ⟨-, heq⟩ | ⟨x, p, b, c, l, r, e, -, hbelow, ⟨-, heq⟩ | ⟨hq, hlist, heq⟩⟩
    · rw [heq] at h
      exact ih h
    · rw [heq] at h
      exact ih h
    · rw [heq, hlist, ← List.append_assoc] at h
      exact ih (hbelow.toList_around ▸ h.insert hq)

/-- What does not satisfy the test is always there. -/
theorem mem_atRound_of_not {a : α} (hq : q a = false) (ha : a ∈ t.toList) (i : Nat) :
    a ∈ (atRound rb q free t acc i).tree.toList := by
  induction i with
  | zero => exact ha
  | succ i ih =>
    rw [mem_atRound_succ rb q free ht acc]
    exact ⟨ih, fun hx => absurd (hq.symm.trans hx.2) nofun⟩

variable {rb} (hrb : rb.SuccessorInPlace α)

include hrb

/-- No round erases a node behind another one when the next node in order satisfies
the test too. -/
theorem run_exact_of_unskipped (h : ∀ i x d pre s rest,
      (atRound rb q free t acc i).node = some x → q x = true →
      (atRound rb q free t acc i).tree.toList = d :: pre ++ x :: s :: rest → q s = false) :
    (run rb q free t acc).tree.toList = t.toList.filter fun a => !q a := by
  refine run_exact_of_not_passed rb q free ht acc fun i a hqa hpass => ?_
  rw [atRound_succ] at hpass
  obtain ⟨x, hx, hqx, d, pre, rest, htree⟩ :=
    (atRound_sound rb q free ht acc i).passes_step ht hrb q free hpass
  exact absurd ((h i x d pre a rest hx hqx htree).symm.trans hqa) nofun

/-- A node that satisfies the test and is passed follows another one that does. -/
theorem follows_of_passed {i : Nat} {a : α} (hq : q a = true)
    (hpass : Passes t.toList (atRound rb q free t acc i) (atRound rb q free t acc (i + 1)) a) :
    Follows q t.toList a := by
  induction i using Nat.strong_induction_on generalizing a with
  | _ i ih =>
    have hsound : Sound t.toList (atRound rb q free t acc i) := atRound_sound rb q free ht acc i
    rw [atRound_succ] at hpass
    obtain ⟨x, hx, hqx, d, pre, rest, htree⟩ := hsound.passes_step ht hrb q free hpass
    have hfollows : (∃ d' ∈ d :: pre, q d' = false) → Follows q t.toList a := fun hd' =>
      follows_of_atRound rb q free ht acc ⟨d :: pre, x, rest, htree, hqx, hd'⟩
    cases hqd : q d with
    | false => exact hfollows ⟨d, List.mem_cons_self, hqd⟩
    | true =>
      -- the walk is behind `d`, so it has passed it, and one before `d` fails the test
      have hdx := hsound.lt_of_mem_pre ht htree (List.mem_cons_self (a := d) (l := pre))
      have hd : d ∈ (atRound rb q free t acc i).tree.toList := htree ▸ List.mem_cons_self
      obtain ⟨j, hj, hpassed⟩ : ∃ j < i,
          Passes t.toList (atRound rb q free t acc j) (atRound rb q free t acc (j + 1)) d := by
        by_contra hnone
        push Not at hnone
        obtain ⟨y, hy, hle⟩ := notBehind_of_not_passed rb q free ht acc hnone hqd hd
        obtain rfl := Option.some.inj (hx.symm.trans hy)
        exact absurd hle (Nat.not_le.mpr hdx)
      obtain ⟨p, y, r, heq, -, d', hd', hqd'⟩ := ih j hj hqd hpassed
      have hd'd : t.toList.idxOf d' < t.toList.idxOf d := by
        have hsorted := pairwise_idxOf ht
        rw [heq, List.pairwise_append] at hsorted
        exact heq ▸ hsorted.2.2 d' hd' d (by simp)
      have hmem := mem_atRound_of_not rb q free ht acc hqd' (by rw [heq]; simp [hd']) i
      refine hfollows ⟨d', ?_, hqd'⟩
      by_contra hnot
      rw [htree] at hmem
      have hpost := (List.mem_cons.mp ((List.mem_append.mp hmem).resolve_left hnot)).resolve_left
        fun hx' => absurd ((hx' ▸ hqd').symm.trans hqx) nofun
      have hxd' := ((hsound.mem_post_iff ht htree).mpr hpost).2
      exact absurd (Nat.lt_trans hdx hxd') (Nat.lt_asymm hd'd)

/-- Whatever the shape of the tree, a walk leaves no other nodes behind. -/
theorem follows_of_mem_run {a : α} (hq : q a = true)
    (ha : a ∈ (run rb q free t acc).tree.toList) : Follows q t.toList a := by
  by_contra hnot
  obtain ⟨y, hy, -⟩ := notBehind_of_not_passed rb q free ht acc
    (fun i _ hpass => hnot (follows_of_passed q free ht acc hrb hq hpass)) hq ha
  have hnone : (run rb q free t acc).node = none := run_node rb q free ht acc
  exact absurd (hnone.symm.trans hy) nofun

/-- Scattered nodes are all erased. -/
theorem run_exact_of_scattered (h : Scattered q t.toList) :
    (run rb q free t acc).tree.toList = t.toList.filter fun a => !q a := by
  refine (run_exact_iff_gone rb q free ht acc).mpr fun a hq ha => ?_
  obtain ⟨pre, x, post, heq, hx, d, hd, hqd⟩ := follows_of_mem_run q free ht acc hrb hq ha
  rw [heq] at h
  exact absurd ((h.before hx hq d hd).symm.trans hqd) nofun

end

section

variable (q : α → Bool) {t : RbTree α} (ht : t.toList.Nodup) (acc : σ)

include ht

/-- What is counted for each erased node. -/
theorem acc_run (rb : RbLib) (f : σ → σ) :
    (run rb q (fun _ => f) t acc).acc =
      f^[t.toList.length - (run rb q (fun _ => f) t acc).tree.toList.length] acc := by
  have hacc : ∀ i, (atRound rb q (fun _ => f) t acc i).acc =
      f^[t.toList.length - (atRound rb q (fun _ => f) t acc i).tree.toList.length] acc := by
    intro i
    induction i with
    | zero =>
      have htree : (atRound rb q (fun _ => f) t acc 0).tree = t := rfl
      rw [htree, Nat.sub_self]
      rfl
    | succ i ih =>
      have hsound := atRound_sound rb q (fun _ => f) ht acc i
      rw [atRound_succ]
      rcases step_cases rb q (fun _ => f) ht hsound with
        ⟨-, heq⟩ | ⟨x, p, b, c, l, r, e, -, hbelow, ⟨-, heq⟩ | ⟨hq, hlist, heq⟩⟩
      · rw [heq, ih]
      · rw [heq]
        exact ih
      · have hle := hsound.sublist.length_le
        have hlen : (atRound rb q (fun _ => f) t acc i).tree.toList.length =
            (rb.eraseNode x (atRound rb q (fun _ => f) t acc i).tree).toList.length + 1 := by
          rw [hlist, hbelow.toList_around]
          simp only [List.length_append, List.length_cons]
          omega
        have hcount : t.toList.length -
              (rb.eraseNode x (atRound rb q (fun _ => f) t acc i).tree).toList.length =
            t.toList.length - (atRound rb q (fun _ => f) t acc i).tree.toList.length + 1 := by
          omega
        rw [heq, hcount, iterate_succ_apply', ← ih]
  exact hacc _

end

/-! ## A walk that erases every node -/

section

variable {rb : RbLib} (hrb : rb.ChildInPlace α) (free : α → σ → σ)

include hrb

/-- The first node is erased, and the walk stands at the first one again. -/
theorem step_all {t : RbTree α} (ht : t.toList.Nodup) {x : α} {rest : List α}
    (hx : t.toList = x :: rest) (acc : σ) :
    ∃ t', t'.toList = rest ∧
      step rb (fun _ => true) free (start t acc) = start t' (free x acc) := by
  rcases step_cases rb (fun _ => true) free ht (start_sound t acc) with
    ⟨hnone, -⟩ | ⟨y, p, b, c, l, r, e, hy, hbelow, ⟨hq, -⟩ | ⟨-, hlist, heq⟩⟩
  · have hfirst : t.first = none := hnone
    rw [first_eq_head?, hx] at hfirst
    exact absurd hfirst nofun
  · exact absurd hq nofun
  · have hbelow' : Below t p b (RbTree.node c l y r) e := hbelow
    have hfirst : t.first = some y := hy
    rw [first_eq_head?, hx] at hfirst
    obtain rfl := Option.some.inj hfirst
    have haround := hx.symm.trans hbelow'.toList_around
    -- nothing is before the first node
    have hnil : b ++ l.toList = [] := by
      cases hpre : b ++ l.toList with
      | nil => rfl
      | cons z pre =>
        rw [hpre, List.cons_append, List.cons.injEq] at haround
        rw [hx, haround.2] at ht
        exact absurd (List.mem_append_right _ List.mem_cons_self) (List.nodup_cons.mp ht).1
    rw [hnil, List.nil_append, List.cons.injEq] at haround
    obtain ⟨hb, hl⟩ := List.append_eq_nil_iff.mp hnil
    obtain rfl := toList_eq_nil_iff.mp hl
    have hrest : (rb.eraseNode x t).toList = r.toList ++ e := by
      rw [rb.eraseNode_toList, hx, List.erase_cons_head, haround.2]
    have hland : landing (rb.eraseNode x t) (rb.staleNode x t) = (rb.eraseNode x t).first := by
      rw [first_eq_head?, hrest]
      cases r with
      | node c' l' y r' => exact landing_onlyChild ht hrb hbelow'
      | leaf =>
        have hwords := hrb.words ht (subtreeAt_of_below ht hbelow')
        refine (landing_of_words ht hbelow' hwords).trans ?_
        rcases hbelow'.parent with ⟨hp, -, he⟩ | ⟨z, e', hp, he⟩ | ⟨z, b', -, hb'⟩
        · rw [hp, he]
          rfl
        · rw [hp, he]
          rfl
        · exact absurd (hb.symm.trans hb') (by simp)
    refine ⟨rb.eraseNode x t, hrest.trans haround.2.symm, heq.trans ?_⟩
    exact congrArg (fun y => ErasingWalk.mk (rb.eraseNode x t) y (free x acc)) hland

/-- The walk erases every node, one after another in order. -/
theorem run_all {t : RbTree α} (ht : t.toList.Nodup) (acc : σ) :
    run rb (fun _ => true) free t acc =
      ⟨leaf, none, t.toList.foldl (fun acc x => free x acc) acc⟩ := by
  have hsteps : ∀ l : List α, ∀ t : RbTree α, t.toList = l → l.Nodup → ∀ acc,
      (step rb (fun _ => true) free)^[l.length] (start t acc) =
        ⟨leaf, none, l.foldl (fun acc x => free x acc) acc⟩ := by
    intro l
    induction l with
    | nil =>
      intro t hl _ acc
      obtain rfl := toList_eq_nil_iff.mp hl
      rfl
    | cons x rest ih =>
      intro t hl hnd acc
      obtain ⟨t', ht', hstep⟩ := step_all hrb free (hl ▸ hnd) hl acc
      rw [List.length_cons, iterate_succ_apply, hstep]
      exact ih t' ht' (List.nodup_cons.mp hnd).2 _
  have hle : t.toList.length ≤ (t.toList.length + 1) ^ 2 := by
    rw [Nat.pow_two, Nat.succ_mul]
    omega
  obtain ⟨k, hk⟩ := Nat.exists_eq_add_of_le' hle
  rw [run, hk, iterate_add_apply, hsteps _ t rfl ht acc]
  exact iterate_of_none rb (fun _ => true) free rfl k

end

end ErasingWalk

end SearchTree
