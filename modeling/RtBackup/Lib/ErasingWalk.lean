import RtBackup.Lib.LinkWords
import Mathlib.Logic.Function.Iterate
import Mathlib.Data.Nat.Init
import Mathlib.Algebra.Group.Nat.Defs

/-!
# A walk through a search tree that erases nodes on its way

`for (node = rb_first(root); node; node = rb_next(node))` with an `rb_erase(node)`
in its body goes on from a node that the tree no longer has, through the link
words that are left in it. What these words lead to depends on the shape of the
tree around the node, and on what the library does to it and to them.

The memory of an erased node is taken to stay readable.

Results:
1. `step_cases`: all that one round does.
2. `run_node`: the walk ends.
3. `run_exact_iff`: it erases all nodes that satisfy the test exactly if each one
   that it passes is come back to.
-/

namespace SearchTree

open RbTree Function

variable {α σ : Type} [DecidableEq α]

/-- `rb_erase` of the node `x`. -/
def RbLib.eraseNode (rb : RbLib) (x : α) (t : RbTree α) : RbTree α :=
  match t.findPath fun a => a = x with
  | some p => rb.erase p t
  | none => t

/-- The link words of the node `x` once it is erased. -/
def RbLib.staleNode (rb : RbLib) (x : α) (t : RbTree α) : Links α :=
  match t.findPath fun a => a = x with
  | some p => rb.staleLinks p t
  | none => t.links x

/-- The loop between two rounds. -/
structure ErasingWalk (α σ : Type) where
  tree : RbTree α
  node : Option α
  acc : σ

namespace ErasingWalk

section

variable (rb : RbLib) (q : α → Bool) (free : α → σ → σ)

def start (t : RbTree α) (acc : σ) : ErasingWalk α σ := ⟨t, t.first, acc⟩

/-- One round: a node that satisfies the test is erased and freed, then comes
`node = rb_next(node)`. -/
def step (w : ErasingWalk α σ) : ErasingWalk α σ :=
  match w.node with
  | none => w
  | some x =>
    let fuel := w.tree.toList.length + 1
    if q x then
      let tree := rb.eraseNode x w.tree
      { tree := tree
        node := rbNext (update tree.links x (rb.staleNode x w.tree)) fuel x
        acc := free x w.acc }
    else { w with node := rbNext w.tree.links fuel x }

/-- The loop; the number of rounds is more than enough. -/
def run (t : RbTree α) (acc : σ) : ErasingWalk α σ :=
  (step rb q free)^[(t.toList.length + 1) ^ 2] (start t acc)

end

/-- What holds before each round of a walk through a tree with these nodes. -/
structure Sound (all : List α) (w : ErasingWalk α σ) : Prop where
  sublist : w.tree.toList.Sublist all
  mem : ∀ x, w.node = some x → x ∈ w.tree.toList

/-- The node that the words of an erased node lead to: the one it has for its
parent, or the first one below the one it has for its right child. -/
def landing (t : RbTree α) (stale : Links α) : Option α :=
  match stale.right with
  | none => stale.parent
  | some y => (t.subtreeAt y).first

end ErasingWalk

theorem RbLib.eraseNode_toList (rb : RbLib) (x : α) (t : RbTree α) :
    (rb.eraseNode x t).toList = t.toList.erase x := by
  unfold RbLib.eraseNode
  cases h : t.findPath fun a => a = x with
  | none =>
    have hx : x ∉ t.toList := fun hmem => absurd (findPath_none h x hmem) (by simp)
    exact (List.erase_of_not_mem hx).symm
  | some p =>
    obtain ⟨l, a, r, ht, ha, hl, hwithout⟩ := findPath_some h
    obtain rfl := of_decide_eq_true ha
    have hnot : a ∉ l := fun hmem => absurd (hl a hmem) (by simp)
    rw [RbLib.erase_toList, hwithout, ht, List.erase_append_right _ hnot, List.erase_cons_head]

/-- The words of an erased node lead into the tree. -/
theorem RbLib.staleNode_mem (rb : RbLib) {x y : α} {t : RbTree α} (hx : x ∈ t.toList)
    (hy : (rb.staleNode x t).parent = some y ∨ (rb.staleNode x t).right = some y) :
    y ∈ (rb.eraseNode x t).toList := by
  unfold RbLib.staleNode at hy
  unfold RbLib.eraseNode
  cases h : t.findPath fun a => a = x with
  | none => exact absurd (findPath_none h x hx) (by simp)
  | some p =>
    rw [h] at hy
    change y ∈ (rb.erase p t).toList
    rw [rb.erase_toList]
    rcases hy with hy | hy
    · exact rb.staleLinks_parent p t y hy
    · exact rb.staleLinks_right p t y hy

namespace ErasingWalk

section

variable (rb : RbLib) (q : α → Bool) (free : α → σ → σ) {all : List α} {w : ErasingWalk α σ}

omit [DecidableEq α] in
theorem start_sound (t : RbTree α) (acc : σ) : Sound t.toList (start t acc) where
  sublist := List.Sublist.refl _
  mem _ hx := List.mem_of_mem_head? (first_eq_head? t ▸ hx)

/-- A round that has ended, one that keeps its node, and one that erases it. -/
theorem step_cases (hall : all.Nodup) (h : Sound all w) :
    (w.node = none ∧ step rb q free w = w) ∨
    ∃ x p b c l r e, w.node = some x ∧ Below w.tree p b (RbTree.node c l x r) e ∧
      ((q x = false ∧ step rb q free w = { w with node := (r.toList ++ e).head? }) ∨
       (q x = true ∧ (rb.eraseNode x w.tree).toList = b ++ (l.toList ++ (r.toList ++ e)) ∧
        step rb q free w =
          ⟨rb.eraseNode x w.tree, landing (rb.eraseNode x w.tree) (rb.staleNode x w.tree),
            free x w.acc⟩)) := by
  have hnd : w.tree.toList.Nodup := h.sublist.nodup hall
  cases hnode : w.node with
  | none => exact .inl ⟨rfl, by rw [step, hnode]⟩
  | some x =>
    obtain ⟨p, b, c, l, r, e, hbelow⟩ := exists_below (h.mem x hnode)
    refine .inr ⟨x, p, b, c, l, r, e, rfl, hbelow, ?_⟩
    rw [step, hnode]
    cases hq : q x with
    | false =>
      refine .inl ⟨rfl, ?_⟩
      have hnext : rbNext w.tree.links (w.tree.toList.length + 1) x = (r.toList ++ e).head? :=
        rbNext_of_below hnd (fun _ _ => rfl) hbelow (Nat.le_succ _)
      simp only [hq, Bool.false_eq_true, if_false, hnext]
    | true =>
      have herase := rb.eraseNode_toList x w.tree
      have hlist : (rb.eraseNode x w.tree).toList = b ++ (l.toList ++ (r.toList ++ e)) := by
        have hsplit := hbelow.toList_around
        have hnot : x ∉ b ++ l.toList := fun hmem =>
          (List.nodup_append.mp (hsplit ▸ hnd)).2.2 x hmem x List.mem_cons_self rfl
        rw [herase, hsplit, List.erase_append_right _ hnot, List.erase_cons_head,
          List.append_assoc]
      refine .inr ⟨rfl, hlist, ?_⟩
      have hnd' : (rb.eraseNode x w.tree).toList.Nodup := herase ▸ hnd.erase x
      have hgone : x ∉ (rb.eraseNode x w.tree).toList := herase ▸ hnd.not_mem_erase
      have hnext : rbNext (update (rb.eraseNode x w.tree).links x (rb.staleNode x w.tree))
          (w.tree.toList.length + 1) x =
            landing (rb.eraseNode x w.tree) (rb.staleNode x w.tree) := by
        unfold landing
        cases hright : (rb.staleNode x w.tree).right with
        | none => exact rbNext_stale_up hnd' hgone hright
        | some y =>
          have hy := rb.staleNode_mem (h.mem x hnode) (.inr hright)
          have hfuel : (rb.eraseNode x w.tree).toList.length ≤ w.tree.toList.length + 1 := by
            rw [herase]
            exact Nat.le_succ_of_le List.length_erase_le
          exact rbNext_stale_right hnd' hgone hright hy hfuel
      simp only [hq, if_true, hnext]

/-- The walk goes on at a node of the tree. -/
theorem landing_mem {t : RbTree α} {x y : α} (ht : (rb.eraseNode x t).toList.Nodup)
    (hx : x ∈ t.toList) (hy : landing (rb.eraseNode x t) (rb.staleNode x t) = some y) :
    y ∈ (rb.eraseNode x t).toList := by
  unfold landing at hy
  cases hright : (rb.staleNode x t).right with
  | none =>
    rw [hright] at hy
    exact rb.staleNode_mem hx (.inl hy)
  | some z =>
    rw [hright] at hy
    have hfirst : ((rb.eraseNode x t).subtreeAt z).first = some y := hy
    rw [first_eq_head?] at hfirst
    exact subtreeAt_subset ht (List.mem_of_mem_head? hfirst)

theorem Sound.step (hall : all.Nodup) (h : Sound all w) : Sound all (step rb q free w) := by
  have hnd : w.tree.toList.Nodup := h.sublist.nodup hall
  rcases step_cases rb q free hall h with ⟨-, heq⟩ | ⟨x, p, b, c, l, r, e, hnode, hbelow, hcase⟩
  · rw [heq]
    exact h
  · rcases hcase with ⟨-, heq⟩ | ⟨-, hlist, heq⟩
    · rw [heq]
      refine ⟨h.sublist, fun y hy => ?_⟩
      rw [hbelow.toList_around]
      exact List.mem_append_right _ (List.mem_cons_of_mem _ (List.mem_of_mem_head? hy))
    · have herase : (rb.eraseNode x w.tree).toList.Sublist w.tree.toList := by
        rw [rb.eraseNode_toList]
        exact List.erase_sublist
      rw [heq]
      exact ⟨herase.trans h.sublist, fun y hy =>
        landing_mem rb (herase.nodup hnd) (h.mem x hnode) hy⟩

end

/-! ## The walk ends -/

section

variable (rb : RbLib) (q : α → Bool) (free : α → σ → σ)

/-- The nodes from the current one on. -/
def remaining (w : ErasingWalk α σ) : Nat :=
  match w.node with
  | none => 0
  | some x => w.tree.toList.length - w.tree.toList.idxOf x

/-- Erasing a node lowers this more than going back can raise it. -/
def measure (bound : Nat) (w : ErasingWalk α σ) : Nat :=
  w.tree.toList.length * (bound + 1) + w.remaining

variable {all : List α} (hall : all.Nodup) {w : ErasingWalk α σ}

theorem remaining_le (w : ErasingWalk α σ) : w.remaining ≤ w.tree.toList.length := by
  unfold remaining
  split
  · exact Nat.zero_le _
  · exact Nat.sub_le _ _

theorem remaining_around (hnd : w.tree.toList.Nodup) {x : α} {pre post : List α}
    (hnode : w.node = some x) (ht : w.tree.toList = pre ++ x :: post) :
    w.remaining = post.length + 1 := by
  have hnot : x ∉ pre := fun hx =>
    (List.nodup_append.mp (ht ▸ hnd)).2.2 x hx x List.mem_cons_self rfl
  have hidx : (pre ++ x :: post).idxOf x = pre.length := by
    rw [List.idxOf_append_of_notMem hnot, List.idxOf_cons_self, Nat.add_zero]
  rw [remaining, hnode]
  simp only [ht, hidx, List.length_append, List.length_cons]
  omega

include hall

theorem measure_step (h : Sound all w) (hnode : w.node ≠ none) :
    measure all.length (step rb q free w) < measure all.length w := by
  rcases step_cases rb q free hall h with ⟨hnone, -⟩ | ⟨x, p, b, c, l, r, e, hx, hbelow, hcase⟩
  · exact absurd hnone hnode
  · have hsplit := hbelow.toList_around
    have hnd : w.tree.toList.Nodup := h.sublist.nodup hall
    have hremaining := remaining_around hnd hx hsplit
    rcases hcase with ⟨-, heq⟩ | ⟨-, hlist, heq⟩
    · rw [heq]
      refine Nat.add_lt_add_left ?_ _
      rw [hremaining]
      cases hpost : r.toList ++ e with
      | nil => exact Nat.zero_lt_succ _
      | cons y post =>
        rw [hpost, List.append_cons] at hsplit
        have hnext : remaining { w with node := some y } = post.length + 1 :=
          remaining_around (w := { w with node := some y }) hnd rfl hsplit
        rw [List.head?_cons, hnext, List.length_cons]
        exact Nat.lt_succ_self _
    · have hle := remaining_le (step rb q free w)
      have hbound : w.tree.toList.length ≤ all.length := h.sublist.length_le
      have hlen : w.tree.toList.length = (step rb q free w).tree.toList.length + 1 := by
        rw [heq, hlist, hsplit]
        simp only [List.length_append, List.length_cons]
        omega
      rw [measure, measure, hlen, Nat.succ_mul]
      omega

theorem iterate_sound (h : Sound all w) (n : Nat) : Sound all ((step rb q free)^[n] w) := by
  induction n with
  | zero => exact h
  | succ n ih =>
    rw [iterate_succ_apply']
    exact ih.step rb q free hall

omit hall in
theorem iterate_of_none (hnode : w.node = none) (n : Nat) : (step rb q free)^[n] w = w := by
  have hstays : step rb q free w = w := by rw [step, hnode]
  exact iterate_fixed hstays n

theorem iterate_node (h : Sound all w) {n : Nat} (hn : measure all.length w ≤ n) :
    ((step rb q free)^[n] w).node = none := by
  induction n generalizing w with
  | zero =>
    by_contra hnode
    have hlt := measure_step rb q free hall h hnode
    omega
  | succ n ih =>
    by_cases hnode : w.node = none
    · rw [iterate_of_none rb q free hnode]
      exact hnode
    · have hlt := measure_step rb q free hall h hnode
      rw [iterate_succ_apply]
      exact ih (h.step rb q free hall) (by omega)

end

section

variable (rb : RbLib) (q : α → Bool) (free : α → σ → σ) {t : RbTree α} (ht : t.toList.Nodup)
  (acc : σ)

include ht

/-- The rounds of `run` are enough. -/
theorem iterate_start_node {n : Nat} (hn : (t.toList.length + 1) ^ 2 ≤ n) :
    ((step rb q free)^[n] (start t acc)).node = none := by
  refine iterate_node rb q free ht (start_sound t acc) (Nat.le_trans ?_ hn)
  have hle := remaining_le (start t acc)
  have htree : (start t acc).tree.toList.length = t.toList.length := rfl
  rw [measure, htree, Nat.pow_two, Nat.succ_mul (t.toList.length)]
  omega

theorem run_node : (run rb q free t acc).node = none :=
  iterate_start_node rb q free ht acc (Nat.le_refl _)

end

/-! ## What is erased -/

section

variable (rb : RbLib) (q : α → Bool) (free : α → σ → σ) {all : List α} (hall : all.Nodup)
  {w : ErasingWalk α σ}

include hall

/-- A round erases its node if this satisfies the test, and nothing else. -/
theorem mem_step_iff (h : Sound all w) {a : α} :
    a ∈ (step rb q free w).tree.toList ↔
      a ∈ w.tree.toList ∧ ¬(w.node = some a ∧ q a = true) := by
  rcases step_cases rb q free hall h with ⟨hnone, heq⟩ | ⟨x, p, b, c, l, r, e, hx, hbelow, hcase⟩
  · rw [heq, hnone]
    simp
  · have hnd : w.tree.toList.Nodup := h.sublist.nodup hall
    rcases hcase with ⟨hq, heq⟩ | ⟨hq, -, heq⟩
    · rw [heq, hx]
      refine ⟨fun ha => ⟨ha, ?_⟩, And.left⟩
      rintro ⟨hxa, hqa⟩
      obtain rfl := Option.some.inj hxa
      exact absurd (hq.symm.trans hqa) nofun
    · rw [heq, hx, rb.eraseNode_toList, hnd.mem_erase_iff]
      constructor
      · rintro ⟨hne, ha⟩
        exact ⟨ha, fun hxa => hne (Option.some.inj hxa.1).symm⟩
      · rintro ⟨ha, hnot⟩
        refine ⟨?_, ha⟩
        rintro rfl
        exact hnot ⟨rfl, hq⟩

/-- The nodes that do not satisfy the test stay, in their order. -/
theorem filter_step (h : Sound all w) :
    (step rb q free w).tree.toList.filter (fun a => !q a) =
      w.tree.toList.filter fun a => !q a := by
  rcases step_cases rb q free hall h with ⟨-, heq⟩ | ⟨x, p, b, c, l, r, e, -, hbelow, hcase⟩
  · rw [heq]
  · rcases hcase with ⟨-, heq⟩ | ⟨hq, hlist, heq⟩
    · rw [heq]
    · rw [heq, hlist, hbelow.toList_around]
      simp [hq]

end

/-! ## Nodes that are passed -/

/-- The walk stands at a node or before it. -/
def NotBehind (all : List α) (w : ErasingWalk α σ) (a : α) : Prop :=
  ∃ y, w.node = some y ∧ all.idxOf y ≤ all.idxOf a

/-- From one round to the next the walk goes past a node. -/
def Passes (all : List α) (w w' : ErasingWalk α σ) (a : α) : Prop :=
  a ∈ w.tree.toList ∧ (∃ x, w.node = some x ∧ all.idxOf x < all.idxOf a) ∧ ¬NotBehind all w' a

theorem start_notBehind (t : RbTree α) (acc : σ) {a : α} (ha : a ∈ t.toList) :
    NotBehind t.toList (start t acc) a := by
  obtain ⟨y, rest, heq⟩ := List.exists_cons_of_ne_nil (List.ne_nil_of_mem ha)
  refine ⟨y, ?_, ?_⟩
  · change t.first = some y
    rw [first_eq_head?, heq, List.head?_cons]
  · rw [heq, List.idxOf_cons_self]
    exact Nat.zero_le _

section

variable (rb : RbLib) (q : α → Bool) (free : α → σ → σ) {t : RbTree α} (ht : t.toList.Nodup)
  (acc : σ)

/-- The walk before a round. -/
def atRound (t : RbTree α) (acc : σ) (i : Nat) : ErasingWalk α σ :=
  (step rb q free)^[i] (start t acc)

theorem atRound_succ (i : Nat) :
    atRound rb q free t acc (i + 1) = step rb q free (atRound rb q free t acc i) :=
  iterate_succ_apply' ..

include ht

theorem atRound_sound (i : Nat) : Sound t.toList (atRound rb q free t acc i) :=
  iterate_sound rb q free ht (start_sound t acc) i

/-- What one round erases. -/
theorem mem_atRound_succ {a : α} {i : Nat} :
    a ∈ (atRound rb q free t acc (i + 1)).tree.toList ↔
      a ∈ (atRound rb q free t acc i).tree.toList ∧
        ¬((atRound rb q free t acc i).node = some a ∧ q a = true) := by
  rw [atRound_succ]
  exact mem_step_iff rb q free ht (atRound_sound rb q free ht acc i)

/-- A round that has a node is one of those of `run`. -/
theorem lt_of_atRound_node {x : α} {i : Nat} (hx : (atRound rb q free t acc i).node = some x) :
    i < (t.toList.length + 1) ^ 2 := by
  by_contra hlate
  have hnone := iterate_start_node rb q free ht acc (Nat.le_of_not_lt hlate)
  exact absurd (hnone.symm.trans hx) nofun

theorem filter_run :
    (run rb q free t acc).tree.toList.filter (fun a => !q a) = t.toList.filter fun a => !q a := by
  have hfilter : ∀ i, (atRound rb q free t acc i).tree.toList.filter (fun a => !q a) =
      t.toList.filter fun a => !q a := by
    intro i
    induction i with
    | zero => rfl
    | succ i ih =>
      rw [atRound_succ, filter_step rb q free ht (atRound_sound rb q free ht acc i), ih]
  exact hfilter _

/-- The walk erases what it should if nothing is left that satisfies the test. -/
theorem run_exact_iff_gone :
    (run rb q free t acc).tree.toList = t.toList.filter (fun a => !q a) ↔
      ∀ a, q a = true → a ∉ (run rb q free t acc).tree.toList := by
  constructor
  · intro h a hq ha
    rw [h, List.mem_filter, hq] at ha
    exact absurd ha.2 nofun
  · intro h
    rw [← filter_run rb q free ht acc]
    refine (List.filter_eq_self.mpr fun a ha => ?_).symm
    cases hq : q a with
    | false => rfl
    | true => exact absurd ha (h a hq)

/-- A node that disappears was the current one of a round. -/
theorem exists_round_of_erased {a : α} {i n : Nat} (hin : i ≤ n)
    (hi : a ∈ (atRound rb q free t acc i).tree.toList)
    (hn : a ∉ (atRound rb q free t acc n).tree.toList) :
    ∃ j, i ≤ j ∧ (atRound rb q free t acc j).node = some a := by
  induction n, hin using Nat.le_induction with
  | base => exact absurd hi hn
  | succ n hin ih =>
    by_cases ha : a ∈ (atRound rb q free t acc n).tree.toList
    · rw [mem_atRound_succ rb q free ht acc] at hn
      have herased := not_not.mp fun h => hn ⟨ha, h⟩
      exact ⟨n, hin, herased.1⟩
    · exact ih ha

/-- What a round erases does not come back. -/
theorem mem_of_mem_later {a : α} {i n : Nat} (hin : i ≤ n)
    (hn : a ∈ (atRound rb q free t acc n).tree.toList) :
    a ∈ (atRound rb q free t acc i).tree.toList := by
  induction n, hin using Nat.le_induction with
  | base => exact hn
  | succ n hin ih => exact ih ((mem_atRound_succ rb q free ht acc).mp hn).1

/-- A walk that leaves a node behind that it should erase has passed it, and does
not come back to it. -/
theorem exists_later_of_kept {a : α} (hq : q a = true)
    (hkept : a ∈ (run rb q free t acc).tree.toList)
    (hback : ∀ i, Passes t.toList (atRound rb q free t acc i) (atRound rb q free t acc (i + 1)) a →
      ∃ j, i < j ∧ NotBehind t.toList (atRound rb q free t acc j) a) {i : Nat}
    (hi : NotBehind t.toList (atRound rb q free t acc i) a) :
    ∃ j, i < j ∧ NotBehind t.toList (atRound rb q free t acc j) a := by
  by_cases hnext : NotBehind t.toList (atRound rb q free t acc (i + 1)) a
  · exact ⟨i + 1, Nat.lt_succ_self i, hnext⟩
  · obtain ⟨y, hy, hle⟩ := hi
    have hin := mem_of_mem_later rb q free ht acc (lt_of_atRound_node rb q free ht acc hy) hkept
    rw [mem_atRound_succ rb q free ht acc] at hin
    have hne : y ≠ a := fun heq => hin.2 ⟨heq ▸ hy, hq⟩
    have hsound := atRound_sound rb q free ht acc i
    have hlt : t.toList.idxOf y < t.toList.idxOf a := by
      refine Nat.lt_of_le_of_ne hle fun heq => hne ?_
      exact (List.idxOf_inj (hsound.sublist.subset (hsound.mem y hy))).mp heq
    exact hback i ⟨hin.1, ⟨y, hy, hlt⟩, hnext⟩

/-- For every tree and every library: the walk erases exactly the nodes that
satisfy the test if and only if, for each of them that a round passes, it is later
at this node or before it again. -/
theorem run_exact_iff :
    (run rb q free t acc).tree.toList = t.toList.filter (fun a => !q a) ↔
      ∀ i a, q a = true →
        Passes t.toList (atRound rb q free t acc i) (atRound rb q free t acc (i + 1)) a →
        ∃ j, i < j ∧ NotBehind t.toList (atRound rb q free t acc j) a := by
  rw [run_exact_iff_gone rb q free ht acc]
  constructor
  · rintro hgone i a hq ⟨ha, ⟨x, hx, hlt⟩, -⟩
    have hlast := Nat.le_of_lt (lt_of_atRound_node rb q free ht acc hx)
    obtain ⟨j, hij, hj⟩ := exists_round_of_erased rb q free ht acc hlast ha (hgone a hq)
    refine ⟨j, Nat.lt_of_le_of_ne hij ?_, a, hj, Nat.le_refl _⟩
    rintro rfl
    obtain rfl := Option.some.inj (hx.symm.trans hj)
    exact Nat.lt_irrefl _ hlt
  · intro hback a hq hkept
    -- the walk would never stop to be at the node or before it
    have hforever : ∀ n, ∃ j, n ≤ j ∧ NotBehind t.toList (atRound rb q free t acc j) a := by
      intro n
      induction n with
      | zero =>
        have hmem : a ∈ t.toList := mem_of_mem_later rb q free ht acc (Nat.zero_le _) hkept
        exact ⟨0, Nat.le_refl _, start_notBehind t acc hmem⟩
      | succ n ih =>
        obtain ⟨j, hnj, hj⟩ := ih
        obtain ⟨k, hjk, hk⟩ := exists_later_of_kept rb q free ht acc hq hkept
          (fun i => hback i a hq) hj
        exact ⟨k, Nat.lt_of_le_of_lt hnj hjk, hk⟩
    obtain ⟨j, hj, y, hy, -⟩ := hforever ((t.toList.length + 1) ^ 2)
    exact absurd (lt_of_atRound_node rb q free ht acc hy) (Nat.not_lt.mpr hj)

end

end ErasingWalk

end SearchTree
