import RtBackup.Counters
import RtBackup.Lib.SkippedNode

/-!
# The loops that delete entries (`monitorset.c`)

`DelMonitorItemsBySetId` and `DelAllMonitorSet` go through a tree with `rb_first`
and `rb_next` and erase entries on the way. `rb_next` is then called on an entry
that was erased and freed, whose link words need not lead to its successor. The
nodes of a tree are different entries.

Results:
1. `delMonitorItemsBySetId_ends`: `DelMonitorItemsBySetId` ends on every tree.
2. `del_by_set_of_unskipped`: when it deletes what it should from a tree.
3. `del_by_set_iff`: the sequences of entries from which it deletes what it should,
   whatever the shape of the tree.
4. `del_all_empties`: `DelAllMonitorSet` deletes and frees every entry once.
-/

namespace RtBackup

open ByteFile SearchTree ErasingWalk

/-! ## The entries of a set -/

section

variable {α : Type} [DecidableEq α] (rb : RbLib) (guidOf : α → GUID)
  (pMonitorItems : MonitorItemData α) (guidSet : GUID)

/-- The loop of `DelMonitorItemsBySetId` before a round; the third component is
`ulCounts`. -/
def delRound (i : Nat) : ErasingWalk α UInt32 :=
  atRound rb (fun pmeh => guidOf pmeh = guidSet) (fun _ => decrement) pMonitorItems.rbTree
    pMonitorItems.ulCounts i

/-- The loop comes to its end, with what `DelMonitorItemsBySetId` leaves. -/
def DelEnds : Prop :=
  ∃ n, (delRound rb guidOf pMonitorItems guidSet n).node = none ∧
    delMonitorItemsBySetId rb guidOf pMonitorItems guidSet =
      ⟨(delRound rb guidOf pMonitorItems guidSet n).acc,
        (delRound rb guidOf pMonitorItems guidSet n).tree⟩

/-- Exactly the entries of other sets are left, and the others are counted down. -/
structure DeletesSet (after : MonitorItemData α) : Prop where
  entries : after.entries = pMonitorItems.entries.filter fun a => guidOf a ≠ guidSet
  ulCounts : after.ulCounts.toNat =
    pMonitorItems.ulCounts.toNat - (pMonitorItems.entries.length - after.entries.length)

variable {rb guidOf pMonitorItems guidSet} (hnodup : pMonitorItems.entries.Nodup)

include hnodup

theorem delMonitorItemsBySetId_ends : DelEnds rb guidOf pMonitorItems guidSet :=
  ⟨_, run_node rb _ _ hnodup _, rfl⟩

theorem deletesSet_iff :
    DeletesSet guidOf pMonitorItems guidSet
        (delMonitorItemsBySetId rb guidOf pMonitorItems guidSet) ↔
      (delMonitorItemsBySetId rb guidOf pMonitorItems guidSet).entries =
        pMonitorItems.entries.filter fun a => guidOf a ≠ guidSet := by
  refine ⟨DeletesSet.entries, fun h => ⟨h, ?_⟩⟩
  rw [delMonitorItemsBySetId_ulCounts rb guidOf hnodup, decrement_iterate_toNat]

variable (hrb : rb.SuccessorInPlace α)

include hrb

/-- On one tree: no round erases an entry of the set, with another entry before it,
when the next entry in order is of the set too. -/
theorem del_by_set_of_unskipped
    (h : ∀ i x d pre s rest, (delRound rb guidOf pMonitorItems guidSet i).node = some x →
      guidOf x = guidSet →
      (delRound rb guidOf pMonitorItems guidSet i).tree.toList = d :: pre ++ x :: s :: rest →
      guidOf s ≠ guidSet) :
    DeletesSet guidOf pMonitorItems guidSet
      (delMonitorItemsBySetId rb guidOf pMonitorItems guidSet) := by
  rw [deletesSet_iff hnodup]
  have hexact := run_exact_of_unskipped (fun pmeh => decide (guidOf pmeh = guidSet))
    (fun _ => decrement) hnodup pMonitorItems.ulCounts hrb fun i x d pre s rest hx hq htree =>
      decide_eq_false (h i x d pre s rest hx (of_decide_eq_true hq) htree)
  simp only [← decide_not] at hexact
  exact hexact

/-- On every tree of these entries: behind the first entry of another set no two
neighbours are of the set. -/
theorem del_by_set_of_scattered
    (h : Scattered (fun pmeh => guidOf pmeh = guidSet) pMonitorItems.entries) :
    DeletesSet guidOf pMonitorItems guidSet
      (delMonitorItemsBySetId rb guidOf pMonitorItems guidSet) := by
  rw [deletesSet_iff hnodup]
  have hexact := run_exact_of_scattered (fun pmeh => decide (guidOf pmeh = guidSet))
    (fun _ => decrement) hnodup pMonitorItems.ulCounts hrb h
  simp only [← decide_not] at hexact
  exact hexact

end

/-- For every sequence of entries and every GUID: `DelMonitorItemsBySetId` ends and
deletes exactly the entries of the set from every tree of these entries, with every
library that erases as assumed, if and only if behind the first entry of another set
no two neighbours in the sequence are of the set. -/
theorem del_by_set_iff {α : Type} [DecidableEq α] (guidOf : α → GUID) (guidSet : GUID)
    {entries : List α} (hnodup : entries.Nodup) :
    (∀ rb : RbLib, rb.SuccessorInPlace α → ∀ pMonitorItems : MonitorItemData α,
      pMonitorItems.entries = entries →
        DelEnds rb guidOf pMonitorItems guidSet ∧
        DeletesSet guidOf pMonitorItems guidSet
          (delMonitorItemsBySetId rb guidOf pMonitorItems guidSet)) ↔
      Scattered (fun pmeh => guidOf pmeh = guidSet) entries := by
  constructor
  · intro h
    by_contra hnot
    obtain ⟨root, rfl, hskips⟩ := exists_skipping (σ := UInt32) hnodup hnot
    have hdeletes := (h (.inPlace true) (inPlace_successorInPlace true) ⟨0, root⟩ rfl).2.entries
    refine hskips (fun _ => decrement) 0 ?_
    simp only [← decide_not]
    exact hdeletes
  · rintro h rb hrb pMonitorItems rfl
    exact ⟨delMonitorItemsBySetId_ends hnodup, del_by_set_of_scattered hnodup hrb h⟩

/-! ## A concrete tree -/

def itemAt (addr : Nat) (guidSet : GUID) (wcsMonitorFile : FieldPath) : MonitorFileEntry where
  guidSetId := guidSet
  bInited := 0
  bMonitor := 1
  ullSeqNo := 0
  bDirectory := 1
  ulLength := 2
  wcsMonitorFile := wcsMonitorFile
  addr := addr
  pSetEntry := none

def itemA : MonitorFileEntry := itemAt 1 guidZero nameA
def itemB : MonitorFileEntry := itemAt 0 guidOne nameB
def itemC : MonitorFileEntry := itemAt 3 guidOne nameC
def itemD : MonitorFileEntry := itemAt 2 guidZero ⟨⟨[47, 100], by decide⟩, by decide⟩

/-- `/b` with the children `/a` and `/d`, and `/c` to the left below `/d`. -/
def fourItems : MonitorItemData MonitorFileEntry where
  ulCounts := 4
  rbTree := .node .black (.node .black .leaf itemA .leaf) itemB
    (.node .black (.node .red .leaf itemC .leaf) itemD .leaf)

/-- The set of `/a` and `/d`, which are not side by side. -/
theorem del_by_set_iff_four_items :
    DelEnds (.inPlace true) (·.guidSetId) fourItems guidZero ∧
      DeletesSet (·.guidSetId) fourItems guidZero
        (delMonitorItemsBySetId (.inPlace true) (·.guidSetId) fourItems guidZero) :=
  (del_by_set_iff (·.guidSetId) guidZero (by decide +kernel : fourItems.entries.Nodup)).mpr
    (by decide +kernel) (.inPlace true) (inPlace_successorInPlace true) fourItems rfl

/-- `/c` takes the place of `/b`, whose link words stay, and the loop goes on below
`/d`. -/
theorem successor_of_same_set_stays :
    (RbLib.inPlace false).SuccessorInPlace MonitorFileEntry ∧
    (delMonitorItemsBySetId (.inPlace false) (·.guidSetId) fourItems guidOne).entries =
      [itemA, itemC, itemD] ∧
    ¬DeletesSet (·.guidSetId) fourItems guidOne
      (delMonitorItemsBySetId (.inPlace false) (·.guidSetId) fourItems guidOne) := by
  have hloop : (delMonitorItemsBySetId (.inPlace false) (·.guidSetId) fourItems guidOne).entries =
      [itemA, itemC, itemD] := by
    decide +kernel
  refine ⟨inPlace_successorInPlace false, hloop, fun h => ?_⟩
  have hentries := h.entries
  rw [hloop] at hentries
  exact absurd hentries (by decide +kernel)

/-! ## All entries -/

/-- A loop of `DelAllMonitorSet`, with the entries that `EntryFree` is given. -/
def freeAll {α : Type} [DecidableEq α] (rb : RbLib) (root : RbTree α) : ErasingWalk α (List α) :=
  run rb (fun _ => true) (fun pmeh freed => freed ++ [pmeh]) root []

/-- `DelAllMonitorSet`, the loops as they stand. -/
def delAllMonitorSetLoops (rb : RbLib) (d : Driver) : Driver :=
  { d with
    monitorFiles := ⟨0, (freeAll rb d.monitorFiles.rbTree).tree⟩
    monitorSet := ⟨0, (freeAll rb d.monitorSet.rbTree).tree⟩ }

theorem freeAll_eq {α : Type} [DecidableEq α] {rb : RbLib} (hrb : rb.ChildInPlace α)
    {root : RbTree α} (h : root.toList.Nodup) : freeAll rb root = ⟨.leaf, none, root.toList⟩ := by
  have hfreed : ∀ l freed : List α,
      l.foldl (fun freed pmeh => freed ++ [pmeh]) freed = freed ++ l := by
    intro l
    induction l with
    | nil => exact fun freed => (List.append_nil freed).symm
    | cons x l ih =>
      intro freed
      rw [List.foldl_cons, ih, List.append_assoc]
      rfl
  rw [freeAll, run_all hrb _ h, hfreed, List.nil_append]

/-- For every pair of trees: both loops end, every entry is freed once, and both
trees and both counters are empty. -/
theorem del_all_empties {rb : RbLib} (hfiles : rb.ChildInPlace MonitorFileEntry)
    (hsets : rb.ChildInPlace MonitorSetEntry) {d : Driver} (hf : d.files.Nodup)
    (hs : d.sets.Nodup) :
    (freeAll rb d.monitorFiles.rbTree).node = none ∧
      (freeAll rb d.monitorFiles.rbTree).acc = d.files ∧
    (freeAll rb d.monitorSet.rbTree).node = none ∧
      (freeAll rb d.monitorSet.rbTree).acc = d.sets ∧
    delAllMonitorSetLoops rb d = delAllMonitorSet d ∧
    (delAllMonitorSetLoops rb d).files = [] ∧ (delAllMonitorSetLoops rb d).sets = [] ∧
    (delAllMonitorSetLoops rb d).monitorFiles.ulCounts = 0 ∧
      (delAllMonitorSetLoops rb d).monitorSet.ulCounts = 0 := by
  have hfileLoop : freeAll rb d.monitorFiles.rbTree = ⟨.leaf, none, d.files⟩ :=
    freeAll_eq hfiles hf
  have hsetLoop : freeAll rb d.monitorSet.rbTree = ⟨.leaf, none, d.sets⟩ := freeAll_eq hsets hs
  have hboth : delAllMonitorSetLoops rb d = delAllMonitorSet d := by
    rw [delAllMonitorSetLoops, hfileLoop, hsetLoop]
    rfl
  rw [hfileLoop, hsetLoop, hboth]
  exact ⟨rfl, rfl, rfl, rfl, rfl, rfl, rfl, rfl, rfl⟩

/-- The sets of the four items. -/
def setsOfItems : MonitorItemData MonitorSetEntry where
  ulCounts := 2
  rbTree := .node .black .leaf ⟨⟨guidZero, ⟨⟨[47], by decide⟩, by decide⟩, 0, 2⟩, 4⟩
    (.node .red .leaf ⟨⟨guidOne, ⟨⟨[47], by decide⟩, by decide⟩, 0, 2⟩, 5⟩ .leaf)

def fourItemsDriver : Driver :=
  { emptyDriver [] 6 with monitorFiles := fourItems, monitorSet := setsOfItems }

theorem del_all_empties_four_items :
    (freeAll (.inPlace true) fourItems.rbTree).node = none ∧
      (freeAll (.inPlace true) fourItems.rbTree).acc = [itemA, itemB, itemC, itemD] ∧
    (freeAll (.inPlace true) setsOfItems.rbTree).node = none ∧
      (freeAll (.inPlace true) setsOfItems.rbTree).acc = setsOfItems.entries ∧
    delAllMonitorSetLoops (.inPlace true) fourItemsDriver = delAllMonitorSet fourItemsDriver ∧
    (delAllMonitorSetLoops (.inPlace true) fourItemsDriver).files = [] ∧
      (delAllMonitorSetLoops (.inPlace true) fourItemsDriver).sets = [] ∧
    (delAllMonitorSetLoops (.inPlace true) fourItemsDriver).monitorFiles.ulCounts = 0 ∧
      (delAllMonitorSetLoops (.inPlace true) fourItemsDriver).monitorSet.ulCounts = 0 :=
  del_all_empties (d := fourItemsDriver) (inPlace_successorInPlace true).toChildInPlace
    (inPlace_successorInPlace true).toChildInPlace (by decide +kernel) (by decide +kernel)

end RtBackup
