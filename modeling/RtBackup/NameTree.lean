import RtBackup.Change
import RtBackup.Lookup
import RtBackup.Lib.PrefixSearch

/-!
# The tree of names over histories (`rb.c`)

`mi_insert` walks by the same truncated comparison as `mi_search` and refuses a
name of which it meets a prefix. On the way it turns as the byte order does, so
that the tree stays sorted by whole names whatever is inserted, removed or
rotated. Where no name is nested in another, a search for a path also turns
towards its item at every node.

Results:
1. `prefix_search_exact`: search and insertion on names of which none is a prefix
   of another.
2. `name_tree_ordered`: sorted trees and refusals over every history.
-/

namespace RtBackup

open ByteFile SearchTree PrefixOrder Runs

/-! ## Histories -/

/-- What the library may do to the tree at any time. -/
structure Rotation where
  apply : RbTree MonitorFileEntry → RbTree MonitorFileEntry
  toList_apply : ∀ t, (apply t).toList = t.toList

/-- A call with the rebalancing that follows it, or rotations between calls. -/
inductive TreeEvent where
  | call (rb : RbLib) (c : MiCall)
  | rotate (r : Rotation)

def treeStep (root : RbTree MonitorFileEntry) : TreeEvent → RbTree MonitorFileEntry
  | .call rb c => miCall rb root c
  | .rotate r => r.apply root

theorem miCall_sorted (rb : RbLib) {root : RbTree MonitorFileEntry} (c : MiCall)
    (hs : root.toList.Pairwise FileLt) : (miCall rb root c).toList.Pairwise FileLt := by
  cases c with
  | insert data =>
    rcases miInsert_cases rb root data hs with ⟨root', heq, -, hs', -⟩ | ⟨heq, -⟩
    · rw [miCall, heq]
      exact hs'
    · rw [miCall, heq]
      exact hs
  | remove p =>
    rcases miRemove_cases rb root p with ⟨root', e, l, r, heq, -, hl, hr⟩ | ⟨heq, -⟩
    · rw [miCall, heq]
      rw [hl] at hs
      show root'.toList.Pairwise FileLt
      rw [hr]
      exact hs.sublist ((List.sublist_cons_self e r).append_left l)
    · rw [miCall, heq]
      exact hs

theorem treeStep_sorted (root : RbTree MonitorFileEntry) (ev : TreeEvent)
    (hs : root.toList.Pairwise FileLt) : (treeStep root ev).toList.Pairwise FileLt := by
  cases ev with
  | call rb c => exact miCall_sorted rb c hs
  | rotate r =>
    show (r.apply root).toList.Pairwise FileLt
    rw [r.toList_apply]
    exact hs

/-- After every history of insertions, removals and rotations the names are
strictly ascending, and a name is inserted exactly if the search for it finds
nothing; otherwise the tree stays as it is. -/
theorem name_tree_ordered (events : List TreeEvent) :
    let root := run treeStep .leaf events
    root.toList.Pairwise FileLt ∧ (root.toList.map (·.wcsMonitorFile.bytes)).Nodup ∧
    ∀ (rb : RbLib) (data : MonitorFileEntry),
      ((miInsert rb root data).2 = 0 ↔
        miSearch root data.wcsMonitorFile.toCString = none) ∧
      ((miInsert rb root data).2 ≠ 0 → (miInsert rb root data).1 = root) := by
  intro root
  have hs : root.toList.Pairwise FileLt :=
    invariant (I := fun t : RbTree MonitorFileEntry => t.toList.Pairwise FileLt) treeStep_sorted
      List.Pairwise.nil events root (run_mem_states _ _)
  refine ⟨hs, List.pairwise_map.mpr (hs.imp fun hlt => ne_of_lt hlt), fun rb data => ?_⟩
  rcases miInsert_answer rb root data with ⟨hnone, root', heq⟩ | ⟨⟨e, he⟩, heq⟩
  · rw [heq]
    exact ⟨iff_of_true rfl hnone, fun h => absurd rfl h⟩
  · rw [heq]
    refine ⟨iff_of_false (by decide : (-1 : Int) ≠ 0) fun hnone => ?_, fun _ => rfl⟩
    exact absurd (hnone.symm.trans he) nofun

/-! ## Names of which none is nested in another -/

/-- A name that is a prefix of the path is the only one. -/
theorem prefix_unique {root : RbTree MonitorFileEntry} (hs : root.toList.Pairwise FileLt)
    (hu : Unnested root.toList) {x : CString} {e f : MonitorFileEntry} (he : e ∈ root.toList)
    (hf : f ∈ root.toList) (hex : e.wcsMonitorFile.bytes <+: x.bytes)
    (hfx : f.wcsMonitorFile.bytes <+: x.bytes) : e = f := by
  have hnd : (root.toList.map (·.wcsMonitorFile.bytes)).Nodup :=
    List.pairwise_map.mpr (hs.imp fun hlt => ne_of_lt hlt)
  refine List.inj_on_of_nodup_map hnd he hf ?_
  rcases List.prefix_or_prefix_of_prefix hex hfx with h | h
  · exact hu e he f hf h
  · exact (hu f hf e he h).symm

/-- In a sorted tree of any shape without nested names, the search finds the one
entry whose name is a prefix of the string, and an insertion is refused exactly if
there is one. -/
theorem prefix_search_exact {root : RbTree MonitorFileEntry} (hs : root.toList.Pairwise FileLt)
    (hu : Unnested root.toList) :
    (∀ (x : CString) (e : MonitorFileEntry),
      miSearch root x = some e ↔ e ∈ root.toList ∧ e.wcsMonitorFile.bytes <+: x.bytes) ∧
    (∀ (x : CString) (e f : MonitorFileEntry), e ∈ root.toList → f ∈ root.toList →
      e.wcsMonitorFile.bytes <+: x.bytes → f.wcsMonitorFile.bytes <+: x.bytes → e = f) ∧
    ∀ (rb : RbLib) (data : MonitorFileEntry),
      ((∃ e ∈ root.toList, e.wcsMonitorFile.bytes <+: data.wcsMonitorFile.bytes) →
        miInsert rb root data = (root, -1)) ∧
      ((∀ e ∈ root.toList, ¬ e.wcsMonitorFile.bytes <+: data.wcsMonitorFile.bytes) →
        ∃ root', miInsert rb root data = (root', 0) ∧
          root'.toList.Perm (data :: root.toList) ∧ root'.toList.Pairwise FileLt) := by
  have hsearch : ∀ (x : CString) (e : MonitorFileEntry),
      miSearch root x = some e ↔ e ∈ root.toList ∧ e.wcsMonitorFile.bytes <+: x.bytes := by
    intro x e
    refine ⟨miSearch_sound, fun ⟨he, hpre⟩ => ?_⟩
    obtain ⟨f, hf⟩ := miSearch_complete hs hu he hpre
    obtain ⟨hmem, hfx⟩ := miSearch_sound hf
    rw [hf, prefix_unique hs hu hmem he hfx hpre]
  refine ⟨hsearch, fun x e f he hf => prefix_unique hs hu he hf, fun rb data => ?_⟩
  rcases miInsert_cases rb root data hs with ⟨root', heq, hnone, hs', hperm⟩ | ⟨heq, e, he⟩
  · refine ⟨fun ⟨e, he, hpre⟩ => ?_, fun _ => ⟨root', heq, hperm, hs'⟩⟩
    have hsome := (hsearch data.wcsMonitorFile.toCString e).mpr ⟨he, hpre⟩
    exact absurd (hnone.symm.trans hsome) nofun
  · refine ⟨fun _ => heq, fun hnone => ?_⟩
    obtain ⟨hmem, hpre⟩ := miSearch_sound he
    exact absurd hpre (hnone e hmem)

/-- `/a/b` and `/c`, with `/c` at the root. -/
def rootedAtC : RbTree MonitorFileEntry :=
  .node .black (.node .red .leaf (namedEntry nameAB) .leaf) (namedEntry nameC) .leaf

theorem prefix_search_exact_two_names :
    (∀ (x : CString) (e : MonitorFileEntry),
      miSearch rootedAtC x = some e ↔
        e ∈ rootedAtC.toList ∧ e.wcsMonitorFile.bytes <+: x.bytes) ∧
    (∀ (x : CString) (e f : MonitorFileEntry), e ∈ rootedAtC.toList → f ∈ rootedAtC.toList →
      e.wcsMonitorFile.bytes <+: x.bytes → f.wcsMonitorFile.bytes <+: x.bytes → e = f) ∧
    ∀ (rb : RbLib) (data : MonitorFileEntry),
      ((∃ e ∈ rootedAtC.toList, e.wcsMonitorFile.bytes <+: data.wcsMonitorFile.bytes) →
        miInsert rb rootedAtC data = (rootedAtC, -1)) ∧
      ((∀ e ∈ rootedAtC.toList, ¬ e.wcsMonitorFile.bytes <+: data.wcsMonitorFile.bytes) →
        ∃ root', miInsert rb rootedAtC data = (root', 0) ∧
          root'.toList.Perm (data :: rootedAtC.toList) ∧ root'.toList.Pairwise FileLt) :=
  prefix_search_exact
    (by
      have hlt : nameAB.bytes < nameC.bytes := by decide
      exact List.pairwise_pair.mpr hlt)
    (by unfold Unnested; decide)

end RtBackup
