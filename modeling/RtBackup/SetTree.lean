import RtBackup.Rb
import RtBackup.Lib.KeyedMap

/-!
# The tree of sets over histories (`rb.c`)

`ms_search` and `ms_insert` walk by the same comparison of 16 bytes and turn the same
way, and `ms_remove` erases what `ms_search` finds. The order of the GUIDs is an
invariant of all calls, whatever shape the library gives the tree, so that the tree is
a map from GUIDs to entries.

Results:
1. `msStep_sortedTable`: every call keeps the order, and the entries that the history
   holds.
2. `set_tree_is_map`: what the three functions answer after every history.
-/

namespace RtBackup

open ByteFile SearchTree KeyedMap Runs

/-! ## Histories -/

inductive MsCall where
  | insert (data : MonitorSetEntry)
  | remove (guid : GUID)
  | search (guid : GUID)

/-- The tree, and the insertions that were answered with 0 and the removals, in their
order. -/
structure SetHistory where
  root : RbTree MonitorSetEntry := .leaf
  events : List (Event GUID MonitorSetEntry) := []

/-- A call, with what the library does to the tree in it. -/
def msStep (s : SetHistory) : RbLib × MsCall → SetHistory
  | (rb, .insert data) =>
    let (root, ret) := msInsert rb s.root data
    ⟨root, if ret = 0 then s.events ++ [.put data] else s.events⟩
  | (rb, .remove guid) => ⟨(msRemove rb s.root guid).1, s.events ++ [.drop guid]⟩
  | (_, .search _) => s

/-- The entry of a GUID that was inserted last and not removed since. -/
def SetHistory.lastInserted (s : SetHistory) (guid : GUID) : Option MonitorSetEntry :=
  held (·.guidSetId) s.events guid

/-- The tree is sorted, and has the entries that the history holds. -/
def SortedTable (s : SetHistory) : Prop :=
  s.root.toList.Pairwise SetLt ∧ Table (fun t : MonitorSetEntry => t.guidSetId) s.root.toList s.events

/-! ## What a call does -/

section

variable {s : SetHistory}

/-- A sorted tree is searched for what the history holds. -/
theorem SortedTable.msSearch_eq (h : SortedTable s) (guid : GUID) :
    msSearch s.root guid = s.lastInserted guid := by
  cases hheld : s.lastInserted guid with
  | none =>
    rw [msSearch_eq_none_iff h.1]
    exact h.2.held_eq_none.mp hheld
  | some t =>
    have hkey := key_of_held hheld
    subst hkey
    exact (msSearch_eq_some_iff h.1).mpr ⟨(h.2 t).mpr hheld, rfl⟩

theorem SetLt.guid_ne {t u : MonitorSetEntry} (h : SetLt t u) : t.guidSetId ≠ u.guidSetId :=
  fun heq => h.ne (congrArg GUID.image heq)

/-- `ms_remove` takes out the entry with the GUID, and nothing else. -/
theorem msRemove_toList (rb : RbLib) {root : RbTree MonitorSetEntry}
    (hs : root.toList.Pairwise SetLt) (guid : GUID) :
    (msRemove rb root guid).1.toList = root.toList.filter (·.guidSetId ≠ guid) := by
  rcases msRemove_cases rb root guid with ⟨root', t, l, r, heq, hfound, hl, hr⟩ | ⟨heq, hnone⟩
  · obtain rfl : t.guidSetId = guid := (msSearch_sound hfound).2
    rw [hl] at hs
    obtain ⟨-, hright, hcross⟩ := List.pairwise_append.mp hs
    have hleft : l.filter (·.guidSetId ≠ t.guidSetId) = l := List.filter_eq_self.mpr fun u hu =>
      decide_eq_true (hcross u hu t List.mem_cons_self).guid_ne
    have hright' : r.filter (·.guidSetId ≠ t.guidSetId) = r := List.filter_eq_self.mpr fun u hu =>
      decide_eq_true ((List.pairwise_cons.mp hright).1 u hu).guid_ne.symm
    have hself : (t :: r).filter (·.guidSetId ≠ t.guidSetId) = r :=
      (List.filter_cons_of_neg (by simp)).trans hright'
    rw [heq, hl, List.filter_append, hleft, hself]
    exact hr
  · rw [heq, List.filter_eq_self.mpr]
    intro t ht
    exact decide_eq_true ((msSearch_eq_none_iff hs).mp hnone t ht)

/-- The step lemma. -/
theorem msStep_sortedTable (s : SetHistory) (call : RbLib × MsCall) (h : SortedTable s) :
    SortedTable (msStep s call) := by
  obtain ⟨rb, call⟩ := call
  cases call with
  | insert data =>
    rcases msInsert_cases rb s.root data h.1 with ⟨root', heq, hnone, hs, hperm⟩ | ⟨heq, -⟩
    · rw [msStep, heq]
      rw [h.msSearch_eq] at hnone
      exact ⟨hs, h.2.put hnone fun t => hperm.mem_iff.trans List.mem_cons⟩
    · rw [msStep, heq]
      exact h
  | remove guid =>
    have hl := msRemove_toList rb h.1 guid
    refine ⟨?_, h.2.drop fun t => ?_⟩
    · rw [msStep, hl]
      exact h.1.filter _
    · rw [msStep, hl, List.mem_filter, decide_eq_true_iff]
  | search guid => exact h

end

/-- After every history: the search answers with the entry of the GUID that was inserted
last and not removed since; an insertion is refused with -1, and changes nothing, exactly
if there is one; a removal answers with it, and takes out it only. -/
theorem set_tree_is_map (calls : List (RbLib × MsCall)) :
    let s := run msStep {} calls
    (∀ guid, msSearch s.root guid = s.lastInserted guid) ∧
    (∀ rb data,
      ((∃ t, s.lastInserted data.guidSetId = some t) → msInsert rb s.root data = (s.root, -1)) ∧
      (s.lastInserted data.guidSetId = none →
        ∃ root', msInsert rb s.root data = (root', 0) ∧
          root'.toList.Perm (data :: s.root.toList))) ∧
    ∀ rb guid, (msRemove rb s.root guid).2 = s.lastInserted guid ∧
      (msRemove rb s.root guid).1.toList = s.root.toList.filter (·.guidSetId ≠ guid) := by
  intro s
  have hstart : SortedTable {} := ⟨List.Pairwise.nil, Table.empty⟩
  have h : SortedTable s :=
    invariant msStep_sortedTable hstart calls s (run_mem_states _ _)
  refine ⟨h.msSearch_eq, fun rb data => ?_, fun rb guid => ⟨?_, msRemove_toList rb h.1 guid⟩⟩
  · rw [← h.msSearch_eq]
    rcases msInsert_cases rb s.root data h.1 with ⟨root', heq, hnone, -, hperm⟩ | ⟨heq, t, ht⟩
    · refine ⟨?_, fun _ => ⟨root', heq, hperm⟩⟩
      rintro ⟨t, ht⟩
      cases hnone.symm.trans ht
    · refine ⟨fun _ => heq, fun hnone => ?_⟩
      cases hnone.symm.trans ht
  · rw [← h.msSearch_eq]
    rcases msRemove_cases rb s.root guid with ⟨root', t, l, r, heq, hfound, -⟩ | ⟨heq, hnone⟩
    · rw [heq, hfound]
    · rw [heq, hnone]

end RtBackup
