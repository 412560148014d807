import RtBackup.Rb

/-!
# Path lookup and nested names

A monitored path is found by a walk whose comparison looks at the bytes of the
name in the tree only. Two names of which one is a prefix of the other both
compare equal to the paths below the longer one, and the shorter one lies to
the left of the longer. A walk for a path that leaves the longer name to the
right then misses the shorter one.

Results:
1. `miSearch_exact`: without nested names the lookup finds exactly the paths
   that have a monitored name as a prefix, whatever the shape of the tree.
2. `miSearch_exact_of_inserts_unnested`: this holds throughout every run of
   insertions and removals in which no inserted name is a proper prefix of a
   name in the tree.
3. `miSearch_misses_outer_name`: inserting `/a` after `/a/b` hides `/a/c`.
-/

namespace RtBackup

open ByteFile SearchTree PrefixOrder Runs

/-! ## Definitions -/

/-- A call that changes the tree of names. -/
inductive MiCall where
  | insert (data : MonitorFileEntry)
  | remove (pathname : CString)

def miCall (rb : RbLib) (root : RbTree MonitorFileEntry) : MiCall → RbTree MonitorFileEntry
  | .insert data => (miInsert rb root data).1
  | .remove pathname => (miRemove rb root pathname).1

/-- No name is a proper prefix of another. -/
def Unnested (l : List MonitorFileEntry) : Prop :=
  ∀ a ∈ l, ∀ b ∈ l, a.wcsMonitorFile.bytes <+: b.wcsMonitorFile.bytes →
    a.wcsMonitorFile.bytes = b.wcsMonitorFile.bytes

/-- The inserted name is not a proper prefix of a name in the tree. -/
def InsertsUnnested (root : RbTree MonitorFileEntry) : MiCall → Prop
  | .insert data => ∀ e ∈ root.toList,
      data.wcsMonitorFile.bytes <+: e.wcsMonitorFile.bytes →
        data.wcsMonitorFile.bytes = e.wcsMonitorFile.bytes
  | .remove _ => True

instance (root : RbTree MonitorFileEntry) : ∀ c, Decidable (InsertsUnnested root c)
  | .insert data => inferInstanceAs (Decidable (∀ e ∈ root.toList,
      data.wcsMonitorFile.bytes <+: e.wcsMonitorFile.bytes →
        data.wcsMonitorFile.bytes = e.wcsMonitorFile.bytes))
  | .remove _ => inferInstanceAs (Decidable True)

/-! ## Lookup without nested names -/

theorem miCompare_monotone {l : List MonitorFileEntry} (hs : l.Pairwise FileLt)
    (hu : Unnested l) (p : CString) : RbTree.Monotone (miCompare p) l := by
  refine hs.imp_of_mem fun {a b} ha hb hab => ⟨fun hlt => ?_, fun hgt => ?_⟩
  · rw [miCompare_lt_iff] at hlt ⊢
    exact lt_trans hlt hab
  · rw [miCompare_gt_iff] at hgt ⊢
    refine ⟨lt_trans hab hgt.1, fun hap => ?_⟩
    -- `b` lies between `a` and a path below `a`, so `a` is a prefix of `b`
    have hpre := prefix_of_between hap hab.le hgt.1.le
    exact hab.ne (hu a ha b hb hpre)

/-- Lookup answers when a monitored name is a prefix of the path. -/
theorem miSearch_complete {root : RbTree MonitorFileEntry} (hs : root.toList.Pairwise FileLt)
    (hu : Unnested root.toList) {p : CString} {e : MonitorFileEntry} (he : e ∈ root.toList)
    (hp : e.wcsMonitorFile.bytes <+: p.bytes) : ∃ f, miSearch root p = some f :=
  RbTree.descend_complete (miCompare_monotone hs hu p) he (miCompare_eq_iff.mpr hp)

/-- Without nested names lookup is exact. -/
theorem miSearch_exact {root : RbTree MonitorFileEntry} (hs : root.toList.Pairwise FileLt)
    (hu : Unnested root.toList) (p : CString) :
    ((∃ e, miSearch root p = some e) ↔
      ∃ e ∈ root.toList, e.wcsMonitorFile.bytes <+: p.bytes) ∧
    ∀ e, miSearch root p = some e → e ∈ root.toList ∧ e.wcsMonitorFile.bytes <+: p.bytes := by
  refine ⟨⟨fun ⟨e, h⟩ => ⟨e, miSearch_sound h⟩, ?_⟩, fun e h => miSearch_sound h⟩
  rintro ⟨e, he, hp⟩
  exact miSearch_complete hs hu he hp

/-! ## Runs of insertions and removals -/

/-- The tree is sorted and no name is nested in another. -/
def SortedUnnested (root : RbTree MonitorFileEntry) : Prop :=
  root.toList.Pairwise FileLt ∧ Unnested root.toList

theorem Unnested.subset {l m : List MonitorFileEntry} (h : Unnested m) (hsub : l ⊆ m) :
    Unnested l :=
  fun a ha b hb => h a (hsub ha) b (hsub hb)

theorem Unnested.cons {l : List MonitorFileEntry} (h : Unnested l) {x : MonitorFileEntry}
    (hx : ∀ e ∈ l, x.wcsMonitorFile.bytes <+: e.wcsMonitorFile.bytes →
      x.wcsMonitorFile.bytes = e.wcsMonitorFile.bytes)
    (hn : ∀ e ∈ l, ¬ e.wcsMonitorFile.bytes <+: x.wcsMonitorFile.bytes) :
    Unnested (x :: l) := by
  intro a ha b hb hab
  rcases List.mem_cons.mp ha with rfl | ha' <;> rcases List.mem_cons.mp hb with rfl | hb'
  · rfl
  · exact hx b hb' hab
  · exact absurd hab (hn a ha')
  · exact h a ha' b hb' hab

theorem miCall_sortedUnnested (rb : RbLib) (root : RbTree MonitorFileEntry) (c : MiCall)
    (h : SortedUnnested root) (hok : InsertsUnnested root c) :
    SortedUnnested (miCall rb root c) := by
  obtain ⟨hs, hu⟩ := h
  cases c with
  | insert data =>
    rcases miInsert_cases rb root data hs with ⟨root', heq, hnone, hs', hperm⟩ | ⟨heq, -⟩
    · rw [miCall, heq]
      have hno : ∀ e ∈ root.toList,
          ¬ e.wcsMonitorFile.bytes <+: data.wcsMonitorFile.bytes := by
        intro e he hp
        obtain ⟨f, hf⟩ := miSearch_complete (p := data.wcsMonitorFile.toCString) hs hu he hp
        simp [hnone] at hf
      exact ⟨hs', (hu.cons hok hno).subset hperm.subset⟩
    · rw [miCall, heq]
      exact ⟨hs, hu⟩
  | remove p =>
    rcases miRemove_cases rb root p with ⟨root', e, l, r, heq, -, hl, hr⟩ | ⟨heq, -⟩
    · have hsub : root'.toList.Sublist root.toList := by
        rw [hl, hr]
        exact (List.sublist_cons_self e r).append_left l
      rw [miCall, heq]
      exact ⟨hs.sublist hsub, hu.subset hsub.subset⟩
    · rw [miCall, heq]
      exact ⟨hs, hu⟩

/-! ## Names for concrete runs -/

def guidZero : GUID := ⟨List.replicate 16 0, by decide⟩
def guidOne : GUID := ⟨List.replicate 16 1, by decide⟩

/-- An entry of the zero GUID with this name. -/
def namedEntry (name : FieldPath) : MonitorFileEntry where
  guidSetId := guidZero
  bInited := 0
  bMonitor := 1
  ullSeqNo := 0
  bDirectory := 1
  ulLength := 0
  wcsMonitorFile := name
  addr := 0
  pSetEntry := none

/-- `/a`. -/
def nameA : FieldPath := ⟨⟨[47, 97], by decide⟩, by decide⟩
/-- `/a/b`. -/
def nameAB : FieldPath := ⟨⟨[47, 97, 47, 98], by decide⟩, by decide⟩
/-- `/a/c`. -/
def pathAC : CString := ⟨[47, 97, 47, 99], by decide⟩
/-- `/b`. -/
def nameB : FieldPath := ⟨⟨[47, 98], by decide⟩, by decide⟩
/-- `/c`. -/
def nameC : FieldPath := ⟨⟨[47, 99], by decide⟩, by decide⟩

/-! ## Lookup along runs -/

/-- In every run in which no inserted name is a proper prefix of a name in the
tree, lookup is exact in every tree reached. -/
theorem miSearch_exact_of_inserts_unnested (rb : RbLib) (calls : List MiCall)
    (h : Along (miCall rb) InsertsUnnested .leaf calls) :
    ∀ root ∈ states (miCall rb) .leaf calls, ∀ p : CString,
      ((∃ e, miSearch root p = some e) ↔
        ∃ e ∈ root.toList, e.wcsMonitorFile.bytes <+: p.bytes) ∧
      ∀ e, miSearch root p = some e → e ∈ root.toList ∧ e.wcsMonitorFile.bytes <+: p.bytes := by
  intro root hroot p
  have hstart : SortedUnnested (.leaf : RbTree MonitorFileEntry) :=
    ⟨List.Pairwise.nil, fun a ha => absurd ha List.not_mem_nil⟩
  obtain ⟨hs, hu⟩ :=
    invariant_along (fun t c ht hc => miCall_sortedUnnested rb t c ht hc) hstart h root hroot
  exact miSearch_exact hs hu p

theorem miSearch_exact_of_two_names :
    let root := run (miCall RbLib.still) .leaf
      [.insert (namedEntry nameAB), .insert (namedEntry nameC), .remove pathAC]
    ((∃ e, miSearch root nameAB.toCString = some e) ↔
      ∃ e ∈ root.toList, e.wcsMonitorFile.bytes <+: nameAB.bytes) ∧
    ∀ e, miSearch root nameAB.toCString = some e →
      e ∈ root.toList ∧ e.wcsMonitorFile.bytes <+: nameAB.bytes :=
  miSearch_exact_of_inserts_unnested RbLib.still _ (by decide) _ (run_mem_states _ _)
    nameAB.toCString

/-- After `/a/b` the name `/a` is accepted, and then `/a/c` is not found. -/
theorem miSearch_misses_outer_name :
    let root := run (miCall RbLib.still) .leaf
      [.insert (namedEntry nameAB), .insert (namedEntry nameA)]
    namedEntry nameA ∈ root.toList ∧ nameA.bytes <+: pathAC.bytes ∧
      miSearch root pathAC = none := by
  decide

end RtBackup
