import RtBackup.Threads

/-!
# Renames and the sets they concern (`hookvfs.c`)

A rename concerns every set with an item at the old path, at the new path, or at
a path that the old one leads to. `rtb_vfs_rename` looks up the new path and, if
nothing is found there, the old one. It logs for the set of the one entry that
it finds: a move from one set to another is reported to the second one only, and
a directory above the items is not looked for.

Results:
1. `renameLogged_iff`: for which sets the hook logs a rename.
2. `rename_covers_iff`: when these are all the sets concerned.
3. `move_reported_once`: a move from one set to another.
-/

namespace RtBackup

open ByteFile SearchTree Runs

/-! ## Definitions -/

/-- The item is monitored at the old path, at the new path, or at a path below
the old one. -/
def Touches (oldabspath newabspath : CString) (below : Set CString) (e : MonitorFileEntry) : Prop :=
  e.wcsMonitorFile.bytes <+: oldabspath.bytes ∨ e.wcsMonitorFile.bytes <+: newabspath.bytes ∨
    ∃ p ∈ below, e.wcsMonitorFile.bytes <+: p.bytes

/-- The set has an item that the rename touches. -/
def Concerned (d : Driver) (oldabspath newabspath : CString) (below : Set CString)
    (s : MonitorSetEntry) : Prop :=
  ∃ e ∈ d.files, e.guidSetId = s.guidSetId ∧ Touches oldabspath newabspath below e

/-- A rename that succeeds, and the record of it can be allocated. -/
def renameCall (ts : Timespec) (oldabspath newabspath : CString) : HookCall where
  hook := rtbVfsRename oldabspath newabspath
  ts := ts
  ret := 0
  allocOk := true

/-- Of the records that the rename appends one is in the numbering of the set, whose
counter goes up by one. -/
def RenameLogged (env : Env) (ts : Timespec) (oldabspath newabspath : CString) (d : Driver)
    (s : MonitorSetEntry) : Prop :=
  s.next ∈ (hookCall env (renameCall ts oldabspath newabspath) d).sets ∧
  ∃ before ullSeqNo time after,
    (hookCall env (renameCall ts oldabspath newabspath) d).iowritequeue = d.iowritequeue ++
      (before ++ createiologforrename ⟨ullSeqNo, s.ullSetSeqNo, time, s.wcsSetCacheDir.toCString⟩
        oldabspath newabspath :: after)

/-- The two searches of `rtb_vfs_rename`. -/
def renameEntry (d : Driver) (oldabspath newabspath : CString) : Option MonitorFileEntry :=
  (getMonitorFileEntryByabspath d newabspath).or (getMonitorFileEntryByabspath d oldabspath)

/-- The searches end on an item for which a number is taken from the set. -/
def Selected (env : Env) (d : Driver) (oldabspath newabspath : CString) (s : MonitorSetEntry) :
    Prop :=
  ∃ e ∈ renameEntry d oldabspath newabspath, numberedSet env d e = some s

instance (env : Env) (d : Driver) (oldabspath newabspath : CString) (s : MonitorSetEntry) :
    Decidable (Selected env d oldabspath newabspath s) :=
  inferInstanceAs (Decidable (∃ e ∈ renameEntry d oldabspath newabspath, _))

/-! ## The set that is logged for -/

theorem hookTarget_rename {d : Driver} (hon : d.enabled = true) (ts : Timespec)
    (oldabspath newabspath : CString) :
    hookTarget d (renameCall ts oldabspath newabspath).hook =
      renameEntry d oldabspath newabspath := by
  have hoff : ¬(d.enabled = false ∨ (renameCall ts oldabspath newabspath).hook.bypass = true) := by
    simp [hon, renameCall, rtbVfsRename]
  rw [hookTarget, if_neg hoff]
  simp only [hookLookup, renameCall, rtbVfsRename, List.findSome?_cons, List.findSome?_nil,
    renameEntry]
  cases getMonitorFileEntryByabspath d newabspath <;>
    cases getMonitorFileEntryByabspath d oldabspath <;> rfl

theorem renameLogged_iff (env : Env) (ts : Timespec) {d : Driver} (hw : d.WF)
    (hon : d.enabled = true) (oldabspath newabspath : CString) {s : MonitorSetEntry}
    (hs : s ∈ d.sets) :
    RenameLogged env ts oldabspath newabspath d s ↔ Selected env d oldabspath newabspath s := by
  have htarget := hookTarget_rename hon ts oldabspath newabspath
  -- a set that was not counted up is not the next one of itself
  have hcounted : s.next ∉ d.sets := fun hmem =>
    next_ne_self s (guid_unique hw.sets_sorted hmem hs rfl)
  unfold Selected
  cases he : renameEntry d oldabspath newabspath with
  | none =>
    refine iff_of_false (fun ⟨hnext, _⟩ => hcounted ?_) (fun ⟨e, hsome, _⟩ => absurd hsome nofun)
    obtain ⟨flag, hcall⟩ := hookCall_of_no_target env (htarget.trans he)
    rw [hcall] at hnext
    exact hnext
  | some e =>
    rcases hookCall_cases env hw (htarget.trans he) rfl with
      ⟨hnone, hsame, -⟩ | ⟨t, ht, hset, hqueue, hsets, -⟩
    · refine iff_of_false (fun ⟨hnext, _⟩ => hcounted (hsame ▸ hnext)) ?_
      rintro ⟨f, hsome, hset⟩
      obtain rfl := Option.some.inj hsome
      exact absurd (hnone.symm.trans hset) nofun
    · constructor
      · rintro ⟨hnext, -⟩
        rw [hsets] at hnext
        obtain ⟨u, hu, heq⟩ := List.mem_map.mp hnext
        by_cases hut : u = t
        · rw [if_pos hut] at heq
          have htg : t.guidSetId = s.guidSetId := congrArg (·.guidSetId) heq
          exact ⟨e, rfl, guid_unique hw.sets_sorted ht hs htg ▸ hset⟩
        · rw [if_neg hut] at heq
          exact absurd (heq ▸ hu) hcounted
      · rintro ⟨f, hsome, hset'⟩
        obtain rfl := Option.some.inj hsome
        obtain rfl : t = s := Option.some.inj (hset.symm.trans hset')
        refine ⟨?_, [], _, _, [], hqueue⟩
        rw [hsets]
        exact List.mem_map.mpr ⟨t, ht, if_pos rfl⟩

/-- In every reachable state and for every rename while the driver is enabled:
each set concerned has its record exactly if a number is taken from each of them for
the entry that the two searches end on. -/
theorem rename_covers_iff (env : Env) (cnf : Bytes) (nalloc : Nat) (events : List Event) (s : Sys)
    (hs : s ∈ states (sysStep env) (Sys.start env cnf nalloc) events)
    (hon : s.driver.enabled = true) (ts : Timespec) (oldabspath newabspath : CString)
    (below : Set CString) :
    (∀ p ∈ s.driver.sets, Concerned s.driver oldabspath newabspath below p →
      RenameLogged env ts oldabspath newabspath s.driver p) ↔
    ∀ p ∈ s.driver.sets, Concerned s.driver oldabspath newabspath below p →
      Selected env s.driver oldabspath newabspath p := by
  have hw := (invariant (fun s ev => sysStep_sound env s ev) (start_sound env cnf nalloc)
    events s hs).wf
  exact forall_congr' fun p => forall_congr' fun hp => imp_congr_right fun _ =>
    renameLogged_iff env ts hw hon oldabspath newabspath hp

/-! ## A move from one set to another -/

/-- The set of another GUID with the item `/c`. -/
def setOfC : RealtimeBackupData :=
  { otherRequest with filterItems := [⟨filterTypeDir, nameC⟩] }

/-- `/c/a`. -/
def pathCA : CString := ⟨[47, 99, 47, 97], by decide⟩

def twoSets : Sys :=
  run (sysStep quietKernel) (Sys.start quietKernel [] 0)
    [.command (.addSet oneItemRequest), .command (.addSet setOfC)]

/-- A move below `/a`, which concerns the set of `/a` only. -/
theorem rename_covers_iff_two_sets :
    ∃ p ∈ twoSets.driver.sets, Concerned twoSets.driver pathAC nameAB.toCString ∅ p ∧
      RenameLogged quietKernel ⟨0, 0⟩ pathAC nameAB.toCString twoSets.driver p := by
  have hselected : ∀ p ∈ twoSets.driver.sets, ∀ e ∈ twoSets.driver.files,
      e.guidSetId = p.guidSetId →
      e.wcsMonitorFile.bytes <+: pathAC.bytes ∨ e.wcsMonitorFile.bytes <+: nameAB.bytes →
      Selected quietKernel twoSets.driver pathAC nameAB.toCString p := by
    decide +kernel
  have hcovers := (rename_covers_iff quietKernel [] 0
    [.command (.addSet oneItemRequest), .command (.addSet setOfC)] twoSets (run_mem_states _ _)
    (by decide +kernel) ⟨0, 0⟩ pathAC nameAB.toCString ∅).mpr fun p hp ⟨e, he, hg, htouches⟩ =>
      hselected p hp e he hg (htouches.imp_right fun h =>
        h.resolve_right fun ⟨q, hq, _⟩ => Set.notMem_empty q hq)
  obtain ⟨p, hp, e, he, hg, hpre⟩ : ∃ p ∈ twoSets.driver.sets, ∃ e ∈ twoSets.driver.files,
      e.guidSetId = p.guidSetId ∧ e.wcsMonitorFile.bytes <+: pathAC.bytes := by
    decide +kernel
  have hconcerned : Concerned twoSets.driver pathAC nameAB.toCString ∅ p := ⟨e, he, hg, .inl hpre⟩
  exact ⟨p, hp, hconcerned, hcovers p hp hconcerned⟩

/-- `/a/c` is moved to `/c/a`: the set of `/a` has no record of it. -/
theorem move_reported_once :
    twoSets ∈ states (sysStep quietKernel) (Sys.start quietKernel [] 0)
      [.command (.addSet oneItemRequest), .command (.addSet setOfC)] ∧
    twoSets.driver.enabled = true ∧
    ∃ p ∈ twoSets.driver.sets, Concerned twoSets.driver pathAC pathCA ∅ p ∧
      ¬RenameLogged quietKernel ⟨0, 0⟩ pathAC pathCA twoSets.driver p := by
  have hmem : twoSets ∈ states (sysStep quietKernel) (Sys.start quietKernel [] 0)
      [.command (.addSet oneItemRequest), .command (.addSet setOfC)] := run_mem_states _ _
  have hon : twoSets.driver.enabled = true := by decide +kernel
  have hw := (invariant (fun s ev => sysStep_sound quietKernel s ev)
    (start_sound quietKernel [] 0) _ _ hmem).wf
  refine ⟨hmem, hon, ?_⟩
  obtain ⟨p, hp, e, he, hg, hpre⟩ : ∃ p ∈ twoSets.driver.sets, ∃ e ∈ twoSets.driver.files,
      e.guidSetId = p.guidSetId ∧ e.wcsMonitorFile.bytes <+: pathAC.bytes := by
    decide +kernel
  refine ⟨p, hp, ⟨e, he, hg, .inl hpre⟩, fun hlogged => ?_⟩
  have hselected := (renameLogged_iff quietKernel ⟨0, 0⟩ hw hon pathAC pathCA hp).mp hlogged
  have hother : ∀ p ∈ twoSets.driver.sets, ∀ e ∈ twoSets.driver.files,
      e.guidSetId = p.guidSetId → e.wcsMonitorFile.bytes <+: pathAC.bytes →
      ¬Selected quietKernel twoSets.driver pathAC pathCA p := by
    decide +kernel
  exact hother p hp e he hg hpre hselected

end RtBackup
