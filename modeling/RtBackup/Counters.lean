import RtBackup.Integrity

/-!
# The item counters

`ulCounts` of a tree is meant to be the number of its entries, and
`GetMonitorSetEntry` answers `NULL` whenever the counter of the sets is 0. Adding
and deleting by set keep the counters; `LoadConfig` inserts without counting, and
`ConfigDelMonitorItem` removes without counting.

Results:
1. `opStep_counted`: a step that meets `KeepsCounts` keeps both counters.
2. `counters_track_trees`: a run from a file without set records, all of whose
   steps meet `KeepsCounts`, has right counters in every state, and there
   `GetMonitorSetEntry` is exact.
3. `loaded_set_not_counted`: after a load of one set the counter is 0 and
   `GetMonitorSetEntry` does not find it.
-/

namespace RtBackup

open ByteFile SearchTree Runs

/-! ## Definitions -/

/-- Both counters are the sizes of their trees. -/
structure Counted (d : Driver) : Prop where
  sets : d.monitorSet.ulCounts.toNat = d.sets.length
  files : d.monitorFiles.ulCounts.toNat = d.files.length

/-- A request to add has room below 2^32 entries, a request to delete items
names nothing that lies in or under a monitored name. -/
def KeepsCounts (d : Driver) : Op → Prop
  | .command (.addSet backupData) | .command (.addItem backupData) =>
    d.sets.length + 1 < 2 ^ 32 ∧ d.files.length + backupData.filterItems.length < 2 ^ 32
  | .command (.delItem backupData) => ∀ item ∈ backupData.filterItems, item.known →
      getMonitorFileEntryByabspath d item.wszFilterName.toCString = none
  | _ => True

instance (d : Driver) : ∀ op, Decidable (KeepsCounts d op)
  | .command (.addSet backupData) | .command (.addItem backupData) =>
    inferInstanceAs (Decidable (d.sets.length + 1 < 2 ^ 32 ∧
      d.files.length + backupData.filterItems.length < 2 ^ 32))
  | .command (.delItem backupData) =>
    inferInstanceAs (Decidable (∀ item ∈ backupData.filterItems, item.known →
      getMonitorFileEntryByabspath d item.wszFilterName.toCString = none))
  | .command (.delSet _) | .command .delAll | .command .queryRunningStatus
  | .command .queryLastShutdownStatus | .command .resetLastShutdownStatus | .command .other
  | .hook _ => inferInstanceAs (Decidable True)

/-! ## Adding -/

theorem toNat_succ {c : UInt32} {n : Nat} (h : c.toNat = n) (hlt : n + 1 < 2 ^ 32) :
    (c + 1).toNat = n + 1 := by
  subst h
  exact toNat_add_ofNat (n := 1) hlt

/-- `AddMonitorItem` leaves the items alone or adds and counts one. -/
theorem addMonitorItem_counts (env : Env) (mfe : FileRecord) {d : Driver} (hw : d.WF) :
    (addMonitorItem env mfe d).1.monitorFiles = d.monitorFiles ∨
    ((addMonitorItem env mfe d).1.monitorFiles.ulCounts = d.monitorFiles.ulCounts + 1 ∧
      (addMonitorItem env mfe d).1.files.length = d.files.length + 1) := by
  rcases addMonitorItem_cases env mfe d with
    ⟨-, -, h⟩ | ⟨-, -, root, hroot, h⟩ | ⟨-, n, status, -, -, h⟩
  · exact .inl (by rw [h])
  · rw [h]
    exact .inr ⟨rfl, (miInsert_added hw.files_sorted hroot).2.length_eq⟩
  · exact .inl (by rw [h])

theorem addMonitorItem_counted (env : Env) (mfe : FileRecord) {d : Driver} (hw : d.WF)
    (hc : Counted d) (hroom : d.files.length + 1 < 2 ^ 32) :
    Counted (addMonitorItem env mfe d).1 ∧
      (addMonitorItem env mfe d).1.files.length ≤ d.files.length + 1 := by
  have hsets : (addMonitorItem env mfe d).1.monitorSet.ulCounts.toNat =
      (addMonitorItem env mfe d).1.sets.length := by
    rw [Driver.sets, addMonitorItem_monitorSet]
    exact hc.sets
  rcases addMonitorItem_counts env mfe hw with h | ⟨hn, hlen⟩
  · refine ⟨⟨hsets, ?_⟩, ?_⟩
    · rw [Driver.files, h]
      exact hc.files
    · rw [Driver.files, h]
      exact Nat.le_succ _
  · refine ⟨⟨hsets, ?_⟩, hlen.le⟩
    rw [hn, hlen]
    exact toNat_succ hc.files hroom

theorem updSet_counted {d : Driver} (hc : Counted d) (addr : Nat)
    (f : MonitorSetEntry → MonitorSetEntry) : Counted (d.updSet addr f) where
  sets := by
    rw [sets_updSet, List.length_map]
    exact hc.sets
  files := hc.files

theorem updFile_counted {d : Driver} (hc : Counted d) (addr : Nat)
    (f : MonitorFileEntry → MonitorFileEntry) : Counted (d.updFile addr f) where
  sets := hc.sets
  files := by
    rw [files_updFile, List.length_map]
    exact hc.files

theorem addFilterItems_counted (env : Env) (guid : GUID) (pmse : Nat) (items : List FilterItem)
    (status : Int) {d : Driver} (hw : d.WF) (hset : ∃ s ∈ d.sets, s.guidSetId = guid)
    (hc : Counted d) (hroom : d.files.length + items.length < 2 ^ 32) :
    Counted (addFilterItems env guid pmse items status d).1 := by
  induction items generalizing status d with
  | nil => exact hc
  | cons item items ih =>
    rw [List.length_cons] at hroom
    unfold addFilterItems
    split
    · have hwadd := (addMonitorItem_changes env (requestedItem guid item) d hset).wf hw
      obtain ⟨hadd, hlen⟩ :=
        addMonitorItem_counted env (requestedItem guid item) hw hc (by omega)
      simp only
      split
      · exact hadd
      · refine ih _ (hwadd.updSet pmse (fun _ => rfl) (fun _ => rfl)) ?_
          (updSet_counted hadd pmse _) ?_
        · obtain ⟨s, hs, hg⟩ := hset
          rw [sets_updSet, Driver.sets, addMonitorItem_monitorSet]
          refine ⟨_, List.mem_map_of_mem hs, ?_⟩
          split
          · exact hg
          · exact hg
        · rw [files_updSet]
          omega
    · exact ih _ hw hset hc (by omega)

/-! ## Sets -/

theorem decrement_toNat (c : UInt32) : (decrement c).toNat = c.toNat - 1 := by
  unfold decrement
  split
  · next h =>
    have hpos : 1 ≤ c.toNat := UInt32.lt_iff_toNat_lt.mp h
    exact UInt32.toNat_sub_of_le c 1 (UInt32.le_iff_toNat_le.mpr hpos)
  · next h =>
    have hzero : ¬ 0 < c.toNat := fun hpos => h (UInt32.lt_iff_toNat_lt.mpr hpos)
    omega

theorem decrement_iterate_toNat (n : Nat) (c : UInt32) :
    (decrement^[n] c).toNat = c.toNat - n := by
  induction n generalizing c with
  | zero => rfl
  | succ n ih =>
    rw [Function.iterate_succ_apply, ih, decrement_toNat]
    omega

/-- Deleting by GUID counts down by what it removes. -/
theorem delMonitorItemsBySetId_counted {α : Type} [DecidableEq α] (rb : RbLib) (guidOf : α → GUID)
    {items : MonitorItemData α} (hnodup : items.entries.Nodup)
    (hc : items.ulCounts.toNat = items.entries.length) (guid : GUID) :
    (delMonitorItemsBySetId rb guidOf items guid).ulCounts.toNat =
      (delMonitorItemsBySetId rb guidOf items guid).entries.length := by
  have hle := (delMonitorItemsBySetId_sublist rb guidOf hnodup guid).length_le
  rw [delMonitorItemsBySetId_ulCounts rb guidOf hnodup, decrement_iterate_toNat, hc]
  omega

theorem delMonitorSet_counted (env : Env) (guid : GUID) {d : Driver} (hw : d.WF)
    (hc : Counted d) : Counted (delMonitorSet env guid d) where
  sets := delMonitorItemsBySetId_counted _ _ hw.sets_nodup hc.sets guid
  files := delMonitorItemsBySetId_counted _ _ hw.files_nodup hc.files guid

theorem newMonitorSet_counted (env : Env) (pSet : SetRecord) {d : Driver} (hw : d.WF)
    (hc : Counted d) (hroom : d.sets.length + 1 < 2 ^ 32) :
    Counted (newMonitorSet env pSet d).1 ∧
      (newMonitorSet env pSet d).1.monitorFiles = d.monitorFiles := by
  rcases newMonitorSet_cases env pSet d with ⟨-, -, root, hroot, h⟩ | ⟨-, status, -, -, h⟩
  · rw [h]
    refine ⟨⟨?_, hc.files⟩, rfl⟩
    rw [toNat_succ hc.sets hroom]
    exact (msInsert_added hw.sets_sorted hroot).2.length_eq.symm
  · rw [h]
    exact ⟨⟨hc.sets, hc.files⟩, rfl⟩

theorem addMonitorSet_counted (env : Env) (pSet : SetRecord) (bDelExist : Bool) {d : Driver}
    (hw : d.WF) (hc : Counted d) (hroom : d.sets.length + 1 < 2 ^ 32) :
    Counted (addMonitorSet env pSet bDelExist d).1 ∧
      (addMonitorSet env pSet bDelExist d).1.files.length ≤ d.files.length := by
  have hsub : (delMonitorSet env pSet.guidSetId d).sets.length ≤ d.sets.length ∧
      (delMonitorSet env pSet.guidSetId d).files.length ≤ d.files.length :=
    ⟨(sets_delMonitorSet_sublist hw env _).length_le,
      (files_delMonitorSet_sublist hw env _).length_le⟩
  unfold addMonitorSet
  split
  · split
    · obtain ⟨hnew, hfiles⟩ := newMonitorSet_counted env pSet (delMonitorSet_wf hw env pSet.guidSetId)
        (delMonitorSet_counted env pSet.guidSetId hw hc) (by omega)
      refine ⟨hnew, ?_⟩
      rw [Driver.files, hfiles]
      exact hsub.2
    · exact ⟨hc, Nat.le_refl _⟩
  · obtain ⟨hnew, hfiles⟩ := newMonitorSet_counted env pSet hw hc hroom
    refine ⟨hnew, ?_⟩
    rw [Driver.files, hfiles]
    exact Nat.le_refl _

theorem configAddMonitorSet_counted (env : Env) (backupData : RealtimeBackupData)
    (bDelExistSet : Bool) {d : Driver} (hw : d.WF) (hc : Counted d)
    (hsets : d.sets.length + 1 < 2 ^ 32)
    (hfiles : d.files.length + backupData.filterItems.length < 2 ^ 32) :
    Counted (configAddMonitorSet env backupData bDelExistSet d).1 := by
  unfold configAddMonitorSet
  have hwadd := (addMonitorSet_changes env
    ⟨backupData.guidSetId, backupData.wszBakCacheDir, 0, 0⟩ bDelExistSet d).wf hw
  obtain ⟨hadd, hlen⟩ := addMonitorSet_counted env
    ⟨backupData.guidSetId, backupData.wszBakCacheDir, 0, 0⟩ bDelExistSet hw hc hsets
  simp only
  split
  · exact hadd
  · split
    · exact hadd
    · next pmse hpmse =>
      have hitems := addFilterItems_counted env backupData.guidSetId pmse.addr
        backupData.filterItems (addMonitorSet env
          ⟨backupData.guidSetId, backupData.wszBakCacheDir, 0, 0⟩ bDelExistSet d).2 hwadd
        ⟨pmse, msSearch_sound hpmse⟩ hadd (by omega)
      split
      · next h =>
        rw [h] at hitems
        exact hitems
      · next h =>
        rw [h] at hitems
        exact ⟨hitems.sets, hitems.files⟩

/-! ## Deleting items -/

/-- Names that are not found are not removed. -/
theorem delFilterItems_eq_self (env : Env) (items : List FilterItem) {d : Driver}
    (h : ∀ item ∈ items, item.known →
      getMonitorFileEntryByabspath d item.wszFilterName.toCString = none) :
    delFilterItems env items d = d := by
  induction items with
  | nil => rfl
  | cons item items ih =>
    rw [List.forall_mem_cons] at h
    unfold delFilterItems
    split
    · next hk =>
      rcases miRemove_cases env.rb d.monitorFiles.rbTree item.wszFilterName.toCString with
        ⟨root, e, l, r, -, hfound, -⟩ | ⟨heq, -⟩
      · have hnone := h.1 hk
        rw [getMonitorFileEntryByabspath, hfound] at hnone
        simp at hnone
      · simp only [heq]
        exact ih h.2
    · exact ih h.2

/-! ## Hooks -/

theorem takeSeqNo_counted (env : Env) (ts : Timespec) (e : MonitorFileEntry) (pmse : Nat)
    {d : Driver} (hc : Counted d) : Counted (takeSeqNo env ts e pmse d).1 := by
  unfold takeSeqNo
  split
  · exact updSet_counted (updFile_counted hc _ _) _ _
  · exact updFile_counted hc _ _

theorem getSeqNo_counted (env : Env) (ts : Timespec) (e : MonitorFileEntry) {d : Driver}
    (hc : Counted d) : Counted (getMonitorFileSeqNoByMonitorFileEntry env ts e d).1 := by
  unfold getMonitorFileSeqNoByMonitorFileEntry
  split
  · exact takeSeqNo_counted env ts e _ hc
  · split
    · exact hc
    · exact takeSeqNo_counted env ts e _ (updFile_counted hc _ _)

theorem hookCall_counted (env : Env) (c : HookCall) {d : Driver} (hc : Counted d) :
    Counted (hookCall env c d) := by
  have henter : Counted (hookEnter env c.ts c.hook d).1 := by
    rcases hookEnter_cases env c.ts c.hook d with ⟨-, heq | heq⟩ | ⟨e, -, -, h1, -⟩
    · rw [heq]
      exact hc
    · rw [heq]
      exact hc
    · rw [h1]
      exact getSeqNo_counted env c.ts e hc
  obtain ⟨queue, flag, heq⟩ := hookExit_cases c.allocOk c.ret c.hook
    (hookEnter env c.ts c.hook d).2 (hookEnter env c.ts c.hook d).1
  rw [hookCall, heq]
  exact ⟨henter.sets, henter.files⟩

/-! ## Loading -/

/-- A loop that reads no record changes no tree. -/
theorem loadArea_of_no_record {α : Type} (env : Env) {c : Codec α} {off : Nat}
    (process : Nat → α → Driver → Driver) {n i : Nat} {d : Driver}
    (h : (readArea c d.cnf off n i).1 = []) :
    ∃ lost, (loadArea env c off process n i d).1 = d.lose lost := by
  cases n with
  | zero => exact ⟨0, rfl⟩
  | succ n =>
    rw [readArea] at h
    unfold loadArea
    cases hr : readRecord c d.cnf (off + i * c.size) with
    | some a => simp [hr] at h
    | none =>
      refine ⟨1, ?_⟩
      rcases entryAlloc_cases env d with ha | ha
      · simp only [ha, hr]
        rfl
      · simp only [ha]
        rfl

/-- The trees and the counters before a load. -/
def Untouched (d : Driver) : Prop :=
  d.monitorSet = ⟨0, .leaf⟩ ∧ d.monitorFiles = ⟨0, .leaf⟩

/-- Without sets no item is inserted. -/
theorem loadFile_untouched (env : Env) (addr : Nat) (r : FileRecord) (d : Driver)
    (h : Untouched d) : Untouched (loadFile env addr r d) := by
  unfold loadFile
  rw [h.1]
  exact h

/-- A file without set records loads nothing. -/
theorem initMonitorSet_untouched (env : Env) {cnf : Bytes} (nalloc : Nat)
    (h : (configRecords cnf).1 = []) : Untouched (initMonitorSet env cnf nalloc) := by
  have hstart : Untouched (emptyDriver cnf nalloc) := ⟨rfl, rfl⟩
  unfold initMonitorSet loadConfig
  cases hr : readRecord headerCodec cnf 0 with
  | none =>
    simp only [emptyDriver, hr]
    exact hstart
  | some cfh =>
    rw [configRecords_sets hr] at h
    obtain ⟨lost, hsets⟩ := loadArea_of_no_record env (loadSet env)
      (d := { emptyDriver cnf nalloc with dwLastNormalShutdown := cfh.ulLastShutdownStatus }) h
    simp only [emptyDriver, hr] at hsets ⊢
    split
    · next heq =>
      simp only [heq] at hsets
      subst hsets
      exact ⟨rfl, rfl⟩
    · next heq =>
      simp only [heq] at hsets
      subst hsets
      exact (loadArea_invariant (loadFile_cnf env) _ _ (fun addr r _ => loadFile_untouched env addr r)
        (fun _ hd => hd) rfl ⟨rfl, rfl⟩).1

/-! ## Runs -/

theorem opStep_counted (env : Env) (d : Driver) (op : Op) (hw : d.WF) (hc : Counted d)
    (hok : KeepsCounts d op) : Counted (opStep env d op) := by
  cases op with
  | hook c => exact hookCall_counted env c hc
  | command c =>
    cases c with
    | addSet backupData => exact configAddMonitorSet_counted env backupData true hw hc hok.1 hok.2
    | addItem backupData => exact configAddMonitorSet_counted env backupData false hw hc hok.1 hok.2
    | delSet backupData =>
      have hdel := delMonitorSet_counted env backupData.guidSetId hw hc
      exact ⟨hdel.sets, hdel.files⟩
    | delItem backupData =>
      have hself := delFilterItems_eq_self env backupData.filterItems hok
      show Counted (saveConfig (delFilterItems env backupData.filterItems d))
      rw [hself]
      exact ⟨hc.sets, hc.files⟩
    | delAll => exact ⟨rfl, rfl⟩
    | queryRunningStatus => exact hc
    | queryLastShutdownStatus => exact ⟨hc.sets, hc.files⟩
    | resetLastShutdownStatus => exact ⟨hc.sets, hc.files⟩
    | other => exact hc

/-- With right counters `GetMonitorSetEntry` finds exactly the sets in the tree. -/
theorem getMonitorSetEntry_exact {d : Driver} (hw : d.WF) (hc : Counted d) (guid : GUID)
    (s : MonitorSetEntry) :
    getMonitorSetEntry d guid = some s ↔ s ∈ d.sets ∧ s.guidSetId = guid := by
  refine ⟨getMonitorSetEntry_sound, fun ⟨hs, hg⟩ => ?_⟩
  have hpos : 0 < d.monitorSet.ulCounts := by
    have hlen : 0 < d.sets.length := List.length_pos_of_mem hs
    exact UInt32.lt_iff_toNat_lt.mpr (hc.sets ▸ hlen)
  rw [getMonitorSetEntry, if_pos hpos]
  exact (msSearch_eq_some_iff hw.sets_sorted).mpr ⟨hs, hg⟩

/-- In every run that starts from a file without set records and all of whose
steps meet `KeepsCounts`, both counters are the sizes of their trees, and
`GetMonitorSetEntry` finds exactly the sets in the tree. -/
theorem counters_track_trees (env : Env) (cnf : Bytes) (nalloc : Nat) (ops : List Op)
    (hload : (configRecords cnf).1 = [])
    (h : Along (opStep env) KeepsCounts (initMonitorSet env cnf nalloc) ops) :
    ∀ d ∈ states (opStep env) (initMonitorSet env cnf nalloc) ops,
      d.monitorSet.ulCounts.toNat = d.sets.length ∧
      d.monitorFiles.ulCounts.toNat = d.files.length ∧
      ∀ guid s, getMonitorSetEntry d guid = some s ↔ s ∈ d.sets ∧ s.guidSetId = guid := by
  intro d hd
  have hstart : Counted (initMonitorSet env cnf nalloc) := by
    obtain ⟨hs, hf⟩ := initMonitorSet_untouched env nalloc hload
    constructor
    · rw [Driver.sets, hs]
      rfl
    · rw [Driver.files, hf]
      rfl
  obtain ⟨hw, hc⟩ := invariant_along (I := fun d => d.WF ∧ Counted d)
    (fun d op hd hok => ⟨opStep_wf env d op hd.1, opStep_counted env d op hd.1 hd.2 hok⟩)
    ⟨initMonitorSet_wf env cnf nalloc, hstart⟩ h d hd
  exact ⟨hc.sets, hc.files, getMonitorSetEntry_exact hw hc⟩

/-! ## Concrete runs -/

theorem counters_track_trees_one_set :
    let d := run (opStep quietKernel) (initMonitorSet quietKernel [] 0)
      [.command (.addSet oneItemRequest)]
    d.monitorSet.ulCounts.toNat = d.sets.length ∧
    d.monitorFiles.ulCounts.toNat = d.files.length ∧
    ∀ guid s, getMonitorSetEntry d guid = some s ↔ s ∈ d.sets ∧ s.guidSetId = guid :=
  counters_track_trees quietKernel [] 0 _ (by decide) (by decide +kernel) _ (run_mem_states _ _)

/-- The file that an ADDSET leaves is loaded with a set that is not counted, and
a DELITEM takes an item out that stays counted. -/
theorem loaded_set_not_counted :
    let added := (processNetlinkCmd quietKernel (initMonitorSet quietKernel [] 0)
      (.addSet oneItemRequest)).1
    let loaded := initMonitorSet quietKernel added.cnf added.nalloc
    let deleted := (processNetlinkCmd quietKernel added (.delItem oneItemRequest)).1
    (loaded.sets.length = 1 ∧ loaded.monitorSet.ulCounts = 0 ∧
      getMonitorSetEntry loaded oneItemRequest.guidSetId = none) ∧
    (deleted.files.length = 0 ∧ deleted.monitorFiles.ulCounts = 1) := by
  decide +kernel

end RtBackup
