import RtBackup.Refusals

/-!
# The configuration file after a command

A command that returns should leave the configuration in the file. The two
commands about the shutdown status never save, and a request that is refused
after it changed the trees returns before `SaveConfig`.

Results:
1. `onDisk_saveConfig`: what is saved is on disk.
2. `afterSet_length`, `run_itemStep_length`, `delFilterItems_length`: a command
   adds a set and the items it names at most.
3. `processNetlinkCmd_onDisk`: a command that saves, or that changes nothing when
   the file is up to date, leaves the configuration on disk.
4. `disk_follows_commands`: so do all commands of a run that are of this kind.
-/

namespace RtBackup

open ByteFile SearchTree Runs

/-! ## Definitions -/

/-- `/etc/rtb.cnf` holds the records and the shutdown status in memory. -/
def OnDisk (d : Driver) : Prop :=
  configRecords d.cnf = (d.setRecords, d.fileRecords) ∧
    configShutdownStatus d.cnf = some d.dwLastNormalShutdown

instance (d : Driver) : Decidable (OnDisk d) := inferInstanceAs (Decidable (_ ∧ _))

/-- A request gets to `SaveConfig`, and what it saves lies within 4 GiB. -/
def RequestSaves (env : Env) (backupData : RealtimeBackupData) (bDelExistSet : Bool)
    (d : Driver) : Prop :=
  SetAccepted env backupData.guidSetId bDelExistSet d ∧
    ItemsAccepted env backupData bDelExistSet d ∧
    24 + 312 * (d.sets.length + 1) + 332 * (d.files.length + backupData.filterItems.length) < 2 ^ 32

/-- The command gets to `SaveConfig`. -/
def CommandSaves (env : Env) (d : Driver) : Notification → Prop
  | .addSet backupData => RequestSaves env backupData true d
  | .addItem backupData => RequestSaves env backupData false d
  | .delSet _ | .delItem _ => ConfigFits d
  | .delAll => True
  | .queryRunningStatus | .queryLastShutdownStatus | .resetLastShutdownStatus | .other => False

/-- The command returns before `SaveConfig` and changes nothing. -/
def CommandLeaves (env : Env) (d : Driver) : Notification → Prop
  | .addSet backupData =>
    ¬ SetAccepted env backupData.guidSetId true d ∧
      getMonitorSetEntry d backupData.guidSetId = none
  | .addItem backupData =>
    (¬ SetAccepted env backupData.guidSetId false d ∧
      getMonitorSetEntry d backupData.guidSetId = none) ∨
    (∃ s, getMonitorSetEntry d backupData.guidSetId = some s) ∧
      ∃ item ∈ firstKnown backupData.filterItems, ¬ Admissible env d item.wszFilterName
  | .delSet _ | .delItem _ | .delAll => False
  | .queryRunningStatus | .other => True
  | .queryLastShutdownStatus | .resetLastShutdownStatus => d.dwLastNormalShutdown = systemrunning

/-- A command saves, or it has nothing to save. -/
def CommandSaved (env : Env) (s : Sys) : Event → Prop
  | .command c => CommandSaves env s.driver c ∨ OnDisk s.driver ∧ CommandLeaves env s.driver c
  | _ => True

/-! ## Sizes -/

theorem onDisk_saveConfig {d : Driver} (hfit : ConfigFits d) : OnDisk (saveConfig d) :=
  ⟨configRecords_saveConfig hfit, configShutdownStatus_saveConfig hfit⟩

theorem ConfigFits.of_le {d d' : Driver} (h : ConfigFits d) (hsets : d'.sets.length ≤ d.sets.length)
    (hfiles : d'.files.length ≤ d.files.length) : ConfigFits d' := by
  unfold ConfigFits at h ⊢
  omega

theorem delMonitorSet_length (env : Env) (guid : GUID) {d : Driver} (hw : d.WF) :
    (delMonitorSet env guid d).sets.length ≤ d.sets.length ∧
    (delMonitorSet env guid d).files.length ≤ d.files.length :=
  ⟨(sets_delMonitorSet_sublist hw env guid).length_le,
    (files_delMonitorSet_sublist hw env guid).length_le⟩

theorem withoutOldSet_length (env : Env) (guid : GUID) {d : Driver} (hw : d.WF) :
    (withoutOldSet env guid d).sets.length ≤ d.sets.length ∧
    (withoutOldSet env guid d).files.length ≤ d.files.length := by
  rcases withoutOldSet_cases env guid d with ⟨-, h⟩ | ⟨-, h⟩
  · rw [h]
    exact delMonitorSet_length env guid hw
  · rw [h]
    exact ⟨Nat.le_refl _, Nat.le_refl _⟩

/-- `AddMonitorSet` adds one set at most. -/
theorem afterSet_length (env : Env) (backupData : RealtimeBackupData) (bDelExistSet : Bool)
    {d : Driver} (hw : d.WF) :
    (afterSet env backupData bDelExistSet d).sets.length ≤ d.sets.length + 1 ∧
    (afterSet env backupData bDelExistSet d).files.length ≤ d.files.length := by
  obtain ⟨hsets, hfiles⟩ := withoutOldSet_length env backupData.guidSetId hw
  unfold afterSet
  rcases addMonitorSet_cases env backupData.requestedSet bDelExistSet hw with
    ⟨-, -, -, h⟩ | ⟨-, -, -, root, hroot, h⟩ | ⟨-, status, -, -, h⟩
  · rw [h]
    exact ⟨Nat.le_succ _, Nat.le_refl _⟩
  · rw [h]
    refine ⟨?_, hfiles⟩
    refine (msInsert_added (withoutOldSet_wf hw env backupData.guidSetId).sets_sorted
      hroot).2.length_eq.le.trans ?_
    rw [List.length_cons]
    exact Nat.succ_le_succ hsets
  · rw [h]
    exact ⟨hsets.trans (Nat.le_succ _), hfiles⟩

theorem itemStep_length (env : Env) (guid : GUID) (pmse : Nat) (item : FilterItem) {d : Driver}
    (hw : d.WF) : (itemStep env guid pmse d item).files.length ≤ d.files.length + 1 := by
  unfold itemStep
  split
  · rw [files_updSet]
    rcases addMonitorItem_cases env (requestedItem guid item) d with
      ⟨-, -, h⟩ | ⟨-, -, root, hroot, h⟩ | ⟨-, n, status, -, -, h⟩
    · rw [h]
      exact Nat.le_succ _
    · rw [h]
      exact (miInsert_added hw.files_sorted hroot).2.length_eq.le
    · rw [h]
      exact Nat.le_succ _
  · exact Nat.le_succ _

theorem run_itemStep_length (env : Env) (guid : GUID) (pmse : Nat) (items : List FilterItem)
    {d : Driver} (hw : d.WF) (hset : ∃ s ∈ d.sets, s.guidSetId = guid) :
    (run (itemStep env guid pmse) d items).sets.length = d.sets.length ∧
    (run (itemStep env guid pmse) d items).files.length ≤ d.files.length + items.length := by
  refine ⟨by rw [run_itemStep_sets, List.length_map], ?_⟩
  induction items generalizing d with
  | nil => exact Nat.le_refl _
  | cons item items ih =>
    have hrest := ih ((itemStep_changes env guid pmse item hset).wf hw) (itemStep_set pmse item hset)
    have hstep := itemStep_length env guid pmse item hw
    rw [List.length_cons]
    exact hrest.trans (by omega)

theorem delFilterItems_length (env : Env) (items : List FilterItem) (d : Driver) :
    (delFilterItems env items d).sets = d.sets ∧
    (delFilterItems env items d).files.length ≤ d.files.length := by
  induction items generalizing d with
  | nil => exact ⟨rfl, Nat.le_refl _⟩
  | cons item items ih =>
    unfold delFilterItems
    split
    · obtain ⟨hsets, hfiles⟩ := ih { d with
        monitorFiles.rbTree := (miRemove env.rb d.monitorFiles.rbTree
          item.wszFilterName.toCString).1 }
      refine ⟨hsets, hfiles.trans ?_⟩
      rcases miRemove_cases env.rb d.monitorFiles.rbTree item.wszFilterName.toCString with
        ⟨root, e, l, r, h, -, hl, hr⟩ | ⟨h, -⟩
      · rw [h]
        show root.toList.length ≤ d.monitorFiles.rbTree.toList.length
        rw [hl, hr]
        exact ((List.sublist_cons_self e r).append_left l).length_le
      · rw [h]
    · exact ih d

/-! ## Commands -/

theorem configAddMonitorSet_onDisk {env : Env} {backupData : RealtimeBackupData}
    {bDelExistSet : Bool} {d : Driver} (hw : d.WF)
    (h : RequestSaves env backupData bDelExistSet d) :
    OnDisk (configAddMonitorSet env backupData bDelExistSet d).1 := by
  obtain ⟨hset, hitems, hfit⟩ := h
  rcases configAddMonitorSet_cases env backupData bDelExistSet hw with
    ⟨-, -, pmse, hpmse, heq⟩ | ⟨-, hno, -⟩ | ⟨hno, -⟩
  · rw [heq]
    refine onDisk_saveConfig ?_
    obtain ⟨hsets, hfiles⟩ := afterSet_length env backupData bDelExistSet hw
    obtain ⟨hrsets, hrfiles⟩ := run_itemStep_length env backupData.guidSetId pmse.addr
      backupData.filterItems (afterSet_wf hw env backupData bDelExistSet)
      ⟨pmse, msSearch_sound hpmse⟩
    unfold ConfigFits
    omega
  · exact absurd hitems hno
  · exact absurd hset hno

/-- After a request that is refused in time the file needs no change. -/
theorem RefusedUnchanged.onDisk {env : Env} {backupData : RealtimeBackupData}
    {bDelExistSet : Bool} {d : Driver} (hw : d.WF)
    (h : RefusedUnchanged env backupData bDelExistSet d) (hdisk : OnDisk d) :
    OnDisk (configAddMonitorSet env backupData bDelExistSet d).1 := by
  obtain ⟨n, status, -, heq⟩ := h.answer hw
  rw [heq]
  exact hdisk

theorem processNetlinkCmd_onDisk {env : Env} {d : Driver} (hw : d.WF) {c : Notification}
    (h : CommandSaves env d c ∨ OnDisk d ∧ CommandLeaves env d c) :
    OnDisk (processNetlinkCmd env d c).1 := by
  cases c with
  | addSet backupData =>
    rcases h with hsaves | ⟨hdisk, hset, hnone⟩
    · exact configAddMonitorSet_onDisk hw hsaves
    · exact RefusedUnchanged.onDisk hw (.inl ⟨hset, hnone⟩) hdisk
  | addItem backupData =>
    rcases h with hsaves | ⟨hdisk, ⟨hset, hnone⟩ | ⟨⟨t, ht⟩, item, hi, hno⟩⟩
    · exact configAddMonitorSet_onDisk hw hsaves
    · exact RefusedUnchanged.onDisk hw (.inl ⟨hset, hnone⟩) hdisk
    · exact RefusedUnchanged.onDisk hw (.inr ⟨rfl, ⟨_, ht⟩, _, hi, hno⟩) hdisk
  | delSet backupData =>
    rcases h with hfit | ⟨-, hno⟩
    · obtain ⟨hsets, hfiles⟩ := delMonitorSet_length env backupData.guidSetId hw
      exact onDisk_saveConfig (ConfigFits.of_le hfit hsets hfiles)
    · exact absurd hno id
  | delItem backupData =>
    rcases h with hfit | ⟨-, hno⟩
    · obtain ⟨hsets, hfiles⟩ := delFilterItems_length env backupData.filterItems d
      exact onDisk_saveConfig (ConfigFits.of_le hfit (congrArg List.length hsets).le hfiles)
    · exact absurd hno id
  | delAll => exact onDisk_saveConfig (by decide : 24 + 312 * 0 + 332 * 0 < 2 ^ 32)
  | queryRunningStatus =>
    rcases h with hno | ⟨hdisk, -⟩
    · exact absurd hno id
    · exact hdisk
  | other =>
    rcases h with hno | ⟨hdisk, -⟩
    · exact absurd hno id
    · exact hdisk
  | queryLastShutdownStatus =>
    rcases h with hno | ⟨hdisk, hstatus⟩
    · exact absurd hno id
    · exact ⟨hdisk.1, hdisk.2.trans (congrArg some hstatus)⟩
  | resetLastShutdownStatus =>
    rcases h with hno | ⟨hdisk, hstatus⟩
    · exact absurd hno id
    · exact ⟨hdisk.1, hdisk.2.trans (congrArg some hstatus)⟩

/-- In every run of commands, hooks, writer thread and restarts whose commands
all save, or have nothing to save, the configuration file holds the
configuration when a command returns. -/
theorem disk_follows_commands (env : Env) (cnf : Bytes) (nalloc : Nat) (events : List Event)
    (h : Along (sysStep env) (CommandSaved env) (Sys.start env cnf nalloc) events) :
    Along (sysStep env) (fun s ev => ∀ c, ev = .command c → OnDisk (sysStep env s ev).driver)
      (Sys.start env cnf nalloc) events := by
  refine along_mono (fun s ev _ hs _ => sysStep_sound env s ev hs) ?_
    (start_sound env cnf nalloc) h
  rintro s ev - hs hsaved c rfl
  exact processNetlinkCmd_onDisk hs.wf hsaved

/-! ## Concrete runs -/

theorem disk_follows_commands_one_set :
    Along (sysStep quietKernel) (fun s ev => ∀ c, ev = .command c →
        OnDisk (sysStep quietKernel s ev).driver) (Sys.start quietKernel [] 0)
      [.command (.addSet oneItemRequest), .command .queryRunningStatus, .command .delAll] := by
  refine disk_follows_commands quietKernel [] 0 _ ⟨.inl ⟨?_, ?_, ?_⟩, .inr ⟨?_, trivial⟩, .inl trivial,
    trivial⟩
  · decide +kernel
  · intro pmse _
    exact ⟨fun _ => by decide +kernel, trivial⟩
  · decide +kernel
  · decide +kernel

/-- `ADDSET` of a set with `/a` for which the only item is `c`: the item `/a` is
gone from memory and still in the file. -/
theorem refused_request_not_saved :
    ¬ OnDisk (processNetlinkCmd quietKernel oneItemSystem.driver (.addSet relativeRequest)).1 := by
  decide +kernel

end RtBackup
