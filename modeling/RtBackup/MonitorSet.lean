import RtBackup.ConfigFile
import RtBackup.Lib.ErasingShape

/-!
# Configuration commands (`monitorset.c`, `process_netlink_cmd`)

The functions that add and delete backup sets and monitored items, the number
that a hook takes for its record, and the netlink command that selects among
them. A status is the `int` that the C function returns.
-/

namespace RtBackup

open ByteFile SearchTree

/-! ## Items -/

/-- A field of the entry at an address is changed in place. -/
def Driver.updSet (d : Driver) (addr : Nat) (f : MonitorSetEntry → MonitorSetEntry) : Driver :=
  { d with monitorSet.rbTree := d.monitorSet.rbTree.map fun s => if s.addr = addr then f s else s }

def Driver.updFile (d : Driver) (addr : Nat) (f : MonitorFileEntry → MonitorFileEntry) : Driver :=
  { d with
    monitorFiles.rbTree := d.monitorFiles.rbTree.map fun e => if e.addr = addr then f e else e }

/-- `AddMonitorItem` on the tree of items; `mfe` is the entry asked for. -/
def addMonitorItem (env : Env) (mfe : FileRecord) (d : Driver) : Driver × Int :=
  if mfe.wcsMonitorFile.bytes.length < 2 ∨ mfe.wcsMonitorFile.bytes.head? ≠ some 47 then (d, -1)
  else
    match miSearch d.monitorFiles.rbTree mfe.wcsMonitorFile.toCString with
    | some _ => (d, 0)
    | none =>
      match entryAlloc env d with
      | (d, none) => (d, -3)
      | (d, some addr) =>
        -- `bMonitor` and `pSetEntry` are set once the entry is linked; the tree looks at neither
        let pmfeNew : MonitorFileEntry :=
          { toFileRecord := { mfe with bMonitor := 1 }, addr := addr, pSetEntry := none }
        let (root, status) := miInsert env.rb d.monitorFiles.rbTree pmfeNew
        if status ≠ 0 then (d, -2)
        else ({ d with monitorFiles := ⟨d.monitorFiles.ulCounts + 1, root⟩ }, 0)

/-- `if (ulCounts > 0) ulCounts--`. -/
def decrement (ulCounts : UInt32) : UInt32 :=
  if 0 < ulCounts then ulCounts - 1 else ulCounts

/-- `DelMonitorItemsBySetId`: `rb_next` goes on from an entry that was erased and
freed, whose memory is taken to stay readable. -/
def delMonitorItemsBySetId {α : Type} [DecidableEq α] (rb : RbLib) (guidOf : α → GUID)
    (pMonitorItems : MonitorItemData α) (guidSet : GUID) : MonitorItemData α :=
  let done := ErasingWalk.run rb (fun pmeh => guidOf pmeh = guidSet) (fun _ => decrement)
    pMonitorItems.rbTree pMonitorItems.ulCounts
  { ulCounts := done.acc, rbTree := done.tree }

/-! ## Sets -/

/-- `GetMonitorSetEntry`. -/
def getMonitorSetEntry (d : Driver) (guidSet : GUID) : Option MonitorSetEntry :=
  if 0 < d.monitorSet.ulCounts then msSearch d.monitorSet.rbTree guidSet else none

def delMonitorSet (env : Env) (guidSet : GUID) (d : Driver) : Driver :=
  { d with
    monitorFiles := delMonitorItemsBySetId env.rb (·.guidSetId) d.monitorFiles guidSet
    monitorSet := delMonitorItemsBySetId env.rb (·.guidSetId) d.monitorSet guidSet }

/-- The part of `AddMonitorSet` that makes the new entry. -/
def newMonitorSet (env : Env) (pSet : SetRecord) (d : Driver) : Driver × Int :=
  match entryAlloc env d with
  | (d, none) => (d, -3)
  | (d, some addr) =>
    let pmse : MonitorSetEntry := { toSetRecord := { pSet with ulFileCount := 0 }, addr := addr }
    let (root, ret) := msInsert env.rb d.monitorSet.rbTree pmse
    if ret ≠ 0 then (d, -1)
    else ({ d with monitorSet := ⟨d.monitorSet.ulCounts + 1, root⟩ }, 0)

def addMonitorSet (env : Env) (pSet : SetRecord) (bDelExist : Bool) (d : Driver) : Driver × Int :=
  match getMonitorSetEntry d pSet.guidSetId with
  | some _ =>
    if bDelExist then newMonitorSet env pSet (delMonitorSet env pSet.guidSetId d) else (d, -2)
  | none => newMonitorSet env pSet d

/-! ## Requests -/

/-- The entry that `ConfigAddMonitorSet` fills in for an item. -/
def requestedItem (guidSet : GUID) (item : FilterItem) : FileRecord where
  guidSetId := guidSet
  bInited := 0
  bMonitor := 0
  ullSeqNo := 0
  bDirectory := if item.ulFileType = filterTypeDir then 1 else 0
  ulLength := UInt32.ofNat item.wszFilterName.bytes.length
  wcsMonitorFile := item.wszFilterName

/-- The item types that the loops act on. -/
def FilterItem.known (item : FilterItem) : Prop :=
  item.ulFileType = filterTypeFile ∨ item.ulFileType = filterTypeDir

instance (item : FilterItem) : Decidable item.known := inferInstanceAs (Decidable (_ ∨ _))

/-- The loop of `ConfigAddMonitorSet`; `pmse` is the address of the set. The
last component is `false` when the function returns from inside the loop. The
branch for the status -5 is left out, `AddMonitorItem` never answers it. -/
def addFilterItems (env : Env) (guidSet : GUID) (pmse : Nat) :
    List FilterItem → Int → Driver → Driver × Int × Bool
  | [], status, d => (d, status, true)
  | item :: items, _, d =>
    if item.known then
      let (d, status) := addMonitorItem env (requestedItem guidSet item) d
      if status ≠ 0 then (d, status, false)
      else
        addFilterItems env guidSet pmse items status
          (d.updSet pmse fun s => { s with ulFileCount := s.ulFileCount + 1 })
    else
      -- `continue` keeps the status, which is the pointer that `strncat` returned
      addFilterItems env guidSet pmse items env.mfeAddress d

def configAddMonitorSet (env : Env) (backupData : RealtimeBackupData) (bDelExistSet : Bool)
    (d : Driver) : Driver × Int :=
  let mse : SetRecord :=
    { guidSetId := backupData.guidSetId
      wcsSetCacheDir := backupData.wszBakCacheDir
      ullSetSeqNo := 0
      ulFileCount := 0 }
  let (d, status) := addMonitorSet env mse bDelExistSet d
  if status ≠ 0 ∧ ¬ (status = -2 ∧ bDelExistSet = false) then (d, status)
  else
    match msSearch d.monitorSet.rbTree mse.guidSetId with
    | none => (d, -3)
    | some pmse =>
      match addFilterItems env backupData.guidSetId pmse.addr backupData.filterItems status d with
      | (d, status, false) => (d, status)
      | (d, status, true) => (saveConfig d, status)

/-- The loop of `ConfigDelMonitorItem`. -/
def delFilterItems (env : Env) : List FilterItem → Driver → Driver
  | [], d => d
  | item :: items, d =>
    if item.known then
      -- `ulCounts` stays
      let (root, _) := miRemove env.rb d.monitorFiles.rbTree item.wszFilterName.toCString
      delFilterItems env items { d with monitorFiles.rbTree := root }
    else delFilterItems env items d

def configDelMonitorItem (env : Env) (backupData : RealtimeBackupData) (d : Driver) :
    Driver × Int :=
  (saveConfig (delFilterItems env backupData.filterItems d), 0)

def configDelMonitorSet (env : Env) (backupData : RealtimeBackupData) (d : Driver) :
    Driver × Int :=
  (saveConfig (delMonitorSet env backupData.guidSetId d), 0)

/-- `DelAllMonitorSet` as the removal of all entries. -/
def delAllMonitorSet (d : Driver) : Driver :=
  { d with monitorFiles := ⟨0, .leaf⟩, monitorSet := ⟨0, .leaf⟩ }

def configDelAllMonitorSet (d : Driver) : Driver × Int :=
  (saveConfig (delAllMonitorSet d), 0)

/-! ## Netlink commands -/

/-- `systemrunning` of `enumShutdownState`. -/
def systemrunning : UInt32 := 1

/-- The notifications that `process_netlink_cmd` tells apart. -/
inductive Notification where
  | addSet (backupData : RealtimeBackupData)
  | addItem (backupData : RealtimeBackupData)
  | delSet (backupData : RealtimeBackupData)
  | delItem (backupData : RealtimeBackupData)
  | delAll
  | queryRunningStatus
  | queryLastShutdownStatus
  | resetLastShutdownStatus
  | other
deriving DecidableEq

/-- `NET_OK` of `error_e`. -/
def netOk : Int := 1

/-- The driver after a command, the value returned, and the status that
`notify_user_status` sends. -/
def processNetlinkCmd (env : Env) (d : Driver) : Notification → Driver × Int × Option UInt32
  | .addSet backupData =>
    ((configAddMonitorSet env backupData true d).1, (configAddMonitorSet env backupData true d).2, none)
  | .addItem backupData =>
    ((configAddMonitorSet env backupData false d).1, (configAddMonitorSet env backupData false d).2, none)
  | .delSet backupData =>
    ((configDelMonitorSet env backupData d).1, (configDelMonitorSet env backupData d).2, none)
  | .delItem backupData =>
    ((configDelMonitorItem env backupData d).1, (configDelMonitorItem env backupData d).2, none)
  | .delAll => ((configDelAllMonitorSet d).1, (configDelAllMonitorSet d).2, none)
  | .queryRunningStatus => (d, netOk, some (if d.bNormalRunning then 1 else 0))
  | .queryLastShutdownStatus =>
    ({ d with dwLastNormalShutdown := systemrunning }, netOk, some systemrunning)
  | .resetLastShutdownStatus => ({ d with dwLastNormalShutdown := systemrunning }, netOk, none)
  | .other => (d, netOk, none)

/-! ## Start -/

/-- The state that `InitMonitorSet` builds before it loads. -/
def emptyDriver (cnf : Bytes) (nalloc : Nat) : Driver where
  monitorFiles := ⟨0, .leaf⟩
  monitorSet := ⟨0, .leaf⟩
  bValid := true
  bNormalRunning := true
  dwLastNormalShutdown := 0
  iowritequeue := []
  cnf := cnf
  nalloc := nalloc

def initMonitorSet (env : Env) (cnf : Bytes) (nalloc : Nat) : Driver :=
  loadConfig env (emptyDriver cnf nalloc)

/-! ## Record numbers -/

/-- `struct timespec`. -/
structure Timespec where
  sec : Int
  nsec : Int
deriving DecidableEq

/-- What a hook holds for its record. -/
structure SeqNo where
  ullSeqNo : UInt64
  ullGlobalSeqNo : UInt64
  timesecs : UInt64
  iologdir : CString
deriving DecidableEq

/-- The values that a hook starts with. -/
def SeqNo.zero : SeqNo := ⟨0, 0, 0, ⟨[], by decide⟩⟩

/-- `ts.tv_sec * 1000` as a `long`, then `* 10000 + ts.tv_nsec / 100`. -/
def timesecs (longBits : Nat) (ts : Timespec) : UInt64 :=
  UInt64.ofInt ((ts.sec * 1000).bmod (2 ^ longBits)) * 10000 + UInt64.ofInt (ts.nsec.tdiv 100)

/-- The set that a set pointer leads to: the one it was made for, or, when this was
freed, one that was given its memory. -/
def setAt (env : Env) (d : Driver) (pmse : Nat) : Option MonitorSetEntry :=
  (d.sets.find? fun s => s.addr = pmse).or
    (d.sets.find? fun s => env.memory s.addr = env.memory pmse)

inductive SeqResult where
  | failed (status : Int)
  | ok (seqNo : SeqNo)
deriving DecidableEq

/-- The part of `GetMonitorFileSeqNoByMonitorFileEntry` under `gseqnolock`, for
the entry `pmfe` whose set pointer is `pmse`. -/
def takeSeqNo (env : Env) (ts : Timespec) (pmfe : MonitorFileEntry) (pmse : Nat) (d : Driver) :
    Driver × SeqResult :=
  match setAt env d pmse with
  | some s =>
    (((d.updFile pmfe.addr fun e => { e with ullSeqNo := e.ullSeqNo + 1 }).updSet s.addr fun s =>
        { s with ullSetSeqNo := s.ullSetSeqNo + 1 }),
      .ok ⟨pmfe.ullSeqNo, s.ullSetSeqNo, timesecs env.longBits ts, s.wcsSetCacheDir.toCString⟩)
  | none =>
    -- the set was freed: the number comes from its memory, and no set counts it
    (d.updFile pmfe.addr fun e => { e with ullSeqNo := e.ullSeqNo + 1 },
      .ok ⟨pmfe.ullSeqNo, (env.freed d pmse).ullSetSeqNo, timesecs env.longBits ts,
        (env.freed d pmse).wcsSetCacheDir.toCString⟩)

def getMonitorFileSeqNoByMonitorFileEntry (env : Env) (ts : Timespec) (pmfe : MonitorFileEntry)
    (d : Driver) : Driver × SeqResult :=
  match pmfe.pSetEntry with
  | some pmse => takeSeqNo env ts pmfe pmse d
  | none =>
    match getMonitorSetEntry d pmfe.guidSetId with
    | none => (d, .failed (-3))
    | some s =>
      takeSeqNo env ts pmfe s.addr (d.updFile pmfe.addr fun e => { e with pSetEntry := some s.addr })

end RtBackup
