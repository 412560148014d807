import RtBackup.CreateIoLog

/-!
# The hooks (`hookvfs.c`)

A hook looks up the path, takes a number, calls the original function and
builds a record of what it returned. The eight hooks differ in the paths they
look up, in what they take for success, in the record, and in whether they look
at the answer of the builder; only `rtb_vfs_write` does. The buffers that a hook
allocates for itself are taken to be there.

Results:
1. `hookEnter_cases`, `hookExit_cases`: all that a hook does before and after the
   original function.
-/

namespace RtBackup

open ByteFile

/-! ## The eight hooks -/

/-- The hooked functions, in the order of `security2hook`. -/
inductive HookedFunction where
  | write
  | mkdir
  | rmdir
  | rename
  | unlink
  | symlink
  | link
  | create
deriving DecidableEq

/-- One call of a hook. -/
structure Hook where
  /-- The hook calls the original function and does nothing else. -/
  bypass : Bool := false
  /-- The paths looked up, each if the one before it was not monitored. -/
  lookups : List CString
  /-- The test on what the original function returned. -/
  succeeded : Int → Bool := fun ret => ret = 0
  /-- The record of a success. -/
  record : SeqNo → IowriteContext
  /-- It carries the numbers and the directory that were taken. -/
  record_eq : ∀ seqNo, ∃ fields, record seqNo = logRecord seqNo fields := by
    exact fun _ => ⟨_, rfl⟩
  /-- The path in the record of a failure. -/
  errorPath : CString
  /-- The `iret` that a hook tests at its end, with the value it has when no
  record is built. -/
  iret : Option Int := none

def rtbVfsRename (oldabspath newabspath : CString) : Hook where
  lookups := [newabspath, oldabspath]
  record seqNo := createiologforrename seqNo oldabspath newabspath
  errorPath := newabspath

def rtbVfsUnlink (abspath : CString) : Hook where
  lookups := [abspath]
  record seqNo := createiologforrmfile seqNo abspath
  errorPath := abspath

def rtbVfsRmdir (abspath : CString) : Hook where
  lookups := [abspath]
  record seqNo := createiologforrmdir seqNo abspath
  errorPath := abspath

/-- `hasInode` is `dentry->d_inode != NULL`. -/
def rtbVfsCreate (hasInode : Bool) (abspath : CString) : Hook where
  bypass := hasInode
  lookups := [abspath]
  record seqNo := createiologforcreatefile seqNo abspath
  errorPath := abspath

def rtbVfsSymlink (oldabspath newabspath : CString) : Hook where
  lookups := [newabspath]
  record seqNo := createiologforcreatesymlink seqNo newabspath oldabspath
  errorPath := newabspath

def rtbVfsLink (oldabspath newabspath : CString) : Hook where
  lookups := [newabspath]
  record seqNo := createiologforcreatelink seqNo newabspath oldabspath
  errorPath := newabspath

def rtbVfsMkdir (abspath : CString) : Hook where
  lookups := [abspath]
  record seqNo := createiologformkdir seqNo abspath
  errorPath := abspath

/-- `writeOnly` is `file->f_flags == 1`, `iret` the answer of
`getabsfullpathfromstructfile`. -/
def rtbVfsWrite (writeOnly : Bool) (iret : Int) (abspath : CString) (buf : Bytes)
    (offset : UInt64) : Hook where
  bypass := writeOnly
  lookups := [abspath]
  succeeded ret := 0 < ret
  record seqNo := createiologforwrite seqNo abspath buf offset
  errorPath := abspath
  iret := some iret

/-! ## Before and after the original function -/

def getMonitorFileEntryByabspath (d : Driver) (abspath : CString) : Option MonitorFileEntry :=
  miSearch d.monitorFiles.rbTree abspath

/-- The entry that decides whether a hook logs. -/
def hookLookup (d : Driver) (h : Hook) : Option MonitorFileEntry :=
  h.lookups.findSome? (getMonitorFileEntryByabspath d)

/-- The test at the head of every hook. -/
def Driver.enabled (d : Driver) : Bool := d.bNormalRunning && d.bValid

/-- What a hook carries over the call of the original function. -/
inductive Entered where
  /-- Nothing: it returns right after the call. -/
  | bypass
  /-- `ineedtolog` is 0. -/
  | unlogged
  /-- `ineedtolog` is 1. -/
  | logged (seqNo : SeqNo)
deriving DecidableEq

/-- The entry for which a hook logs: none when it does not get to the lookup. -/
def hookTarget (d : Driver) (h : Hook) : Option MonitorFileEntry :=
  if d.enabled = false ∨ h.bypass = true then none else hookLookup d h

def hookEnter (env : Env) (ts : Timespec) (h : Hook) (d : Driver) : Driver × Entered :=
  if d.enabled = false ∨ h.bypass = true then (d, .bypass)
  else
    match hookLookup d h with
    | none => (d, .unlogged)
    | some pmfe =>
      match getMonitorFileSeqNoByMonitorFileEntry env ts pmfe d with
      -- the status is ignored, the hook logs with the values it started with
      | (d, .failed _) => (d, .logged .zero)
      | (d, .ok seqNo) => (d, .logged seqNo)

/-- The record that a hook builds after the original function returned `ret`. -/
def Hook.recordOf (h : Hook) (ret : Int) (seqNo : SeqNo) : IowriteContext :=
  if h.succeeded ret then h.record seqNo else createiologforerror seqNo h.errorPath

theorem Hook.recordOf_eq (h : Hook) (ret : Int) (seqNo : SeqNo) :
    ∃ fields, h.recordOf ret seqNo = logRecord seqNo fields := by
  unfold Hook.recordOf
  split
  · exact h.record_eq seqNo
  · exact ⟨_, rfl⟩

/-- The last test of `rtb_vfs_write`. -/
def checkIret (h : Hook) (iret : Int) (d : Driver) : Driver :=
  if h.iret.isSome ∧ iret ≠ 0 then { d with bNormalRunning := false } else d

def hookExit (allocOk : Bool) (ret : Int) (h : Hook) (entered : Entered) (d : Driver) : Driver :=
  match entered with
  | .bypass => d
  | .unlogged => checkIret h (h.iret.getD 0) d
  | .logged seqNo =>
    let (d, iret) := enqueueIolog allocOk (h.recordOf ret seqNo) d
    checkIret h iret d

/-- A hook that runs without another one in between. -/
structure HookCall where
  hook : Hook
  ts : Timespec
  ret : Int
  allocOk : Bool

def hookCall (env : Env) (c : HookCall) (d : Driver) : Driver :=
  hookExit c.allocOk c.ret c.hook (hookEnter env c.ts c.hook d).2 (hookEnter env c.ts c.hook d).1

/-! ## What a hook does -/

theorem hookLookup_sound {d : Driver} {h : Hook} {e : MonitorFileEntry}
    (he : hookLookup d h = some e) :
    e ∈ d.files ∧ ∃ p ∈ h.lookups, e.wcsMonitorFile.bytes <+: p.bytes := by
  obtain ⟨p, hp, hs⟩ := List.exists_of_findSome?_eq_some he
  obtain ⟨hmem, hpre⟩ := miSearch_sound hs
  exact ⟨hmem, p, hp, hpre⟩

/-- A hook leaves the driver alone before the original function, or takes a
number for the entry it found. -/
theorem hookEnter_cases (env : Env) (ts : Timespec) (h : Hook) (d : Driver) :
    (hookTarget d h = none ∧
      (hookEnter env ts h d = (d, .bypass) ∨ hookEnter env ts h d = (d, .unlogged))) ∨
    ∃ e, hookTarget d h = some e ∧ hookLookup d h = some e ∧
      (hookEnter env ts h d).1 = (getMonitorFileSeqNoByMonitorFileEntry env ts e d).1 ∧
      (hookEnter env ts h d).2 =
        match (getMonitorFileSeqNoByMonitorFileEntry env ts e d).2 with
        | .failed _ => .logged .zero
        | .ok seqNo => .logged seqNo := by
  unfold hookEnter hookTarget
  split
  · exact .inl ⟨rfl, .inl rfl⟩
  · cases he : hookLookup d h with
    | none => exact .inl ⟨rfl, .inr rfl⟩
    | some e =>
      refine .inr ⟨e, rfl, rfl, ?_⟩
      simp only
      split <;> next hseq => simp only [hseq, and_self]

theorem checkIret_cases (h : Hook) (iret : Int) (d : Driver) :
    checkIret h iret d = d ∨ checkIret h iret d = { d with bNormalRunning := false } := by
  unfold checkIret
  split
  · exact .inr rfl
  · exact .inl rfl

/-- After the original function a hook changes the queue and the flag only. -/
theorem hookExit_cases (allocOk : Bool) (ret : Int) (h : Hook) (entered : Entered) (d : Driver) :
    ∃ queue flag, hookExit allocOk ret h entered d =
      { d with iowritequeue := queue, bNormalRunning := flag } := by
  have hcheck : ∀ iret (d' : Driver), ∃ flag,
      checkIret h iret d' = { d' with bNormalRunning := flag } := by
    intro iret d'
    rcases checkIret_cases h iret d' with hd | hd
    · exact ⟨d'.bNormalRunning, hd⟩
    · exact ⟨false, hd⟩
  unfold hookExit
  cases entered with
  | bypass => exact ⟨_, _, rfl⟩
  | unlogged =>
    obtain ⟨flag, hf⟩ := hcheck (h.iret.getD 0) d
    exact ⟨d.iowritequeue, flag, hf⟩
  | logged seqNo =>
    rcases enqueueIolog_cases allocOk (h.recordOf ret seqNo) d with ⟨-, he⟩ | ⟨-, he⟩
    · obtain ⟨flag, hf⟩ := hcheck 0 { d with
        iowritequeue := d.iowritequeue ++ [h.recordOf ret seqNo] }
      simp only [he]
      exact ⟨_, flag, hf⟩
    · obtain ⟨flag, hf⟩ := hcheck (-1) d
      simp only [he]
      exact ⟨_, flag, hf⟩

end RtBackup
