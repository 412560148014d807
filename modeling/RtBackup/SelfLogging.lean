import RtBackup.Threads

/-!
# Hooked operations of the writer thread (`createiolog`, `SaveConfig`)

The writer thread opens and writes files through the functions that are hooked.
Its writes pass the hook, which knows them by their open flags. The creation of
a log file does not: `rtb_vfs_create` looks its path up like any other, and logs
it when the directory of the set lies below a monitored name.

Results:
1. `processRecord_eq`: of all that the thread does for a record, only the
   creation of the log file can reach the queue.
2. `drainStep_queue_iff`: when it does.
3. `logging_adds_nothing_iff`: the drain loop adds nothing to the queue exactly
   if no log file that it creates is monitored, and then it ends.
-/

namespace RtBackup

open ByteFile Runs

/-! ## Definitions -/

/-- How `file_open` of the log file goes. -/
inductive Opening where
  /-- The file is there. -/
  | found
  /-- It is not, and the kernel calls `vfs_create`. -/
  | create (ts : Timespec) (ret : Int) (allocOk : Bool)
  /-- The open fails before `vfs_create`. -/
  | refused

/-- The answers of the file system while one record is processed. -/
structure LogCalls where
  opening : Opening
  /-- The file is written completely. -/
  written : Bool
  ts : Timespec

/-- `file_write` of a file that the driver opened with `O_WRONLY`, whose
`f_flags` are 1. -/
def fileWrite (env : Env) (ts : Timespec) (abspath : CString) (data : Bytes) (d : Driver) :
    Driver :=
  hookCall env ⟨rtbVfsWrite true 0 abspath data 0, ts, data.length, true⟩ d

/-- `/etc/rtb.cnf`. -/
def configPath : CString := ⟨[47, 101, 116, 99, 47, 114, 116, 98, 46, 99, 110, 102], by decide⟩

/-- `SaveConfig` with its calls of `file_write`; its `file_open` creates no file. -/
def saveConfigHooked (env : Env) (ts : Timespec) (d : Driver) : Driver :=
  saveConfig ((saveWrites d).foldl (fun d w => fileWrite env ts configPath w.2 d) d)

/-- `createiolog` behind the open. -/
def writeLog (env : Env) (calls : LogCalls) (abspath : CString) (piowc : IowriteContext)
    (d : Driver) : Driver :=
  if calls.written then
    saveConfigHooked env calls.ts (fileWrite env calls.ts abspath piowc.logfile.data d)
  else fileWrite env calls.ts abspath piowc.logfile.data d

/-- `createiolog` of a record; `abspathOf` is the absolute path of the file that
a path names. -/
def processRecord (env : Env) (abspathOf : CString → CString) (calls : LogCalls)
    (piowc : IowriteContext) (d : Driver) : Driver :=
  match calls.opening with
  | .found => writeLog env calls (abspathOf piowc.iologpath) piowc d
  | .create ts ret allocOk =>
    let d := hookCall env ⟨rtbVfsCreate false (abspathOf piowc.iologpath), ts, ret, allocOk⟩ d
    if ret = 0 then writeLog env calls (abspathOf piowc.iologpath) piowc d else d
  | .refused => d

/-- One iteration of the drain loop of `thread_iowrite`. -/
def drainStep (env : Env) (abspathOf : CString → CString) (d : Driver) (calls : LogCalls) :
    Driver :=
  match d.iowritequeue with
  | [] => d
  | piowc :: rest => processRecord env abspathOf calls piowc { d with iowritequeue := rest }

/-- The log file of the oldest record is not created under a monitored name; or
the hook finds no memory for its record. -/
def NotFed (abspathOf : CString → CString) (d : Driver) (calls : LogCalls) : Prop :=
  ∀ piowc ∈ d.iowritequeue.head?, ∀ ts ret, calls.opening = .create ts ret true →
    hookTarget d (rtbVfsCreate false (abspathOf piowc.iologpath)) = none

/-! ## Hooks of the writer thread -/

theorem hookCall_of_bypass (env : Env) {c : HookCall} (h : c.hook.bypass = true) (d : Driver) :
    hookCall env c d = d := by
  rw [hookCall, hookEnter, if_pos (.inr h)]
  rfl

theorem fileWrite_eq (env : Env) (ts : Timespec) (abspath : CString) (data : Bytes) (d : Driver) :
    fileWrite env ts abspath data d = d :=
  hookCall_of_bypass env rfl d

theorem saveConfigHooked_eq (env : Env) (ts : Timespec) (d : Driver) :
    saveConfigHooked env ts d = saveConfig d := by
  unfold saveConfigHooked
  have hwrites : ∀ (l : List Write), l.foldl (fun d w => fileWrite env ts configPath w.2 d) d = d := by
    intro l
    induction l with
    | nil => rfl
    | cons w l ih => rw [List.foldl_cons, fileWrite_eq, ih]
  rw [hwrites]

theorem writeLog_queue (env : Env) (calls : LogCalls) (abspath : CString) (piowc : IowriteContext)
    (d : Driver) : (writeLog env calls abspath piowc d).iowritequeue = d.iowritequeue := by
  unfold writeLog
  rw [saveConfigHooked_eq, fileWrite_eq]
  split
  · rfl
  · rfl

/-- Of all that the thread does for a record, only the creation of the log file
can reach the queue. -/
theorem processRecord_queue (env : Env) (abspathOf : CString → CString) (calls : LogCalls)
    (piowc : IowriteContext) (d : Driver) :
    (processRecord env abspathOf calls piowc d).iowritequeue =
      match calls.opening with
      | .create ts ret allocOk =>
        (hookCall env ⟨rtbVfsCreate false (abspathOf piowc.iologpath), ts, ret, allocOk⟩
          d).iowritequeue
      | .found | .refused => d.iowritequeue := by
  unfold processRecord
  cases calls.opening with
  | found => exact writeLog_queue env calls _ piowc d
  | create ts ret allocOk =>
    by_cases hret : ret = 0
    · simp only [hret, if_true]
      exact writeLog_queue env calls _ piowc _
    · simp only [hret, if_false]
  | refused => rfl

/-! ## What a hook appends -/

/-- A hook that finds an entry holds a record, with a number or without. -/
theorem hookEnter_logged_iff (env : Env) (ts : Timespec) (h : Hook) (d : Driver) :
    (∃ seqNo, (hookEnter env ts h d).2 = .logged seqNo) ↔ hookTarget d h ≠ none := by
  rcases hookEnter_cases env ts h d with ⟨hnone, heq | heq⟩ | ⟨e, htarget, -, -, hent⟩
  · rw [heq, hnone]
    simp
  · rw [heq, hnone]
    simp
  · rw [htarget]
    refine iff_of_true ?_ nofun
    rw [hent]
    cases (getMonitorFileSeqNoByMonitorFileEntry env ts e d).2 with
    | failed status => exact ⟨.zero, rfl⟩
    | ok seqNo => exact ⟨seqNo, rfl⟩

/-- A whole hook leaves the queue exactly if it finds no entry or no memory. -/
theorem hookCall_queue_iff (env : Env) (c : HookCall) (d : Driver) :
    (hookCall env c d).iowritequeue = d.iowritequeue ↔
      (c.allocOk = true → hookTarget d c.hook = none) := by
  obtain ⟨files, sets, hframe⟩ := hookEnter_frame env c.ts c.hook d
  have hqueue : (hookCall env c d).iowritequeue = d.iowritequeue ++
      appended c.allocOk c.ret c.hook (hookEnter env c.ts c.hook d).2 := by
    rw [hookCall, hookExit_queue, hframe]
  rw [hqueue, List.append_right_eq_self]
  have hlogged := hookEnter_logged_iff env c.ts c.hook d
  have hnone : (∀ seqNo, (hookEnter env c.ts c.hook d).2 ≠ .logged seqNo) →
      hookTarget d c.hook = none := by
    intro hno
    by_contra htarget
    obtain ⟨seqNo, h⟩ := hlogged.mpr htarget
    exact hno seqNo h
  cases hent : (hookEnter env c.ts c.hook d).2 with
  | logged seqNo =>
    have htarget := hlogged.mp ⟨seqNo, hent⟩
    cases c.allocOk with
    | true => exact iff_of_false (List.cons_ne_nil _ _) fun h => htarget (h rfl)
    | false => exact iff_of_true rfl fun h => Bool.noConfusion h
  | bypass | unlogged =>
    refine iff_of_true rfl fun _ => hnone fun seqNo h => ?_
    rw [hent] at h
    cases h

/-! ## The drain loop -/

theorem drainStep_queue_iff (env : Env) (abspathOf : CString → CString) (d : Driver)
    (calls : LogCalls) :
    (drainStep env abspathOf d calls).iowritequeue = d.iowritequeue.tail ↔
      NotFed abspathOf d calls := by
  unfold drainStep NotFed
  cases hq : d.iowritequeue with
  | nil => exact iff_of_true hq nofun
  | cons piowc rest =>
    simp only [processRecord_queue, List.head?_cons, List.tail_cons, Option.mem_some_iff,
      forall_eq']
    cases hopen : calls.opening with
    | found => exact iff_of_true rfl nofun
    | refused => exact iff_of_true rfl nofun
    | create ts ret allocOk =>
      refine (hookCall_queue_iff env ⟨rtbVfsCreate false (abspathOf piowc.iologpath), ts, ret,
        allocOk⟩ _).trans ⟨fun h ts' ret' heq => ?_, fun h hok => ?_⟩
      · obtain ⟨-, -, rfl⟩ := Opening.create.inj heq
        exact h rfl
      · obtain rfl : allocOk = true := hok
        exact h ts ret rfl

/-- A loop whose iterations only remove takes one record in each. -/
theorem run_drainStep_queue {env : Env} {abspathOf : CString → CString} {d : Driver}
    {calls : List LogCalls}
    (h : Along (drainStep env abspathOf) (fun d c =>
      (drainStep env abspathOf d c).iowritequeue = d.iowritequeue.tail) d calls) :
    (run (drainStep env abspathOf) d calls).iowritequeue =
      d.iowritequeue.drop calls.length := by
  induction calls generalizing d with
  | nil => rfl
  | cons c calls ih =>
    rw [List.length_cons, run, List.foldl_cons, ← run, ih h.2, h.1, List.drop_tail]

/-- In every state that commands, hooks, the writer thread and restarts can
reach, with any records in the queue and whatever the file system answers: the
iterations of the drain loop add nothing to the queue exactly if no log file is
created under a monitored name; and the loop then ends with the last of the
records that were in the queue. -/
theorem logging_adds_nothing_iff (env : Env) (abspathOf : CString → CString) (cnf : Bytes)
    (nalloc : Nat) (events : List Event) :
    ∀ s ∈ states (sysStep env) (Sys.start env cnf nalloc) events, ∀ calls : List LogCalls,
      (Along (drainStep env abspathOf) (fun d c =>
          (drainStep env abspathOf d c).iowritequeue = d.iowritequeue.tail) s.driver calls ↔
        Along (drainStep env abspathOf) (NotFed abspathOf) s.driver calls) ∧
      (Along (drainStep env abspathOf) (NotFed abspathOf) s.driver calls →
        (run (drainStep env abspathOf) s.driver calls).iowritequeue =
          s.driver.iowritequeue.drop calls.length) := by
  intro s _ calls
  have hiff : Along (drainStep env abspathOf) (fun d c =>
        (drainStep env abspathOf d c).iowritequeue = d.iowritequeue.tail) s.driver calls ↔
      Along (drainStep env abspathOf) (NotFed abspathOf) s.driver calls :=
    along_congr (I := fun _ => True) (fun _ _ _ => trivial)
      (fun d _ c _ => drainStep_queue_iff env abspathOf d c) trivial
  exact ⟨hiff, fun h => run_drainStep_queue (hiff.mpr h)⟩

/-! ## Concrete runs -/

/-- A request for the directory `/a` whose cache directory is `/a/` too. -/
def ownDirRequest : RealtimeBackupData :=
  { oneItemRequest with wszBakCacheDir := ⟨⟨[47, 97, 47], by decide⟩, by decide⟩ }

/-- `ADDSET`, and `mkdir` of `/a/c`. -/
def oneRecord (request : RealtimeBackupData) : List Event :=
  [.command (.addSet request), .enter ⟨0, 0⟩ (rtbVfsMkdir pathAC), .perform 0 0, .leave 0 true]

/-- The log file is not there and can be made. -/
def newLogFile : LogCalls := ⟨.create ⟨0, 0⟩ 0 true, true, ⟨0, 0⟩⟩

theorem logging_adds_nothing_iff_other_dir :
    let s := run (sysStep quietKernel) (Sys.start quietKernel [] 0) (oneRecord oneItemRequest)
    (run (drainStep quietKernel id) s.driver [newLogFile]).iowritequeue =
      s.driver.iowritequeue.drop 1 := by
  refine (logging_adds_nothing_iff quietKernel id [] 0 _ _ (run_mem_states _ _) [newLogFile]).2
    ⟨fun piowc hp _ _ _ => ?_, trivial⟩
  have hfree : ∀ r ∈ (run (sysStep quietKernel) (Sys.start quietKernel [] 0)
      (oneRecord oneItemRequest)).driver.iowritequeue.head?,
      hookTarget (run (sysStep quietKernel) (Sys.start quietKernel [] 0)
        (oneRecord oneItemRequest)).driver (rtbVfsCreate false r.iologpath) = none := by
    decide +kernel
  exact hfree piowc hp

/-- The log file of the record of `mkdir` is `/a/0`; its creation is logged. -/
theorem logging_feeds_itself :
    let s := run (sysStep quietKernel) (Sys.start quietKernel [] 0) (oneRecord ownDirRequest)
    s.driver.iowritequeue.length = 1 ∧
      (drainStep quietKernel id s.driver newLogFile).iowritequeue.length = 1 := by
  decide +kernel

end RtBackup
