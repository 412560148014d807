import RtBackup.Threads
import RtBackup.Lib.WorkQueue

/-!
# The write queue and the unloading of the module (`iowritethread.c`, `module.c`)

`thread_iowrite` drains the queue before it looks whether it should stop, and
`exit_rtbackup` restores the hooked functions before it asks the thread to stop.
A hook that was called before the restoration and returns after the last test
for an empty queue still appends its record, and no thread is left to take it.

Results:
1. `queueOf_moduleStep`: the driver's queue, the writer thread and the request to
   stop are a work queue with one worker.
2. `write_queue_lossless_iff`: records reach `createiolog` once and in their
   order, and all of them do exactly if the thread stops on an empty queue and no
   record comes later.
-/

namespace RtBackup

open ByteFile Runs WorkQueue

/-! ## State -/

/-- How far `exit_rtbackup` got. -/
inductive Exit where
  | loaded
  /-- `undo_hijack_syscalls` returned: no hook is called any more. -/
  | restored
  /-- `netlink_kernel_release` returned: no command comes any more. -/
  | released
  /-- In `kthread_stop`. -/
  | stopping
deriving DecidableEq

structure ModuleState where
  driver : Driver
  /-- The hooks that were called and have not returned; `none` before the lookup. -/
  running : List (Hook × Option Entered)
  writer : Worker IowriteContext
  exit : Exit
  /-- All records appended so far, and those passed to `createiolog`. -/
  appended : List IowriteContext
  handled : List IowriteContext

/-- The module after `init_rtbackup`. -/
def ModuleState.start (env : Env) (cnf : Bytes) (nalloc : Nat) : ModuleState where
  driver := initMonitorSet env cnf nalloc
  running := []
  writer := .waiting
  exit := .loaded
  appended := []
  handled := []

/-! ## Steps -/

/-- One step of `thread_iowrite`; `outcome` is how `createiolog` fares. -/
def ModuleState.write (outcome : LogOutcome) (s : ModuleState) : ModuleState :=
  match s.writer with
  | .waiting => { s with writer := .testing }
  | .testing => { s with writer := if s.driver.iowritequeue.isEmpty then .checking else .removing }
  | .removing =>
    match s.driver.iowritequeue with
    -- does not happen, the thread alone removes
    | [] => { s with writer := .testing }
    | piowc :: rest =>
      { s with driver := { s.driver with iowritequeue := rest }, writer := .handling piowc }
  | .handling piowc =>
    { s with
      driver := if outcome = .complete then saveConfig s.driver else s.driver
      writer := .testing
      handled := s.handled ++ [piowc] }
  | .checking => { s with writer := if s.exit = .stopping then .returned else .waiting }
  | .returned => s

inductive ModuleEvent where
  /-- The first instructions of a hooked function jump to its hook. -/
  | call (h : Hook)
  /-- The `i`-th hook under way gets to the original function. -/
  | enter (i : Nat) (ts : Timespec)
  /-- The `i`-th hook under way returns. -/
  | leave (i : Nat) (ret : Int) (allocOk : Bool)
  | command (c : Notification)
  | write (outcome : LogOutcome)
  | exit

def ModuleState.call (h : Hook) (s : ModuleState) : ModuleState :=
  if s.exit = .loaded then { s with running := s.running ++ [(h, none)] } else s

def ModuleState.enter (env : Env) (i : Nat) (ts : Timespec) (s : ModuleState) : ModuleState :=
  match s.running[i]? with
  | some (h, none) =>
    { s with
      driver := (hookEnter env ts h s.driver).1
      running := s.running.set i (h, some (hookEnter env ts h s.driver).2) }
  | some (_, some _) | none => s

def ModuleState.leave (i : Nat) (ret : Int) (allocOk : Bool) (s : ModuleState) : ModuleState :=
  match s.running[i]? with
  | some (h, some entered) =>
    { s with
      driver := hookExit allocOk ret h entered s.driver
      running := s.running.eraseIdx i
      appended := s.appended ++ RtBackup.appended allocOk ret h entered }
  | some (_, none) | none => s

def ModuleState.command (env : Env) (c : Notification) (s : ModuleState) : ModuleState :=
  if s.exit = .loaded ∨ s.exit = .restored then
    { s with driver := (processNetlinkCmd env s.driver c).1 }
  else s

/-- The next step of `exit_rtbackup`. -/
def Exit.next : Exit → Exit
  | .loaded => .restored
  | .restored => .released
  | .released | .stopping => .stopping

def moduleStep (env : Env) (s : ModuleState) : ModuleEvent → ModuleState
  | .call h => s.call h
  | .enter i ts => s.enter env i ts
  | .leave i ret allocOk => s.leave i ret allocOk
  | .command c => s.command env c
  | .write outcome => s.write outcome
  | .exit => { s with exit := s.exit.next }

/-- The thread does not stop with records in the queue, and no hook appends a
record after it has stopped. -/
def NothingLate (s : ModuleState) : ModuleEvent → Prop
  | .leave i _ allocOk => ∀ h seqNo, s.running[i]? = some (h, some (.logged seqNo)) →
      allocOk = true → s.writer ≠ .returned
  | .write _ => s.writer = .checking → s.exit = .stopping → s.driver.iowritequeue = []
  | .call _ | .enter _ _ | .command _ | .exit => True

/-! ## The module as a work queue -/

/-- The work queue of a module. -/
def queueOf (s : ModuleState) : State IowriteContext where
  queue := s.driver.iowritequeue
  worker := s.writer
  stop := s.exit = .stopping
  appended := s.appended
  handled := s.handled

/-- What an event is to the work queue. -/
def queueEvents (s : ModuleState) : ModuleEvent → List (WorkQueue.Event IowriteContext)
  | .leave i ret allocOk =>
    match s.running[i]? with
    | some (h, some entered) => (appended allocOk ret h entered).map .append
    | some (_, none) | none => []
  | .write _ => [.work]
  | .exit => if s.exit = .released then [.stop] else []
  | .call _ | .enter _ _ | .command _ => []

theorem run_append (s : State IowriteContext) (l : List IowriteContext) :
    run step s (l.map .append) =
      { s with queue := s.queue ++ l, appended := s.appended ++ l } := by
  induction l generalizing s with
  | nil => simp [run]
  | cons a l ih =>
    rw [List.map_cons, run, List.foldl_cons, ← run, ih]
    simp [step]

/-- Every step of the module is a step of its work queue. -/
theorem queueOf_moduleStep (env : Env) (s : ModuleState) (hw : s.driver.WF) (ev : ModuleEvent) :
    queueOf (moduleStep env s ev) = run step (queueOf s) (queueEvents s ev) := by
  cases ev with
  | call h =>
    show queueOf (s.call h) = queueOf s
    unfold ModuleState.call
    split
    · rfl
    · rfl
  | enter i ts =>
    show queueOf (s.enter env i ts) = queueOf s
    unfold ModuleState.enter
    split
    · next h _ =>
      obtain ⟨files, sets, hframe⟩ := hookEnter_frame env ts h s.driver
      rw [queueOf, hframe]
      rfl
    · rfl
    · rfl
  | leave i ret allocOk =>
    show queueOf (s.leave i ret allocOk) = _
    unfold ModuleState.leave
    split
    · next h entered hr => simp only [queueEvents, hr, run_append, queueOf, hookExit_queue]
    · next hr =>
      simp only [queueEvents, hr]
      rfl
    · next hr =>
      simp only [queueEvents, hr]
      rfl
  | command c =>
    show queueOf (s.command env c) = queueOf s
    unfold ModuleState.command
    split
    · rw [queueOf, (processNetlinkCmd_keeps env hw c).queue]
      rfl
    · rfl
  | write outcome =>
    show queueOf (s.write outcome) = (queueOf s).work
    unfold ModuleState.write
    cases hwr : s.writer with
    | waiting => simp only [State.work, queueOf, hwr]
    | testing => simp only [State.work, queueOf, hwr]
    | removing =>
      cases hq : s.driver.iowritequeue with
      | nil => simp only [State.work, queueOf, hwr, hq]
      | cons piowc rest => simp only [State.work, queueOf, hwr, hq]
    | handling piowc =>
      simp only [State.work, queueOf, hwr]
      split
      · rfl
      · rfl
    | checking => simp only [State.work, queueOf, hwr, decide_eq_true_eq]
    | returned => simp only [State.work, queueOf, hwr]
  | exit =>
    show queueOf { s with exit := s.exit.next } = _
    cases hx : s.exit <;> simp [queueOf, queueEvents, hx, Exit.next, run, step]

theorem moduleStep_wf (env : Env) (s : ModuleState) (ev : ModuleEvent) (hw : s.driver.WF) :
    (moduleStep env s ev).driver.WF := by
  cases ev with
  | call h =>
    show (s.call h).driver.WF
    unfold ModuleState.call
    split
    · exact hw
    · exact hw
  | enter i ts =>
    show (s.enter env i ts).driver.WF
    unfold ModuleState.enter
    split
    · exact hookEnter_wf env ts _ hw
    · exact hw
    · exact hw
  | leave i ret allocOk =>
    show (s.leave i ret allocOk).driver.WF
    unfold ModuleState.leave
    split
    · exact hookExit_wf _ _ _ _ hw
    · exact hw
    · exact hw
  | command c =>
    show (s.command env c).driver.WF
    unfold ModuleState.command
    split
    · exact opStep_wf env s.driver (.command c) hw
    · exact hw
  | write outcome =>
    show (s.write outcome).driver.WF
    unfold ModuleState.write
    cases s.writer with
    | waiting => exact hw
    | testing => exact hw
    | removing =>
      cases s.driver.iowritequeue with
      | nil => exact hw
      | cons piowc rest =>
        exact hw.sublist (.refl _) (.refl _) (Nat.le_refl _)
    | handling piowc =>
      by_cases hdone : outcome = .complete
      · simp only [hdone, if_true]
        exact hw.sublist (.refl _) (.refl _) (Nat.le_refl _)
      · simp only [hdone, if_false]
        exact hw
    | checking => exact hw
    | returned => exact hw
  | exit => exact hw

/-! ## Lost records -/

/-- A step leaves nothing behind in the work queue exactly if it is not late. -/
theorem nothingLate_iff (s : ModuleState) (ev : ModuleEvent) :
    Along step LeavesNothing (queueOf s) (queueEvents s ev) ↔ NothingLate s ev := by
  cases ev with
  | call h => exact Iff.rfl
  | enter i ts => exact Iff.rfl
  | command c => exact Iff.rfl
  | write outcome =>
    show (s.writer = .checking → decide (s.exit = .stopping) = true → s.driver.iowritequeue = []) ∧
      True ↔ _
    rw [and_true, decide_eq_true_eq]
    rfl
  | exit =>
    refine iff_of_true ?_ trivial
    by_cases hx : s.exit = .released
    · rw [queueEvents, if_pos hx]
      exact ⟨trivial, trivial⟩
    · rw [queueEvents, if_neg hx]
      trivial
  | leave i ret allocOk =>
    unfold NothingLate
    match hr : s.running[i]? with
    | none | some (_, none) =>
      simp only [queueEvents, hr]
      exact iff_of_true trivial nofun
    | some (h, some entered) =>
      simp only [queueEvents, hr]
      cases entered with
      | logged seqNo =>
        cases allocOk with
        | true => exact ⟨fun hl _ _ _ _ => hl.1, fun hl => ⟨hl h seqNo rfl rfl, trivial⟩⟩
        | false => exact iff_of_true trivial fun _ _ _ hok => absurd hok (by decide)
      | bypass => exact iff_of_true trivial nofun
      | unlogged => exact iff_of_true trivial nofun

/-- In every interleaving of hooks in any number of processes, commands, the
writer thread and the unloading of the module: the records passed to
`createiolog` are the first ones that were appended, in their order and each
once. When the thread has returned and no hook is under way, all were passed
exactly if the thread never stopped with records in the queue and no hook
appended one after it had stopped. -/
theorem write_queue_lossless_iff (env : Env) (cnf : Bytes) (nalloc : Nat)
    (events : List ModuleEvent) :
    let s := run (moduleStep env) (ModuleState.start env cnf nalloc) events
    s.handled <+: s.appended ∧
    (s.writer = .returned → s.running = [] →
      (s.handled = s.appended ↔
        Along (moduleStep env) NothingLate (ModuleState.start env cnf nalloc) events)) := by
  have hwstart : (ModuleState.start env cnf nalloc).driver.WF := initMonitorSet_wf env cnf nalloc
  have hstart : Conserved (queueOf (ModuleState.start env cnf nalloc)) :=
    ⟨((loadConfig_changes env _).keeps (emptyDriver_wf cnf nalloc)).queue, nofun⟩
  obtain ⟨-, hacc⟩ := invariant (I := fun s : ModuleState => s.driver.WF ∧ Conserved (queueOf s))
    (fun s ev ⟨hw, hacc⟩ => ⟨moduleStep_wf env s ev hw,
      queueOf_moduleStep env s hw ev ▸ hacc.run (queueEvents s ev)⟩)
    ⟨hwstart, hstart⟩ events _ (run_mem_states _ _)
  refine ⟨hacc.handled_prefix, fun hret _ => (hacc.handled_eq_iff hret).trans ?_⟩
  refine run_iff_along (I := fun s => s.driver.WF) (P := fun s => Drained (queueOf s))
    (fun s ev hw => moduleStep_wf env s ev hw) (fun s ev hw hd => ?_) (fun s ev hw hd => ?_)
    hwstart nofun
  · rw [queueOf_moduleStep env s hw, run_drained_iff hd]
    exact nothingLate_iff s ev
  · rw [queueOf_moduleStep env s hw]
    exact run_not_drained hd _

/-! ## Concrete runs -/

/-- `ADDSET` with the directory `/a`, and a call of `rtb_vfs_mkdir` for `/a/c` that
is under way while the module is unloaded. -/
def mkdirUnderWay : List ModuleEvent :=
  [.command (.addSet oneItemRequest), .call (rtbVfsMkdir pathAC), .exit, .enter 0 ⟨0, 0⟩, .exit,
    .exit]

/-- The thread finds the queue empty, the hook appends, and the thread stops. -/
def lateRecord : List ModuleEvent :=
  mkdirUnderWay ++ [.write .complete, .write .complete, .leave 0 0 true, .write .complete]

/-- The hook appends first. -/
def timelyRecord : List ModuleEvent :=
  mkdirUnderWay ++ [.leave 0 0 true, .write .complete, .write .complete, .write .complete,
    .write .complete, .write .complete, .write .complete]

theorem write_queue_lossless_iff_timely_record :
    let s := run (moduleStep quietKernel) (ModuleState.start quietKernel [] 0) timelyRecord
    s.handled = s.appended ↔
      Along (moduleStep quietKernel) NothingLate (ModuleState.start quietKernel [] 0) timelyRecord :=
  (write_queue_lossless_iff quietKernel [] 0 timelyRecord).2 (by decide +kernel)
    (List.isEmpty_iff.mp (by decide +kernel))

theorem late_record_lost :
    let s := run (moduleStep quietKernel) (ModuleState.start quietKernel [] 0) lateRecord
    s.writer = .returned ∧ s.running.isEmpty = true ∧ s.appended.length = 1 ∧ s.handled = [] := by
  decide +kernel

end RtBackup
