import RtBackup.Notices

/-!
# What the notices say (`rtbnetlink.c`, `hookvfs.c`, `iowritethread.c`)

Three facts reach the client: the answer to a query, an error -3 when
`rtb_vfs_write` clears `bNormalRunning`, and an error -2 for a record that the writer
thread frees unwritten. The error of `file_open` is sent under the same type, and the
client cannot tell it from these two. Since any number of processes send at once, a
notification may overtake another one.

Results:
1. `notices_tells`: what a step of the driver sends of the flag.
2. `running_status_told`: what the notifications say of `bNormalRunning`.
3. `sysStep_filed`: where a step leaves the records.
4. `dropped_records_told`: what the notifications say of records that are not written.
-/

namespace RtBackup

open ByteFile LossyLink

/-! ## What a step sends -/

theorem iretNotices_cases (h : Hook) (iret : Int) (d : Driver) :
    (iretNotices h iret = [] ∧ checkIret h iret d = d) ∨
    (iretNotices h iret = [.writeFailed] ∧ (checkIret h iret d).bNormalRunning = false) := by
  unfold iretNotices checkIret
  split
  · exact .inr ⟨rfl, rfl⟩
  · exact .inl ⟨rfl, rfl⟩

/-- A hook clears the flag exactly when it says so. -/
theorem hookExitNotices_cases (allocOk : Bool) (ret : Int) (h : Hook) (entered : Entered)
    (d : Driver) :
    (hookExitNotices allocOk ret h entered d = [] ∧
      (hookExit allocOk ret h entered d).bNormalRunning = d.bNormalRunning) ∨
    (hookExitNotices allocOk ret h entered d = [.writeFailed] ∧
      (hookExit allocOk ret h entered d).bNormalRunning = false) := by
  cases entered with
  | bypass => exact .inl ⟨rfl, rfl⟩
  | unlogged =>
    rcases iretNotices_cases h (h.iret.getD 0) d with ⟨hn, heq⟩ | ⟨hn, hflag⟩
    · exact .inl ⟨hn, congrArg Driver.bNormalRunning heq⟩
    · exact .inr ⟨hn, hflag⟩
  | logged seqNo =>
    have hqueue : (enqueueIolog allocOk (h.recordOf ret seqNo) d).1.bNormalRunning =
        d.bNormalRunning := by
      rcases enqueueIolog_cases allocOk (h.recordOf ret seqNo) d with ⟨-, heq⟩ | ⟨-, heq⟩ <;>
        rw [heq]
    rcases iretNotices_cases h (enqueueIolog allocOk (h.recordOf ret seqNo) d).2
      (enqueueIolog allocOk (h.recordOf ret seqNo) d).1 with ⟨hn, heq⟩ | ⟨hn, hflag⟩
    · exact .inl ⟨hn, (congrArg Driver.bNormalRunning heq).trans hqueue⟩
    · exact .inr ⟨hn, hflag⟩

theorem leaveNotices_cases (op : Nat) (allocOk : Bool) (s : Sys) :
    (leaveNotices op allocOk s = [] ∧
      (s.leave op allocOk).driver.bNormalRunning = s.driver.bNormalRunning) ∨
    (leaveNotices op allocOk s = [.writeFailed] ∧
      (s.leave op allocOk).driver.bNormalRunning = false) := by
  cases hf : s.running.find? fun r => r.op = op ∧ r.ret ≠ none with
  | none => exact .inl ⟨by simp only [leaveNotices, hf], by simp only [Sys.leave, hf]⟩
  | some r =>
    obtain ⟨op', h, entered, ticket, ret⟩ := r
    cases ret with
    | none => exact .inl ⟨by simp only [leaveNotices, hf], by simp only [Sys.leave, hf]⟩
    | some ret =>
      simp only [leaveNotices, Sys.leave, hf]
      exact hookExitNotices_cases allocOk ret h entered s.driver

theorem createIologNotices_cases (filep : UInt32) (outcome : LogOutcome) (s : Sys) :
    (createIologNotices filep outcome s = [] ∧ droppedBy s (.createIolog outcome) = []) ∨
    ∃ r, droppedBy s (.createIolog outcome) = [r] ∧
      (createIologNotices filep outcome s = [.clientError filep, .logFailed] ∨
        createIologNotices filep outcome s = [.logFailed]) := by
  cases hw : s.writer with
  | writing r =>
    cases outcome with
    | openFailed =>
      refine .inr ⟨r, ?_, .inl ?_⟩
      · simp only [droppedBy, hw, Writer.current]
      · simp only [createIologNotices, hw]
    | shortWrite =>
      refine .inr ⟨r, ?_, .inr ?_⟩
      · simp only [droppedBy, hw, Writer.current]
      · simp only [createIologNotices, hw]
    | complete => exact .inl ⟨by simp only [createIologNotices, hw], rfl⟩
  | idle =>
    refine .inl ⟨by simp only [createIologNotices, hw], ?_⟩
    cases outcome <;> simp only [droppedBy, hw, Writer.current]
  | saving r =>
    refine .inl ⟨by simp only [createIologNotices, hw], ?_⟩
    cases outcome <;> simp only [droppedBy, hw, Writer.current]

/-- A command sends the answer to a query, or nothing. -/
theorem cmdNotices_cases (env : Env) (d : Driver) (c : Notification) :
    cmdNotices env d c = [] ∨
    cmdNotices env d c = [.running (if d.bNormalRunning then 1 else 0)] ∨
    cmdNotices env d c = [⟨notifyTypeQueryLastShutdownStatus, systemrunning⟩] := by
  cases c with
  | queryRunningStatus => exact .inr (.inl rfl)
  | queryLastShutdownStatus => exact .inr (.inr rfl)
  | _ => exact .inl rfl

/-! ## The running status -/

/-- Notifications of a step that clears the flag, or that leaves it and tells it. -/
def Says (before after : Bool) (ns : List Notice) : Prop :=
  (ns = [.writeFailed] ∧ after = false) ∨
  (after = before ∧ Notice.writeFailed ∉ ns ∧
    ∀ status, .running status ∈ ns → status = if before then 1 else 0)

theorem clientError_ne_running : notifyTypeClientError ≠ notifyTypeQueryRunningStatus := by decide

theorem Says.of_others {before after : Bool} {ns : List Notice} (h : after = before)
    (hns : ∀ n ∈ ns, n ≠ .writeFailed ∧ n.type ≠ notifyTypeQueryRunningStatus) :
    Says before after ns :=
  .inr ⟨h, fun hmem => (hns _ hmem).1 rfl, fun _ hmem => absurd rfl (hns _ hmem).2⟩

theorem Says.of_nil {before after : Bool} (h : after = before) : Says before after [] :=
  .of_others h fun _ hmem => absurd hmem List.not_mem_nil

theorem leave_tells (op : Nat) (allocOk : Bool) (s : Sys) :
    Says s.driver.bNormalRunning (s.leave op allocOk).driver.bNormalRunning
      (leaveNotices op allocOk s) := by
  rcases leaveNotices_cases op allocOk s with ⟨hn, hflag⟩ | h
  · rw [hn]
    exact .of_nil hflag
  · exact .inl h

/-- The error of `file_open` may be taken for the notification of a write that is not
logged. -/
theorem createIolog_tells {filep : UInt32} (hfilep : filep ≠ UInt32.ofInt (-3))
    (outcome : LogOutcome) (s : Sys) :
    Says s.driver.bNormalRunning (s.createIolog outcome).driver.bNormalRunning
      (createIologNotices filep outcome s) := by
  have hflag : (s.createIolog outcome).driver.bNormalRunning = s.driver.bNormalRunning := by
    rcases createIolog_cases outcome s with ⟨heq, -⟩ | ⟨r, -, ⟨-, heq⟩ | ⟨-, heq⟩⟩ <;> rw [heq]
  have hsub : createIologNotices filep outcome s ⊆ [.clientError filep, .logFailed] := by
    rcases createIologNotices_cases filep outcome s with ⟨heq, -⟩ | ⟨r, -, heq | heq⟩ <;>
      rw [heq] <;> simp
  refine .of_others hflag fun n hmem => ?_
  rcases List.mem_pair.mp (hsub hmem) with rfl | rfl
  · exact ⟨fun heq => hfilep (Notice.mk.inj heq).2, clientError_ne_running⟩
  · exact ⟨by decide, by decide⟩

theorem command_tells (env : Env) (s : Sys) (c : Notification) :
    Says s.driver.bNormalRunning (processNetlinkCmd env s.driver c).1.bNormalRunning
      (cmdNotices env s.driver c) := by
  have hflag := processNetlinkCmd_flag env s.driver c
  rcases cmdNotices_cases env s.driver c with heq | heq | heq <;> rw [heq]
  · exact .of_nil hflag
  · refine .inr ⟨hflag, fun hmem => ?_, fun status hmem => ?_⟩
    · exact clientError_ne_running (congrArg Notice.type (List.mem_singleton.mp hmem))
    · exact (Notice.mk.inj (List.mem_singleton.mp hmem)).2
  · refine .of_others hflag fun n hmem => ?_
    obtain rfl := List.mem_singleton.mp hmem
    exact ⟨by decide, by decide⟩

theorem notices_tells (env : Env) (s : Sys) {ev : Event} (hev : ev ≠ .crash) {filep : UInt32}
    (hfilep : filep ≠ UInt32.ofInt (-3)) :
    Says s.driver.bNormalRunning (sysStep env s ev).driver.bNormalRunning
      (notices env s filep ev) := by
  cases ev with
  | enter ts h =>
    obtain ⟨files, sets, hframe⟩ := hookEnter_frame env ts h s.driver
    refine .of_nil ?_
    show (hookEnter env ts h s.driver).1.bNormalRunning = _
    rw [hframe]
  | perform op ret =>
    refine .of_nil ?_
    show (s.perform op ret).driver.bNormalRunning = _
    rcases perform_cases op ret s with heq | ⟨r, -, -, heq⟩ <;> rw [heq]
  | leave op allocOk => exact leave_tells op allocOk s
  | dequeue =>
    refine .of_nil ?_
    show s.dequeue.driver.bNormalRunning = _
    rcases dequeue_cases s with heq | ⟨r, rest, -, -, heq⟩ <;> rw [heq]
  | createIolog outcome => exact createIolog_tells hfilep outcome s
  | save =>
    refine .of_nil ?_
    show s.save.driver.bNormalRunning = _
    rcases save_cases s with heq | ⟨r, -, heq⟩ <;> rw [heq]
    rfl
  | crash => exact absurd rfl hev
  | command c => exact command_tells env s c

/-- Whether the driver runs normally, as it is told by the notifications issued. -/
def toldRunning (issued : List Notice) : Bool := decide (Notice.writeFailed ∉ issued)

/-- The flag is what was told, and so it was for every query that was answered. -/
structure Telling (w : Watched) : Prop where
  flag : w.sys.driver.bNormalRunning = toldRunning w.link.issued
  answers : ∀ before status after, w.link.issued = before ++ .running status :: after →
    status = if toldRunning before then 1 else 0

theorem toldRunning_append {issued ns : List Notice} (h : Notice.writeFailed ∉ ns) :
    toldRunning (issued ++ ns) = toldRunning issued := by
  simp only [toldRunning, List.mem_append, h, or_false]

/-- What is told after a step that tells what it does. -/
theorem telling_append {issued ns : List Notice} {before after : Bool}
    (hflag : before = toldRunning issued)
    (hanswers : ∀ l status l', issued = l ++ .running status :: l' →
      status = if toldRunning l then 1 else 0)
    (h : Says before after ns) :
    after = toldRunning (issued ++ ns) ∧
    ∀ l status l', issued ++ ns = l ++ .running status :: l' →
      status = if toldRunning l then 1 else 0 := by
  have hafter : after = toldRunning (issued ++ ns) := by
    rcases h with ⟨rfl, rfl⟩ | ⟨rfl, hnot, -⟩
    · simp [toldRunning]
    · rw [toldRunning_append hnot, hflag]
  refine ⟨hafter, fun l status l' heq => ?_⟩
  have hnew : ∀ m, l = issued ++ m → ns = m ++ .running status :: l' →
      status = if toldRunning l then 1 else 0 := by
    rintro m rfl hns
    have hmem : .running status ∈ ns := hns ▸ List.mem_append_right _ List.mem_cons_self
    rcases h with ⟨rfl, -⟩ | ⟨-, hnot, hanswer⟩
    · exact absurd (congrArg Notice.type (List.mem_singleton.mp hmem)).symm clientError_ne_running
    · have hm : Notice.writeFailed ∉ m := fun hin => hnot (hns ▸ List.mem_append_left _ hin)
      rw [toldRunning_append hm, ← hflag]
      exact hanswer status hmem
  rcases List.append_eq_append_iff.mp heq with ⟨m, hl, hns⟩ | ⟨m, rfl, hm⟩
  · exact hnew m hl hns
  · cases m with
    | nil => exact hnew [] (by simp) hm.symm
    | cons n m =>
      obtain ⟨rfl, rfl⟩ := List.cons.inj hm
      exact hanswers l status m rfl

theorem initMonitorSet_flag (env : Env) (cnf : Bytes) (nalloc : Nat) :
    (initMonitorSet env cnf nalloc).bNormalRunning = true := by
  have hall : ∀ {d'}, Changes env (emptyDriver cnf nalloc) d' → d'.bNormalRunning = true := by
    intro d' h
    induction h with
    | refl => rfl
    | tail _ hstep ih => exact hstep.flag.trans ih
  exact hall (loadConfig_changes env _)

theorem start_telling {s : Sys} (h : s.driver.bNormalRunning = true) : Telling (.start s) where
  flag := h
  answers before status after heq := by
    have hnil : [] = before ++ Notice.running status :: after := heq
    simp at hnil

/-- What `file_open` may answer in a step. -/
def WatchEvent.filep : WatchEvent → Option UInt32
  | .driver _ filep => some filep
  | _ => none

theorem watchStep_telling (env : Env) {w w' : Watched} {ev : WatchEvent} (hw : Delivering w)
    (ht : Telling w) (hev : ev.filep ≠ some (UInt32.ofInt (-3)))
    (h : watchStep env w ev = some w') : Telling w' := by
  have hsame : w'.sys = w.sys → w'.link.issued = w.link.issued → Telling w' := by
    intro hsys hissued
    exact ⟨by rw [hsys, hissued, ht.flag], by rw [hissued]; exact ht.answers⟩
  cases ev with
  | driver ev filep =>
    have hfilep : filep ≠ UInt32.ofInt (-3) := fun heq => hev (congrArg some heq)
    by_cases hcrash : ev = .crash
    · subst hcrash
      obtain rfl := Option.some.inj h
      exact start_telling (initMonitorSet_flag env _ _)
    · obtain ⟨hflag, hanswers⟩ := telling_append ht.flag ht.answers
        (notices_tells env w.sys hcrash hfilep)
      cases ev with
      | crash => exact absurd rfl hcrash
      | _ =>
        obtain rfl := Option.some.inj h
        exact ⟨hflag, hanswers⟩
  | netlinkToUser sender skb unicast =>
    obtain rfl := Option.some.inj h
    exact hsame rfl (post_issued _ _ _)
  | registerUserAppNotify callback =>
    obtain rfl := Option.some.inj h
    exact hsame rfl rfl
  | receive outcome =>
    rcases receive_cases hw outcome with ⟨heq, -⟩ | ⟨n, rest, -, -, heq⟩
    · obtain rfl := Option.some.inj (heq.symm.trans h)
      exact ht
    · obtain rfl := Option.some.inj (heq.symm.trans h)
      exact hsame rfl (take_issued _)

/-- In every run the notifications issued tell the flag: it is cleared exactly if one
says so, and an answer to a query is 1 exactly if none said so before. If the thread
has seen such a notification, or the answer 0, then the flag is cleared. No log file
is refused with the error -3, which the client takes for a write that is not logged. -/
theorem running_status_told (env : Env) (cnf : Bytes) (nalloc : Nat) (events : List WatchEvent)
    (hfilep : ∀ ev ∈ events, ev.filep ≠ some (UInt32.ofInt (-3))) :
    ∃ w, watchRun env cnf nalloc events = some w ∧
      (w.sys.driver.bNormalRunning = true ↔ Notice.writeFailed ∉ w.link.issued) ∧
      (∀ before status after, w.link.issued = before ++ .running status :: after →
        (status = 1 ↔ Notice.writeFailed ∉ before) ∧ (status = 0 ↔ Notice.writeFailed ∈ before)) ∧
      (Notice.writeFailed.args ∈ w.seen ∨ (Notice.running 0).args ∈ w.seen →
        w.sys.driver.bNormalRunning = false) := by
  obtain ⟨w, hw, hdel, htell⟩ := watchRun_invariant env cnf nalloc
    (start_telling (initMonitorSet_flag env cnf nalloc))
    fun _ ev hev _ hdel htell hstep => watchStep_telling env hdel htell (hfilep ev hev) hstep
  have hanswers : ∀ before status after, w.link.issued = before ++ .running status :: after →
      (status = 1 ↔ Notice.writeFailed ∉ before) ∧ (status = 0 ↔ Notice.writeFailed ∈ before) := by
    intro before status after heq
    rw [htell.answers before status after heq]
    by_cases hmem : Notice.writeFailed ∈ before <;> simp [toldRunning, hmem]
  have hflag : w.sys.driver.bNormalRunning = true ↔ Notice.writeFailed ∉ w.link.issued := by
    rw [htell.flag, toldRunning, decide_eq_true_eq]
  refine ⟨w, hw, hflag, hanswers, fun hseen => ?_⟩
  have hissued : ∀ n : Notice, n.args ∈ w.seen → n ∈ w.link.issued := by
    intro n hn
    rw [hdel.seen] at hn
    exact hdel.link.taken_subset (List.mem_map_of_injective Notice.args_injective |>.mp hn)
  rw [← Bool.not_eq_true, hflag, not_not]
  rcases hseen with hseen | hseen
  · exact hissued _ hseen
  · obtain ⟨before, after, heq⟩ := List.append_of_mem (hissued _ hseen)
    rw [heq]
    exact List.mem_append_left _ ((hanswers before 0 after heq).2.mp rfl)

/-- A write that is not logged, and a query that is answered before its notification
is sent. -/
def overtaken : List WatchEvent :=
  [.driver (.command (.addSet oneItemRequest)) 0,
    .driver (.enter ⟨0, 0⟩ (rtbVfsWrite false 0 pathAC [99] 0)) 0, .driver (.perform 0 1) 0,
    .driver (.leave 0 false) 0, .driver (.command .queryRunningStatus) 0,
    .netlinkToUser 4 (some fun _ => 0) true, .receive .packet,
    .netlinkToUser 3 (some fun _ => 0) true]

theorem running_status_told_overtaken :
    ∃ w, watchRun quietKernel [] 0 overtaken = some w ∧
      (w.sys.driver.bNormalRunning = true ↔ Notice.writeFailed ∉ w.link.issued) ∧
      (∀ before status after, w.link.issued = before ++ .running status :: after →
        (status = 1 ↔ Notice.writeFailed ∉ before) ∧ (status = 0 ↔ Notice.writeFailed ∈ before)) ∧
      (Notice.writeFailed.args ∈ w.seen ∨ (Notice.running 0).args ∈ w.seen →
        w.sys.driver.bNormalRunning = false) :=
  running_status_told quietKernel [] 0 overtaken (by decide)

/-! ## Records that are not written -/

/-- A step takes no record off the writer thread, writes the one that it has, or frees
it. -/
def Filed (s s' : Sys) (queued dropped : List LoggedOp) : Prop :=
  (s'.writer.current ++ s'.queue = s.writer.current ++ (s.queue ++ queued) ∧
    s'.written = s.written ∧ dropped = []) ∨
  ∃ r, s.writer.current = [r] ∧ s'.writer.current ++ s'.queue = s.queue ∧ queued = [] ∧
    (s'.written = s.written ++ [r] ∧ dropped = [] ∨ s'.written = s.written ∧ dropped = [r])

theorem Filed.of_eq {s s' : Sys}
    (h : s'.writer.current ++ s'.queue = s.writer.current ++ s.queue)
    (hwritten : s'.written = s.written) : Filed s s' [] [] :=
  .inl ⟨by rw [h, List.append_nil], hwritten, rfl⟩

theorem leave_filed (op : Nat) (allocOk : Bool) (s : Sys) :
    Filed s (s.leave op allocOk) (queuedBy s (.leave op allocOk)) [] := by
  have hqueue : (s.leave op allocOk).queue =
      s.queue ++ (s.leave op allocOk).queue.drop s.queue.length := by
    rcases leave_cases op allocOk s with ⟨heq, -⟩ | ⟨r, -, ret, -, -, heq⟩ <;> rw [heq]
    · rw [List.drop_length, List.append_nil]
    · rw [List.drop_left]
  rcases leave_cases op allocOk s with ⟨heq, -⟩ | ⟨r, -, ret, -, -, heq⟩
  all_goals
    refine .inl ⟨?_, by rw [heq], rfl⟩
    rw [queuedBy, ← hqueue, heq]

theorem createIolog_filed (outcome : LogOutcome) (s : Sys) :
    Filed s (s.createIolog outcome) [] (droppedBy s (.createIolog outcome)) := by
  rcases createIolog_cases outcome s with ⟨heq, hnot⟩ | ⟨r, hw, ⟨hout, heq⟩ | ⟨rfl, heq⟩⟩
  · have hnone : droppedBy s (.createIolog outcome) = [] := by
      cases hw : s.writer with
      | writing r => exact absurd hw (hnot r)
      | idle => cases outcome <;> simp only [droppedBy, hw, Writer.current]
      | saving r => cases outcome <;> simp only [droppedBy, hw, Writer.current]
    rw [heq, hnone]
    exact .of_eq rfl rfl
  · refine .inr ⟨r, by rw [hw, Writer.current], by rw [heq]; rfl, rfl, .inr ⟨by rw [heq], ?_⟩⟩
    cases outcome with
    | complete => exact absurd rfl hout
    | _ => simp only [droppedBy, hw, Writer.current]
  · exact .inr ⟨r, by rw [hw, Writer.current], by rw [heq]; rfl, rfl, .inl ⟨by rw [heq], rfl⟩⟩

theorem sysStep_filed (env : Env) (s : Sys) {ev : Event} (hev : ev ≠ .crash) :
    Filed s (sysStep env s ev) (queuedBy s ev) (droppedBy s ev) := by
  cases ev with
  | enter ts h => exact .of_eq rfl rfl
  | perform op ret =>
    show Filed s (s.perform op ret) [] []
    rcases perform_cases op ret s with heq | ⟨r, -, -, heq⟩ <;> rw [heq] <;> exact .of_eq rfl rfl
  | leave op allocOk => exact leave_filed op allocOk s
  | dequeue =>
    show Filed s s.dequeue [] []
    rcases dequeue_cases s with heq | ⟨r, rest, hw, hq, heq⟩ <;> rw [heq]
    · exact .of_eq rfl rfl
    · refine .of_eq ?_ rfl
      rw [hw, hq]
      rfl
  | createIolog outcome => exact createIolog_filed outcome s
  | save =>
    show Filed s s.save [] []
    rcases save_cases s with heq | ⟨r, hw, heq⟩ <;> rw [heq]
    · exact .of_eq rfl rfl
    · refine .of_eq ?_ rfl
      rw [hw]
      rfl
  | crash => exact absurd rfl hev
  | command c => exact .of_eq rfl rfl

/-- A record that is freed is told of, once unless the error of `file_open` is -2 too. -/
theorem count_logFailed (env : Env) (s : Sys) (filep : UInt32) (ev : Event) :
    (droppedBy s ev).length ≤ (notices env s filep ev).count .logFailed ∧
    (filep ≠ UInt32.ofInt (-2) →
      (droppedBy s ev).length = (notices env s filep ev).count .logFailed) := by
  have hone : [Notice.logFailed].count .logFailed = 1 := by decide
  have hnil : ∀ {ns : List Notice}, Notice.logFailed ∉ ns → droppedBy s ev = [] →
      (droppedBy s ev).length ≤ ns.count .logFailed ∧
      (filep ≠ UInt32.ofInt (-2) → (droppedBy s ev).length = ns.count .logFailed) := by
    intro ns hns hdropped
    rw [hdropped, List.count_eq_zero.mpr hns]
    exact ⟨Nat.le_refl _, fun _ => rfl⟩
  cases ev with
  | leave op allocOk =>
    refine hnil ?_ rfl
    show _ ∉ leaveNotices op allocOk s
    rcases leaveNotices_cases op allocOk s with ⟨heq, -⟩ | ⟨heq, -⟩ <;> rw [heq] <;> decide
  | createIolog outcome =>
    show _ ≤ (createIologNotices filep outcome s).count _ ∧
      (_ → _ = (createIologNotices filep outcome s).count _)
    rcases createIologNotices_cases filep outcome s with ⟨heq, hd⟩ | ⟨r, hd, heq | heq⟩ <;>
      rw [heq, hd]
    · exact ⟨Nat.le_refl _, fun _ => rfl⟩
    · have hcount : [Notice.clientError filep, .logFailed].count .logFailed =
          [Notice.clientError filep].count .logFailed + 1 := by
        rw [← List.singleton_append, List.count_append, hone]
      refine ⟨by rw [hcount]; exact Nat.le_add_left _ _, fun hfilep => ?_⟩
      have hne : Notice.logFailed ∉ [Notice.clientError filep] := fun hmem =>
        hfilep (Notice.mk.inj (List.mem_singleton.mp hmem)).2.symm
      rw [hcount, List.count_eq_zero.mpr hne]
      rfl
    · rw [hone]
      exact ⟨Nat.le_refl _, fun _ => rfl⟩
  | command c =>
    refine hnil ?_ rfl
    show _ ∉ cmdNotices env s.driver c
    rcases cmdNotices_cases env s.driver c with heq | heq | heq <;> rw [heq]
    · exact List.not_mem_nil
    · exact fun hmem =>
        clientError_ne_running (congrArg Notice.type (List.mem_singleton.mp hmem))
    · decide
  | _ => exact hnil List.not_mem_nil rfl

/-- The records queued are those that were written or freed, in the order in which
they were queued, and behind these those that wait. -/
def InOrder (queued dropped : List LoggedOp) (s : Sys) : Prop :=
  ∃ done, queued = done ++ (s.writer.current ++ s.queue) ∧ s.written.Sublist done ∧
    dropped.Sublist done ∧ done.Perm (s.written ++ dropped)

theorem inOrder_start {s : Sys} (h : s.writer.current ++ s.queue = []) :
    InOrder s.written [] s :=
  ⟨s.written, by rw [h, List.append_nil], List.Sublist.refl _, List.nil_sublist _,
    by rw [List.append_nil]⟩

theorem InOrder.filed {queued dropped queued' dropped' : List LoggedOp} {s s' : Sys}
    (h : InOrder queued dropped s) (hstep : Filed s s' queued' dropped') :
    InOrder (queued ++ queued') (dropped ++ dropped') s' := by
  obtain ⟨done, rfl, hwritten, hdropped, hperm⟩ := h
  rcases hstep with ⟨hwait, hw, rfl⟩ | ⟨r, hcurrent, hwait, rfl, hout⟩
  · refine ⟨done, ?_, ?_, ?_, ?_⟩
    · rw [hwait, List.append_assoc, List.append_assoc]
    · rwa [hw]
    · rwa [List.append_nil]
    · rwa [hw, List.append_nil]
  · have hqueued : done ++ (s.writer.current ++ s.queue) ++ [] =
        (done ++ [r]) ++ (s'.writer.current ++ s'.queue) := by
      rw [hcurrent, hwait, List.append_nil, List.append_assoc]
    have hone : [r].Sublist [r] := List.Sublist.refl _
    have hnil : ([] : List LoggedOp).Sublist [r] := List.nil_sublist _
    rcases hout with ⟨hw, rfl⟩ | ⟨hw, rfl⟩
    · refine ⟨done ++ [r], hqueued, ?_, ?_, ?_⟩
      · rw [hw]
        exact hwritten.append hone
      · exact hdropped.append hnil
      · rw [hw, List.append_nil, List.append_assoc]
        refine (hperm.append_right [r]).trans ?_
        rw [List.append_assoc]
        exact List.perm_append_comm.append_left _
    · refine ⟨done ++ [r], hqueued, ?_, hdropped.append hone, ?_⟩
      · rw [hw, ← List.append_nil s.written]
        exact hwritten.append hnil
      · rw [hw, ← List.append_assoc]
        exact hperm.append_right [r]

/-- Every record that is freed is told of, once if no error of `file_open` is -2. -/
structure Filing (events : List WatchEvent) (w : Watched) : Prop where
  order : InOrder w.queued w.dropped w.sys
  told : w.dropped.length ≤ w.link.issued.count .logFailed
  once : (∀ ev ∈ events, ev.filep ≠ some (UInt32.ofInt (-2))) →
    w.dropped.length = w.link.issued.count .logFailed

theorem start_filing (events : List WatchEvent) {s : Sys} (h : s.writer.current ++ s.queue = []) :
    Filing events (.start s) :=
  ⟨inOrder_start h, Nat.le_refl _, fun _ => rfl⟩

theorem watchStep_filing (env : Env) {events : List WatchEvent} {w w' : Watched} {ev : WatchEvent}
    (hmem : ev ∈ events) (hw : Delivering w) (hf : Filing events w)
    (h : watchStep env w ev = some w') : Filing events w' := by
  have hsame : w'.sys = w.sys → w'.queued = w.queued → w'.dropped = w.dropped →
      w'.link.issued = w.link.issued → Filing events w' := by
    intro hsys hqueued hdropped hissued
    refine ⟨?_, ?_, ?_⟩ <;> rw [hdropped]
    · rw [hqueued, hsys]
      exact hf.order
    · rw [hissued]
      exact hf.told
    · rw [hissued]
      exact hf.once
  cases ev with
  | driver ev filep =>
    by_cases hcrash : ev = .crash
    · subst hcrash
      obtain rfl := Option.some.inj h
      exact start_filing events rfl
    · have horder := hf.order.filed (sysStep_filed env w.sys hcrash)
      obtain ⟨hle, heq⟩ := count_logFailed env w.sys filep ev
      have hfiling : Filing events { w with
          sys := sysStep env w.sys ev
          link := w.link.issue (notices env w.sys filep ev)
          queued := w.queued ++ queuedBy w.sys ev
          dropped := w.dropped ++ droppedBy w.sys ev } := by
        refine ⟨horder, ?_, fun hall => ?_⟩ <;>
          simp only [Link.issue, List.length_append, List.count_append]
        · exact Nat.add_le_add hf.told hle
        · rw [hf.once hall, heq fun hfilep => hall _ hmem (congrArg some hfilep)]
      cases ev with
      | crash => exact absurd rfl hcrash
      | _ =>
        obtain rfl := Option.some.inj h
        exact hfiling
  | netlinkToUser sender skb unicast =>
    obtain rfl := Option.some.inj h
    exact hsame rfl rfl rfl (post_issued _ _ _)
  | registerUserAppNotify callback =>
    obtain rfl := Option.some.inj h
    exact hsame rfl rfl rfl rfl
  | receive outcome =>
    rcases receive_cases hw outcome with ⟨heq, -⟩ | ⟨n, rest, -, -, heq⟩
    · obtain rfl := Option.some.inj (heq.symm.trans h)
      exact hf
    · obtain rfl := Option.some.inj (heq.symm.trans h)
      exact hsame rfl rfl rfl (take_issued _)

/-- In every run each record that was queued is waiting, being written, completely
written, or freed, and the writer thread goes through them in order. The client is
told of each that is freed, so none was if no notification -2 was issued. There are
as many of these as records freed, unless `file_open` answers -2. -/
theorem dropped_records_told (env : Env) (cnf : Bytes) (nalloc : Nat) (events : List WatchEvent) :
    ∃ w, watchRun env cnf nalloc events = some w ∧
      w.queued.Perm (w.sys.records ++ w.dropped) ∧
      (∃ done, w.queued = done ++ (w.sys.writer.current ++ w.sys.queue) ∧
        w.sys.written.Sublist done ∧ w.dropped.Sublist done) ∧
      w.dropped.length ≤ w.link.issued.count .logFailed ∧
      ((∀ ev ∈ events, ev.filep ≠ some (UInt32.ofInt (-2))) →
        w.dropped.length = w.link.issued.count .logFailed) := by
  obtain ⟨w, hw, -, hf⟩ := watchRun_invariant env cnf nalloc
    (I := Filing events) (start_filing events rfl)
    fun _ _ hmem _ hdel hf hstep => watchStep_filing env hmem hdel hf hstep
  obtain ⟨done, hqueued, hwritten, hdropped, hperm⟩ := hf.order
  refine ⟨w, hw, ?_, ⟨done, hqueued, hwritten, hdropped⟩, hf.told, hf.once⟩
  rw [hqueued]
  refine (hperm.append_right _).trans ?_
  simp only [Sys.records]
  grind

end RtBackup
