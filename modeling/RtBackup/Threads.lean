import RtBackup.Numbers

/-!
# Hooks and the writer thread (`hookvfs.c`, `iowritethread.c`, `createiolog.c`)

Hooks run in any number of processes at once. Each takes its number, calls the
original function, and appends its record and returns. The writer thread takes
the oldest record off the queue, writes it to its log file and saves the
configuration. Between any two of these steps a command may come, or a crash
after which the configuration is loaded again.

Beside the driver the state carries a history: what each record belongs to, the
numbers handed out, and the order in which the original functions ran. No step
of the driver looks at it.

Results:
1. `enter_cases`, `perform_cases`, `leave_cases`, `dequeue_cases`,
   `createIolog_cases`, `save_cases`: what each step can do.
2. `sysStep_sound`: the queue of the driver is the one of the history, no two
   records are of one operation, and every record carries the number that its
   operation took.
-/

namespace RtBackup

open ByteFile SearchTree Runs

/-! ## State -/

/-- A number that a hook obtained: for which operation, and from which set at
which address. A number from the memory of a freed set has no address. -/
structure Ticket where
  op : Nat
  guidSetId : GUID
  pmse : Option Nat
  seqNo : SeqNo
deriving DecidableEq

/-- `ullGolbalSeqNo`. -/
def Ticket.number (t : Ticket) : Nat := t.seqNo.ullGlobalSeqNo.toNat

/-- A hooked operation that has not returned. -/
structure Running where
  op : Nat
  hook : Hook
  entered : Entered
  ticket : Option Ticket
  /-- What the original function returned, once it has run. -/
  ret : Option Int

/-- A record and the operation it is of. -/
structure LoggedOp where
  op : Nat
  ticket : Option Ticket
  piowc : IowriteContext
deriving DecidableEq

/-- Where the writer thread stands. -/
inductive Writer where
  | idle
  /-- Before `createiolog` of a record that it took off the queue. -/
  | writing (r : LoggedOp)
  /-- In `createiolog`, between the log file and `SaveConfig`. -/
  | saving (r : LoggedOp)
deriving DecidableEq

def Writer.current : Writer → List LoggedOp
  | .writing r => [r]
  | .idle | .saving _ => []

/-- A step that the history records. -/
inductive Moment where
  | numbered (t : Ticket)
  | performed (t : Ticket)
deriving DecidableEq

def Moment.ticket : Moment → Ticket
  | .numbered t | .performed t => t

structure Sys where
  driver : Driver
  running : List Running
  queue : List LoggedOp
  writer : Writer
  /-- The log files that were completely written. -/
  written : List LoggedOp
  history : List Moment
  /-- The numbers of the hooks that have returned. -/
  returned : List Ticket
  /-- The number of hooks called so far. -/
  nops : Nat

/-- The records that are queued, being written, or completely written. -/
def Sys.records (s : Sys) : List LoggedOp := s.queue ++ s.writer.current ++ s.written

/-- The system after `InitMonitorSet`. -/
def Sys.start (env : Env) (cnf : Bytes) (nalloc : Nat) : Sys where
  driver := initMonitorSet env cnf nalloc
  running := []
  queue := []
  writer := .idle
  written := []
  history := []
  returned := []
  nops := 0

/-! ## Steps -/

/-- The number that a hook obtains. -/
def ticketOf (env : Env) (ts : Timespec) (h : Hook) (op : Nat) (d : Driver) : Option Ticket :=
  match hookTarget d h with
  | none => none
  | some e =>
    match numberedSet env d e, (getMonitorFileSeqNoByMonitorFileEntry env ts e d).2 with
    | some s, .ok seqNo => some ⟨op, s.guidSetId, some s.addr, seqNo⟩
    | none, .ok seqNo => some ⟨op, e.guidSetId, none, seqNo⟩
    | _, .failed _ => none

/-- A hook up to the original function. -/
def Sys.enter (env : Env) (ts : Timespec) (h : Hook) (s : Sys) : Sys :=
  { s with
    driver := (hookEnter env ts h s.driver).1
    running := s.running ++
      [⟨s.nops, h, (hookEnter env ts h s.driver).2, ticketOf env ts h s.nops s.driver, none⟩]
    history := s.history ++ (ticketOf env ts h s.nops s.driver).toList.map .numbered
    nops := s.nops + 1 }

/-- The original function of a hook. -/
def Sys.perform (op : Nat) (ret : Int) (s : Sys) : Sys :=
  match s.running.find? fun r => r.op = op ∧ r.ret = none with
  | none => s
  | some r =>
    { s with
      running := s.running.map fun q => if q.op = op then { q with ret := some ret } else q
      history := s.history ++ r.ticket.toList.map .performed }

/-- The record that a hook appends after the original function. -/
def appended (allocOk : Bool) (ret : Int) (h : Hook) : Entered → List IowriteContext
  | .logged seqNo => if allocOk then [h.recordOf ret seqNo] else []
  | .bypass | .unlogged => []

/-- A hook from the original function to its return. -/
def Sys.leave (op : Nat) (allocOk : Bool) (s : Sys) : Sys :=
  match s.running.find? fun r => r.op = op ∧ r.ret ≠ none with
  | some ⟨_, h, entered, ticket, some ret⟩ =>
    { s with
      driver := hookExit allocOk ret h entered s.driver
      running := s.running.filter fun q => q.op ≠ op
      queue := s.queue ++ (appended allocOk ret h entered).map (⟨op, ticket, ·⟩)
      returned := s.returned ++ ticket.toList }
  | _ => s

/-- The writer thread takes the oldest record off the queue. -/
def Sys.dequeue (s : Sys) : Sys :=
  match s.writer, s.queue with
  | .idle, r :: rest =>
    { s with
      driver := { s.driver with iowritequeue := s.driver.iowritequeue.tail }
      queue := rest
      writer := .writing r }
  | _, _ => s

/-- How `createiolog` fares with the log file. -/
inductive LogOutcome where
  | openFailed
  | shortWrite
  | complete
deriving DecidableEq

/-- `createiolog` up to `SaveConfig`. After a failure the record is freed and
the client is notified. -/
def Sys.createIolog (outcome : LogOutcome) (s : Sys) : Sys :=
  match s.writer, outcome with
  | .writing _, .openFailed | .writing _, .shortWrite => { s with writer := .idle }
  | .writing r, .complete => { s with writer := .saving r, written := s.written ++ [r] }
  | _, _ => s

/-- The `SaveConfig` of `createiolog`. -/
def Sys.save (s : Sys) : Sys :=
  match s.writer with
  | .saving _ => { s with driver := saveConfig s.driver, writer := .idle }
  | _ => s

/-- A crash and the next start of the driver. -/
def Sys.crash (env : Env) (s : Sys) : Sys :=
  { s with
    driver := initMonitorSet env s.driver.cnf s.driver.nalloc
    running := []
    queue := []
    writer := .idle }

inductive Event where
  | enter (ts : Timespec) (h : Hook)
  | perform (op : Nat) (ret : Int)
  | leave (op : Nat) (allocOk : Bool)
  | dequeue
  | createIolog (outcome : LogOutcome)
  | save
  | crash
  | command (c : Notification)

def sysStep (env : Env) (s : Sys) : Event → Sys
  | .enter ts h => s.enter env ts h
  | .perform op ret => s.perform op ret
  | .leave op allocOk => s.leave op allocOk
  | .dequeue => s.dequeue
  | .createIolog outcome => s.createIolog outcome
  | .save => s.save
  | .crash => s.crash env
  | .command c => { s with driver := (processNetlinkCmd env s.driver c).1 }

/-- The number that a step hands out. -/
def handedOut (env : Env) (s : Sys) : Event → Option Ticket
  | .enter ts h => ticketOf env ts h s.nops s.driver
  | _ => none

/-! ## What a hook does at its start -/

/-- Up to the original function a hook changes entries only. -/
theorem hookEnter_frame (env : Env) (ts : Timespec) (h : Hook) (d : Driver) :
    ∃ files sets, (hookEnter env ts h d).1 =
      { d with monitorFiles.rbTree := files, monitorSet.rbTree := sets } := by
  have htake : ∀ (e : MonitorFileEntry) pmse (d' : Driver), ∃ files sets,
      (takeSeqNo env ts e pmse d').1 =
        { d' with monitorFiles.rbTree := files, monitorSet.rbTree := sets } := by
    intro e pmse d'
    unfold takeSeqNo
    split
    · exact ⟨_, _, rfl⟩
    · exact ⟨_, _, rfl⟩
  rcases hookEnter_cases env ts h d with ⟨-, heq | heq⟩ | ⟨e, -, -, heq, -⟩
  · exact ⟨_, _, congrArg Prod.fst heq⟩
  · exact ⟨_, _, congrArg Prod.fst heq⟩
  · rw [heq]
    unfold getMonitorFileSeqNoByMonitorFileEntry
    split
    · exact htake e _ d
    · split
      · exact ⟨_, _, rfl⟩
      · next s _ =>
        obtain ⟨files, sets, h'⟩ := htake e s.addr
          (d.updFile e.addr fun e => { e with pSetEntry := some s.addr })
        exact ⟨files, sets, h'⟩

/-- A hook obtains no number, or one from the memory of a freed set, and leaves the
sets, or it obtains the number of a set and advances the counter of this set. -/
theorem enter_cases (env : Env) (ts : Timespec) (h : Hook) (op : Nat) {d : Driver} (hw : d.WF) :
    ((∀ e ∈ hookTarget d h, numberedSet env d e = none) ∧
      (hookEnter env ts h d).1.sets = d.sets ∧
      (ticketOf env ts h op d = none ∨ ∃ guid seqNo,
        ticketOf env ts h op d = some ⟨op, guid, none, seqNo⟩ ∧
          (hookEnter env ts h d).2 = .logged seqNo)) ∨
    ∃ e ∈ hookTarget d h, ∃ s ∈ d.sets, numberedSet env d e = some s ∧
      ∃ seqNo, ticketOf env ts h op d = some ⟨op, s.guidSetId, some s.addr, seqNo⟩ ∧
        seqNo.ullGlobalSeqNo = s.ullSetSeqNo ∧ seqNo.iologdir = s.wcsSetCacheDir.toCString ∧
        (hookEnter env ts h d).2 = .logged seqNo ∧
        (hookEnter env ts h d).1.sets = d.sets.map fun t => if t = s then s.next else t := by
  rcases hookEnter_cases env ts h d with ⟨hn, heq | heq⟩ | ⟨e, htarget, -, h1, h2⟩
  · refine .inl ⟨by simp [hn], by rw [heq], .inl ?_⟩
    simp only [ticketOf, hn]
  · refine .inl ⟨by simp [hn], by rw [heq], .inl ?_⟩
    simp only [ticketOf, hn]
  · have he := hookTarget_sound htarget
    rcases getSeqNo_cases env ts hw he with
      ⟨hnone, -, hseq⟩ | ⟨a, hnone, -, hseq⟩ | ⟨s, hs, hset, d₁, -, hsets, hd₁, hseq⟩
    · refine .inl ⟨fun e' he' => ?_, by rw [h1, hseq], .inl ?_⟩
      · obtain rfl : e = e' := Option.some.inj (htarget.symm.trans he')
        exact hnone
      · simp only [ticketOf, htarget, hseq]
    · refine .inl ⟨fun e' he' => ?_, ?_, .inr ⟨e.guidSetId, _, ?_, by rw [h2, hseq]⟩⟩
      · obtain rfl : e = e' := Option.some.inj (htarget.symm.trans he')
        exact hnone
      · rw [h1, hseq]
        rfl
      · simp only [ticketOf, htarget, hnone, hseq]
    · refine .inr ⟨e, htarget, s, hs, hset, _, ?_, rfl, rfl, by rw [h2, hseq], ?_⟩
      · simp only [ticketOf, htarget, hset, hseq]
      · rw [h1, hseq]
        exact sets_advance hw hs hsets e

/-! ## What the other steps do -/

theorem perform_cases (op : Nat) (ret : Int) (s : Sys) :
    s.perform op ret = s ∨
    ∃ r ∈ s.running, r.op = op ∧ s.perform op ret =
      { s with
        running := s.running.map fun q => if q.op = op then { q with ret := some ret } else q
        history := s.history ++ r.ticket.toList.map .performed } := by
  unfold Sys.perform
  split
  · exact .inl rfl
  · next r hr =>
    have hop := List.find?_some hr
    rw [decide_eq_true_eq] at hop
    exact .inr ⟨r, List.mem_of_find?_eq_some hr, hop.1, rfl⟩

theorem leave_cases (op : Nat) (allocOk : Bool) (s : Sys) :
    (s.leave op allocOk = s ∧ ∀ r ∈ s.running, r.op = op → r.ret = none) ∨
    ∃ r ∈ s.running, ∃ ret, r.op = op ∧ r.ret = some ret ∧ s.leave op allocOk =
      { s with
        driver := hookExit allocOk ret r.hook r.entered s.driver
        running := s.running.filter fun q => q.op ≠ op
        queue := s.queue ++ (appended allocOk ret r.hook r.entered).map (⟨op, r.ticket, ·⟩)
        returned := s.returned ++ r.ticket.toList } := by
  unfold Sys.leave
  split
  · next h entered ticket ret hr =>
    have hop := List.find?_some hr
    rw [decide_eq_true_eq] at hop
    exact .inr ⟨_, List.mem_of_find?_eq_some hr, ret, hop.1, rfl, rfl⟩
  · next hnot =>
    refine .inl ⟨rfl, ?_⟩
    cases hf : s.running.find? fun r => r.op = op ∧ r.ret ≠ none with
    | none =>
      intro r hr hop
      have hr' := List.find?_eq_none.mp hf r hr
      simpa [hop] using hr'
    | some r =>
      obtain ⟨op', h, entered, ticket, ret⟩ := r
      cases ret with
      | none => simpa using List.find?_some hf
      | some ret => exact absurd hf (hnot _ _ _ _ _)

theorem dequeue_cases (s : Sys) :
    s.dequeue = s ∨
    ∃ r rest, s.writer = .idle ∧ s.queue = r :: rest ∧ s.dequeue =
      { s with
        driver := { s.driver with iowritequeue := s.driver.iowritequeue.tail }
        queue := rest
        writer := .writing r } := by
  unfold Sys.dequeue
  split
  · next r rest hw hq => exact .inr ⟨r, rest, hw, hq, rfl⟩
  · exact .inl rfl

theorem createIolog_cases (outcome : LogOutcome) (s : Sys) :
    (s.createIolog outcome = s ∧ ∀ r, s.writer ≠ .writing r) ∨
    ∃ r, s.writer = .writing r ∧
      (outcome ≠ .complete ∧ s.createIolog outcome = { s with writer := .idle } ∨
        outcome = .complete ∧
          s.createIolog outcome = { s with writer := .saving r, written := s.written ++ [r] }) := by
  cases hw : s.writer with
  | idle => exact .inl ⟨by simp only [Sys.createIolog, hw], fun _ h => nomatch h⟩
  | saving r => exact .inl ⟨by simp only [Sys.createIolog, hw], fun _ h => nomatch h⟩
  | writing r =>
    refine .inr ⟨r, rfl, ?_⟩
    cases outcome with
    | openFailed => exact .inl ⟨by decide, by simp only [Sys.createIolog, hw]⟩
    | shortWrite => exact .inl ⟨by decide, by simp only [Sys.createIolog, hw]⟩
    | complete => exact .inr ⟨rfl, by simp only [Sys.createIolog, hw]⟩

theorem save_cases (s : Sys) :
    s.save = s ∨
    ∃ r, s.writer = .saving r ∧ s.save = { s with driver := saveConfig s.driver, writer := .idle } := by
  cases hw : s.writer with
  | idle => exact .inl (by simp only [Sys.save, hw])
  | writing r => exact .inl (by simp only [Sys.save, hw])
  | saving r => exact .inr ⟨r, rfl, by simp only [Sys.save, hw]⟩

/-! ## Integrity of the history -/

/-- At its end a hook appends its record to the queue of the driver. -/
theorem hookExit_queue (allocOk : Bool) (ret : Int) (h : Hook) (entered : Entered) (d : Driver) :
    (hookExit allocOk ret h entered d).iowritequeue =
      d.iowritequeue ++ appended allocOk ret h entered := by
  have hcheck : ∀ iret (d' : Driver), (checkIret h iret d').iowritequeue = d'.iowritequeue := by
    intro iret d'
    rcases checkIret_cases h iret d' with hd | hd <;> rw [hd]
  cases entered with
  | bypass => exact (List.append_nil _).symm
  | unlogged =>
    rw [hookExit, hcheck]
    exact (List.append_nil _).symm
  | logged seqNo =>
    rw [hookExit, hcheck]
    cases allocOk with
    | true => rfl
    | false => exact (List.append_nil _).symm

/-- The operations under way and those with a record. -/
def Sys.ops (s : Sys) : List Nat := s.running.map (·.op) ++ s.records.map (·.op)

structure Sys.Sound (s : Sys) : Prop where
  wf : s.driver.WF
  queue_eq : s.driver.iowritequeue = s.queue.map (·.piowc)
  ops_nodup : s.ops.Nodup
  ops_lt : ∀ op ∈ s.ops, op < s.nops
  running_ticket : ∀ r ∈ s.running, ∀ t, r.ticket = some t →
    t.op = r.op ∧ r.entered = .logged t.seqNo
  stamped : ∀ r ∈ s.records, ∀ t, r.ticket = some t →
    t.op = r.op ∧ ∃ fields, r.piowc = logRecord t.seqNo fields

theorem start_sound (env : Env) (cnf : Bytes) (nalloc : Nat) : (Sys.start env cnf nalloc).Sound where
  wf := initMonitorSet_wf env cnf nalloc
  queue_eq := ((loadConfig_changes env _).keeps (emptyDriver_wf cnf nalloc)).queue
  ops_nodup := List.nodup_nil
  ops_lt _ h := absurd h List.not_mem_nil
  running_ticket _ h := absurd h List.not_mem_nil
  stamped _ h := absurd h List.not_mem_nil

theorem nodup_of_subperm {l m : List Nat} (h : l.Subperm m) (hm : m.Nodup) : l.Nodup := by
  obtain ⟨l', hperm, hsub⟩ := h
  exact hperm.nodup_iff.mp (hm.sublist hsub)

theorem enter_sound (env : Env) (ts : Timespec) (h : Hook) {s : Sys} (hs : s.Sound) :
    (s.enter env ts h).Sound := by
  obtain ⟨files, sets, hframe⟩ := hookEnter_frame env ts h s.driver
  have hperm : (s.enter env ts h).ops.Perm (s.nops :: s.ops) := by
    show List.Perm ((s.running ++ [_]).map Running.op ++ s.records.map LoggedOp.op) _
    rw [List.map_append, List.append_assoc]
    exact List.perm_middle
  refine ⟨hookEnter_wf env ts h hs.wf, ?_, ?_, ?_, ?_, hs.stamped⟩
  · show (hookEnter env ts h s.driver).1.iowritequeue = s.queue.map (·.piowc)
    rw [hframe]
    exact hs.queue_eq
  · rw [hperm.nodup_iff, List.nodup_cons]
    exact ⟨fun hin => Nat.lt_irrefl _ (hs.ops_lt _ hin), hs.ops_nodup⟩
  · intro op hop
    rcases List.mem_cons.mp (hperm.mem_iff.mp hop) with rfl | hold
    · exact Nat.lt_succ_self _
    · exact Nat.lt_succ_of_lt (hs.ops_lt op hold)
  · intro r hr t ht
    rcases List.mem_append.mp hr with hold | hnew
    · exact hs.running_ticket r hold t ht
    · obtain rfl := List.mem_singleton.mp hnew
      rcases enter_cases env ts h s.nops hs.wf with
        ⟨-, -, hnone | ⟨guid, seqNo, hsome, hlog⟩⟩ | ⟨-, -, m, -, -, seqNo, hsome, -, -, hlog, -⟩
      · simp [hnone] at ht
      · obtain rfl := Option.some.inj (hsome.symm.trans ht)
        exact ⟨rfl, hlog⟩
      · obtain rfl := Option.some.inj (hsome.symm.trans ht)
        exact ⟨rfl, hlog⟩

theorem perform_sound (op : Nat) (ret : Int) {s : Sys} (hs : s.Sound) :
    (s.perform op ret).Sound := by
  rcases perform_cases op ret s with heq | ⟨r, -, -, heq⟩
  · rw [heq]
    exact hs
  · have hops : (s.perform op ret).ops = s.ops := by
      rw [heq, Sys.ops, Sys.ops, List.map_map]
      refine congrArg (· ++ _) (List.map_congr_left fun q _ => ?_)
      simp only [Function.comp_apply]
      split <;> rfl
    refine ⟨?_, ?_, hops ▸ hs.ops_nodup, ?_, ?_, ?_⟩
    · rw [heq]
      exact hs.wf
    · rw [heq]
      exact hs.queue_eq
    · rw [hops, heq]
      exact hs.ops_lt
    · rw [heq]
      intro q hq t ht
      obtain ⟨p, hp, rfl⟩ := List.mem_map.mp hq
      split at ht
      · next hop =>
        rw [if_pos hop]
        exact hs.running_ticket p hp t ht
      · next hop =>
        rw [if_neg hop]
        exact hs.running_ticket p hp t ht
    · rw [heq]
      exact hs.stamped

/-- The record of a returning hook, if it appends one. -/
theorem mem_appended {allocOk : Bool} {ret : Int} {h : Hook} {entered : Entered}
    {piowc : IowriteContext} (hp : piowc ∈ appended allocOk ret h entered) :
    ∃ seqNo, entered = .logged seqNo ∧ appended allocOk ret h entered = [piowc] ∧
      piowc = h.recordOf ret seqNo := by
  cases entered with
  | logged seqNo =>
    cases allocOk with
    | true =>
      obtain rfl := List.mem_singleton.mp hp
      exact ⟨seqNo, rfl, rfl, rfl⟩
    | false => exact absurd hp List.not_mem_nil
  | bypass => exact absurd hp List.not_mem_nil
  | unlogged => exact absurd hp List.not_mem_nil

/-- When an operation returns, its record takes its place. -/
theorem leave_ops {s : Sys} {r : Running} (hr : r ∈ s.running) (hnd : s.ops.Nodup)
    (new : List LoggedOp) (hnew : ∀ x ∈ new, x.op = r.op) (hone : new.length ≤ 1) :
    ((s.running.filter fun q => q.op ≠ r.op).map (·.op) ++
      (s.queue ++ new ++ s.writer.current ++ s.written).map (·.op)).Subperm s.ops := by
  have hrun : (new.map (·.op) ++ (s.running.filter fun q => q.op ≠ r.op).map (·.op)).Subperm
      (s.running.map (·.op)) := by
    have hsub := (List.filter_sublist (p := fun q : Running => decide (q.op ≠ r.op))
      (l := s.running)).map (·.op)
    have hnd' : (s.running.map (·.op)).Nodup := (List.nodup_append.mp hnd).1
    match new, hone with
    | [], _ => exact hsub.subperm
    | [x], _ =>
      have hx : x.op = r.op := hnew x List.mem_cons_self
      refine List.subperm_of_subset ?_ ?_
      · refine List.nodup_cons.mpr ⟨fun hin => ?_, hnd'.sublist hsub⟩
        obtain ⟨q, hq, hqx⟩ := List.mem_map.mp hin
        exact of_decide_eq_true (List.mem_filter.mp hq).2 (hqx.trans hx)
      · intro op hop
        rcases List.mem_cons.mp hop with rfl | hin
        · exact List.mem_map.mpr ⟨r, hr, hx.symm⟩
        · exact hsub.subset hin
  have hperm : ((s.running.filter fun q => q.op ≠ r.op).map (·.op) ++
      (s.queue ++ new ++ s.writer.current ++ s.written).map (·.op)).Perm
      ((new.map (·.op) ++ (s.running.filter fun q => q.op ≠ r.op).map (·.op)) ++
        s.records.map (·.op)) := by
    simp only [Sys.records, List.map_append]
    grind
  exact hperm.subperm.trans (hrun.append (List.Subperm.refl _))

theorem leave_sound (op : Nat) (allocOk : Bool) {s : Sys} (hs : s.Sound) :
    (s.leave op allocOk).Sound := by
  rcases leave_cases op allocOk s with ⟨heq, -⟩ | ⟨r, hr, ret, rfl, hret, heq⟩
  · rw [heq]
    exact hs
  · have hone : ((appended allocOk ret r.hook r.entered).map (LoggedOp.mk r.op r.ticket)).length
        ≤ 1 := by
      rw [List.length_map]
      cases hnew : appended allocOk ret r.hook r.entered with
      | nil => exact Nat.zero_le _
      | cons x xs =>
        obtain ⟨-, -, hone, -⟩ := mem_appended (hnew ▸ List.mem_cons_self (a := x) (l := xs))
        rw [hnew] at hone
        exact (congrArg List.length hone).le
    have hsub := leave_ops hr hs.ops_nodup
      ((appended allocOk ret r.hook r.entered).map (LoggedOp.mk r.op r.ticket))
      (fun x hx => by obtain ⟨y, -, rfl⟩ := List.mem_map.mp hx; rfl) hone
    rw [heq]
    refine ⟨hookExit_wf _ _ _ _ hs.wf, ?_, nodup_of_subperm hsub hs.ops_nodup,
      fun op hop => hs.ops_lt op (hsub.subset hop), ?_, ?_⟩
    · show (hookExit allocOk ret r.hook r.entered s.driver).iowritequeue = List.map _ (_ ++ _)
      rw [hookExit_queue, List.map_append, List.map_map, hs.queue_eq]
      exact congrArg _ (List.map_id _).symm
    · exact fun q hq => hs.running_ticket q (List.mem_of_mem_filter hq)
    · intro x hx t ht
      rcases List.mem_append.mp hx with hx | hx
      · rcases List.mem_append.mp hx with hx | hx
        · rcases List.mem_append.mp hx with hx | hx
          · exact hs.stamped x (List.mem_append_left _ (List.mem_append_left _ hx)) t ht
          · -- the record that the hook appends now
            obtain ⟨piowc, hp, rfl⟩ := List.mem_map.mp hx
            obtain ⟨seqNo, hlog, -, rfl⟩ := mem_appended hp
            obtain ⟨htop, hlog'⟩ := hs.running_ticket r hr t ht
            obtain rfl : seqNo = t.seqNo := Entered.logged.inj (hlog.symm.trans hlog')
            exact ⟨htop, r.hook.recordOf_eq ret t.seqNo⟩
        · exact hs.stamped x (List.mem_append_left _ (List.mem_append_right _ hx)) t ht
      · exact hs.stamped x (List.mem_append_right _ hx) t ht

/-- A step that only moves or drops records, and may change the driver. -/
theorem Sys.Sound.of_subperm {s s' : Sys} (hs : s.Sound) (hw : s'.driver.WF)
    (hq : s'.driver.iowritequeue = s'.queue.map (·.piowc)) (hrun : s'.running.Sublist s.running)
    (hrec : s'.records.Subperm s.records) (hn : s'.nops = s.nops) : s'.Sound := by
  have hops : s'.ops.Subperm s.ops := by
    obtain ⟨l, hperm, hsub⟩ := hrec
    exact (hrun.map _).subperm.append ⟨l.map _, hperm.map _, hsub.map _⟩
  exact ⟨hw, hq, nodup_of_subperm hops hs.ops_nodup,
    fun op hop => hn ▸ hs.ops_lt op (hops.subset hop),
    fun r hr => hs.running_ticket r (hrun.subset hr), fun r hr => hs.stamped r (hrec.subset hr)⟩

theorem dequeue_records (s : Sys) : s.dequeue.records.Perm s.records := by
  rcases dequeue_cases s with heq | ⟨r, rest, hw, hq, heq⟩
  · rw [heq]
  · rw [heq]
    simp only [Sys.records, hw, hq, Writer.current, List.append_nil, List.append_assoc,
      List.cons_append]
    exact List.perm_middle

theorem dequeue_sound {s : Sys} (hs : s.Sound) : s.dequeue.Sound := by
  have hrec := dequeue_records s
  rcases dequeue_cases s with heq | ⟨r, rest, hw, hq, heq⟩
  · rw [heq]
    exact hs
  · rw [heq] at hrec ⊢
    refine hs.of_subperm (hs.wf.sublist (.refl _) (.refl _) (Nat.le_refl _)) ?_
      (.refl _) hrec.subperm rfl
    show s.driver.iowritequeue.tail = rest.map (·.piowc)
    rw [hs.queue_eq, hq]
    rfl

theorem createIolog_records (outcome : LogOutcome) (s : Sys) :
    (s.createIolog outcome).returned = s.returned ∧
      (s.createIolog outcome).records ⊆ s.records := by
  rcases createIolog_cases outcome s with ⟨heq, -⟩ | ⟨r, hw, ⟨-, heq⟩ | ⟨-, heq⟩⟩
  · rw [heq]
    exact ⟨rfl, List.Subset.refl _⟩
  · rw [heq]
    exact ⟨rfl, by simp [Sys.records, Writer.current]⟩
  · rw [heq]
    exact ⟨rfl, by simp [Sys.records, hw, Writer.current]⟩

theorem createIolog_sound (outcome : LogOutcome) {s : Sys} (hs : s.Sound) :
    (s.createIolog outcome).Sound := by
  rcases createIolog_cases outcome s with ⟨heq, -⟩ | ⟨r, hw, ⟨-, heq⟩ | ⟨-, heq⟩⟩
  · rw [heq]
    exact hs
  · rw [heq]
    refine hs.of_subperm hs.wf hs.queue_eq (.refl _) ?_ rfl
    simp only [Sys.records, hw, Writer.current, List.append_nil]
    exact ((List.sublist_append_left _ _).append_right _).subperm
  · rw [heq]
    refine hs.of_subperm hs.wf hs.queue_eq (.refl _) (List.Perm.subperm ?_) rfl
    simp only [Sys.records, hw, Writer.current, List.append_nil, List.append_assoc]
    exact List.perm_append_comm.append_left _

theorem save_records (s : Sys) : s.save.returned = s.returned ∧ s.save.records.Perm s.records := by
  rcases save_cases s with heq | ⟨r, hw, heq⟩
  · rw [heq]
    exact ⟨rfl, .refl _⟩
  · rw [heq]
    refine ⟨rfl, ?_⟩
    simp only [Sys.records, hw, Writer.current]
    exact .refl _

theorem save_sound {s : Sys} (hs : s.Sound) : s.save.Sound := by
  rcases save_cases s with heq | ⟨r, hw, heq⟩
  · rw [heq]
    exact hs
  · rw [heq]
    refine hs.of_subperm (hs.wf.sublist (.refl _) (.refl _) (Nat.le_refl _))
      hs.queue_eq (.refl _) (List.Perm.subperm ?_) rfl
    simp only [Sys.records, hw, Writer.current]
    exact .refl _

theorem crash_sound (env : Env) {s : Sys} (hs : s.Sound) : (s.crash env).Sound := by
  refine hs.of_subperm (initMonitorSet_wf env _ _) ?_ (List.nil_sublist _) ?_ rfl
  · exact ((loadConfig_changes env _).keeps (emptyDriver_wf _ _)).queue
  · exact (List.sublist_append_right _ _).subperm

theorem sysStep_sound (env : Env) (s : Sys) (ev : Event) (hs : s.Sound) :
    (sysStep env s ev).Sound := by
  cases ev with
  | enter ts h => exact enter_sound env ts h hs
  | perform op ret => exact perform_sound op ret hs
  | leave op allocOk => exact leave_sound op allocOk hs
  | dequeue => exact dequeue_sound hs
  | createIolog outcome => exact createIolog_sound outcome hs
  | save => exact save_sound hs
  | crash => exact crash_sound env hs
  | command c =>
    exact hs.of_subperm (opStep_wf env s.driver (.command c) hs.wf)
      ((processNetlinkCmd_keeps env hs.wf c).queue.trans hs.queue_eq) (.refl _)
      (List.Subperm.refl _) rfl

end RtBackup
