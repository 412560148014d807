import RtBackup.Threads

/-!
# Gaps in the log

A number is lost when the record of its operation cannot be allocated, or when
`createiolog` cannot open or write the log file. Only `rtb_vfs_write` looks at
the answer of the builder and clears `bNormalRunning`; the other hooks and the
writer thread leave the flag alone.

Results:
1. `sysStep_lossless_iff`: a step keeps every number of a returned hook with its
   record exactly when it meets `LossReported`.
2. `no_silent_gap_iff`: so the driver has no silent gap in any state of a run
   exactly when all steps of the run meet `LossReported`.
3. `numbers_lost_silently`: an `unlink` whose record cannot be allocated, and a
   log file that cannot be opened.
-/

namespace RtBackup

open ByteFile Runs

/-! ## Definitions -/

/-- The record of the operation that took a number is queued, being written, or
completely written. -/
def Accounted (s : Sys) (t : Ticket) : Prop :=
  ∃ r ∈ s.records, r.ticket = some t ∧ r.op = t.op ∧
    r.piowc.logfile.hdr.ullGolbalSeqNo = t.seqNo.ullGlobalSeqNo

/-- While the driver reports that it runs normally, no returned hook has a
number without a record. -/
def NoSilentGap (s : Sys) : Prop :=
  s.driver.bNormalRunning = true → ∀ t ∈ s.returned, Accounted s t

instance (s : Sys) (t : Ticket) : Decidable (Accounted s t) :=
  inferInstanceAs (Decidable (∃ r ∈ s.records, _))

instance (s : Sys) : Decidable (NoSilentGap s) := inferInstanceAs (Decidable (_ → _))

/-- While the driver reports that it runs normally, only `rtb_vfs_write` fails to
build the record of a number, and `createiolog` writes every such record. -/
def LossReported (s : Sys) : Event → Prop
  | .leave op allocOk =>
    s.driver.bNormalRunning = true → ∀ r ∈ s.running, r.op = op → r.ret ≠ none →
      r.ticket ≠ none → allocOk = true ∨ r.hook.iret ≠ none
  | .createIolog outcome =>
    s.driver.bNormalRunning = true → ∀ r, s.writer = .writing r →
      r.ticket ≠ none → outcome = .complete
  | _ => True

instance (s : Sys) : ∀ ev, Decidable (LossReported s ev)
  | .leave op allocOk =>
    inferInstanceAs (Decidable (s.driver.bNormalRunning = true → ∀ r ∈ s.running, r.op = op →
      r.ret ≠ none → r.ticket ≠ none → allocOk = true ∨ r.hook.iret ≠ none))
  | .createIolog outcome =>
    decidable_of_iff (s.driver.bNormalRunning = true → ∀ r ∈ s.writer.current,
        r.ticket ≠ none → outcome = .complete) <| by
      cases hw : s.writer <;> simp [LossReported, hw, Writer.current]
  | .enter _ _ | .perform _ _ | .dequeue | .save | .crash | .command _ =>
    inferInstanceAs (Decidable True)

/-- No two records are of one operation, and a record's hook has returned. -/
structure Recorded (s : Sys) : Prop where
  sound : s.Sound
  returned : ∀ r ∈ s.records, ∀ t, r.ticket = some t → t ∈ s.returned

/-! ## The flag -/

theorem Change.flag {env : Env} {d d' : Driver} (h : Change env d d') :
    d'.bNormalRunning = d.bNormalRunning := by
  cases h <;> rfl

theorem processNetlinkCmd_flag (env : Env) (d : Driver) (c : Notification) :
    (processNetlinkCmd env d c).1.bNormalRunning = d.bNormalRunning := by
  have hall : ∀ {d'}, Changes env d d' → d'.bNormalRunning = d.bNormalRunning := by
    intro d' h
    induction h with
    | refl => rfl
    | tail _ hstep ih => exact hstep.flag.trans ih
  exact hall (processNetlinkCmd_changes env d c)

/-- A hook never sets the flag. -/
theorem hookExit_flag {allocOk : Bool} {ret : Int} {h : Hook} {entered : Entered} {d : Driver}
    (hflag : (hookExit allocOk ret h entered d).bNormalRunning = true) :
    d.bNormalRunning = true := by
  have hcheck : ∀ iret (d' : Driver), (checkIret h iret d').bNormalRunning = true →
      d'.bNormalRunning = true := by
    intro iret d' hd'
    rcases checkIret_cases h iret d' with heq | heq <;> rw [heq] at hd'
    · exact hd'
    · exact absurd hd' Bool.false_ne_true
  cases entered with
  | bypass => exact hflag
  | unlogged => exact hcheck _ _ hflag
  | logged seqNo =>
    have hq := hcheck _ _ hflag
    cases allocOk with
    | true => exact hq
    | false => exact hq

/-- A hook that cannot build its record clears the flag exactly if it tests
`iret`. -/
theorem hookExit_failed (ret : Int) (h : Hook) (seqNo : SeqNo) (d : Driver) :
    (hookExit false ret h (.logged seqNo) d).bNormalRunning =
      (d.bNormalRunning && h.iret.isNone) := by
  show (checkIret h (-1) d).bNormalRunning = _
  unfold checkIret
  cases h.iret with
  | none => simp
  | some iret => simp

/-! ## Steps -/

/-- A step that keeps the records and the numbers, and does not set the flag. -/
theorem NoSilentGap.of_records {s s' : Sys} (h : NoSilentGap s)
    (hflag : s'.driver.bNormalRunning = true → s.driver.bNormalRunning = true)
    (hret : s'.returned = s.returned) (hrec : s.records ⊆ s'.records) : NoSilentGap s' := by
  intro hrun t ht
  obtain ⟨r, hr, hrest⟩ := h (hflag hrun) t (hret ▸ ht)
  exact ⟨r, hrec hr, hrest⟩

/-- A hook that returns does not set the flag. -/
theorem leave_flag {op : Nat} {allocOk : Bool} {s : Sys}
    (hflag : (s.leave op allocOk).driver.bNormalRunning = true) :
    s.driver.bNormalRunning = true := by
  rcases leave_cases op allocOk s with ⟨heq, -⟩ | ⟨r, -, ret, -, -, heq⟩
  · rw [heq] at hflag
    exact hflag
  · rw [heq] at hflag
    exact hookExit_flag hflag

theorem records_subset_leave (op : Nat) (allocOk : Bool) (s : Sys) :
    s.records ⊆ (s.leave op allocOk).records := by
  rcases leave_cases op allocOk s with ⟨heq, -⟩ | ⟨r, -, ret, -, -, heq⟩
  · rw [heq]
    exact List.Subset.refl _
  · rw [heq]
    intro x hx
    simp only [Sys.records, List.mem_append] at hx ⊢
    rcases hx with (hx | hx) | hx
    · exact .inl (.inl (.inl hx))
    · exact .inl (.inr hx)
    · exact .inr hx

/-- The number of a hook whose record is appended is accounted for. -/
theorem NoSilentGap.leave_appended {s : Sys} (h : NoSilentGap s) {r : Running} {t : Ticket}
    {ret : Int} (hsound : (s.leave r.op true).Sound) (hticket : r.ticket = some t)
    (hret : (s.leave r.op true).returned = s.returned ++ [t])
    (hmem : LoggedOp.mk r.op r.ticket (r.hook.recordOf ret t.seqNo) ∈
      (s.leave r.op true).records) : NoSilentGap (s.leave r.op true) := by
  intro hrun u hu
  rw [hret] at hu
  rcases List.mem_append.mp hu with hu | hu
  · obtain ⟨x, hx, hrest⟩ := h (leave_flag hrun) u hu
    exact ⟨x, records_subset_leave _ _ _ hx, hrest⟩
  · obtain rfl : u = t := List.mem_singleton.mp hu
    obtain ⟨hop, fields, hfields⟩ := hsound.stamped _ hmem u hticket
    refine ⟨_, hmem, hticket, hop.symm, ?_⟩
    rw [hfields]
    rfl

/-- Without a record of its own, the number of a hook is in no record, and the flag
has to be cleared. -/
theorem leave_unappended_iff {s : Sys} (hs : s.Sound) {r : Running} (hr : r ∈ s.running)
    {t : Ticket} (hop : t.op = r.op)
    (hret : (s.leave r.op false).returned = s.returned ++ [t])
    (hrec : (s.leave r.op false).records = s.records) :
    NoSilentGap (s.leave r.op false) ↔ (s.leave r.op false).driver.bNormalRunning = false := by
  rw [← Bool.not_eq_true]
  constructor
  · intro hgap hrun
    obtain ⟨x, hx, -, hxop, -⟩ := hgap hrun t (by rw [hret]; simp)
    have hdisj := (List.nodup_append.mp hs.ops_nodup).2.2
    exact hdisj _ (List.mem_map_of_mem hr) _ (List.mem_map_of_mem (hrec ▸ hx))
      (hop.symm.trans hxop.symm)
  · exact fun hcleared hrun => absurd hrun hcleared

theorem leave_lossless_iff (op : Nat) (allocOk : Bool) {s : Sys} (hs : Recorded s)
    (h : NoSilentGap s) : NoSilentGap (s.leave op allocOk) ↔ LossReported s (.leave op allocOk) := by
  have hsound := leave_sound op allocOk hs.sound
  rcases leave_cases op allocOk s with ⟨heq, hnone⟩ | ⟨r, hr, ret, rfl, hret, heq⟩
  · rw [heq]
    exact ⟨fun _ _ r hr hop hret => absurd (hnone r hr hop) hret, fun _ => h⟩
  · have hret' : (s.leave r.op allocOk).returned = s.returned ++ r.ticket.toList := by rw [heq]
    -- no other hook under way is of this operation
    have huniq : ∀ q ∈ s.running, q.op = r.op → q = r := fun q hq hop =>
      List.inj_on_of_nodup_map (List.nodup_append.mp hs.sound.ops_nodup).1 hq hr hop
    cases hticket : r.ticket with
    | none =>
      rw [hticket, Option.toList_none, List.append_nil] at hret'
      refine ⟨fun _ _ q hq hop _ ht => ?_, fun _ => ?_⟩
      · rw [huniq q hq hop] at ht
        exact absurd hticket ht
      · exact h.of_records leave_flag hret' (records_subset_leave _ _ _)
    | some t =>
      obtain ⟨htop, hlog⟩ := hs.sound.running_ticket r hr t hticket
      rw [hticket] at hret'
      cases allocOk with
      | true =>
        refine ⟨fun _ _ q hq hop _ _ => .inl rfl, fun _ => ?_⟩
        have hmem : LoggedOp.mk r.op r.ticket (r.hook.recordOf ret t.seqNo) ∈
            (s.leave r.op true).records := by
          rw [heq, hlog]
          simp [Sys.records, appended]
        exact h.leave_appended hsound hticket hret' hmem
      | false =>
        have hrec : (s.leave r.op false).records = s.records := by
          rw [heq, hlog]
          simp [Sys.records, appended]
        have hexit : (s.leave r.op false).driver.bNormalRunning =
            (s.driver.bNormalRunning && r.hook.iret.isNone) := by
          rw [heq, hlog]
          exact hookExit_failed ret r.hook t.seqNo s.driver
        rw [leave_unappended_iff hs.sound hr htop hret' hrec, hexit]
        constructor
        · intro hcleared hrun q hq hop _ _
          rw [huniq q hq hop]
          refine .inr fun hiret => ?_
          rw [hrun, hiret] at hcleared
          exact absurd hcleared (by decide)
        · intro hok
          by_contra hflag
          rw [Bool.not_eq_false, Bool.and_eq_true] at hflag
          rcases hok hflag.1 r hr rfl (by simp [hret]) (by simp [hticket]) with hf | hf
          · exact absurd hf Bool.false_ne_true
          · exact absurd (Option.isNone_iff_eq_none.mp hflag.2) hf

theorem createIolog_lossless_iff (outcome : LogOutcome) {s : Sys} (hs : Recorded s)
    (h : NoSilentGap s) :
    NoSilentGap (s.createIolog outcome) ↔ LossReported s (.createIolog outcome) := by
  rcases createIolog_cases outcome s with ⟨heq, hnone⟩ | ⟨r, hw, ⟨hout, heq⟩ | ⟨rfl, heq⟩⟩
  · rw [heq]
    exact ⟨fun _ _ r hr => absurd hr (hnone r), fun _ => h⟩
  · rw [heq]
    have hrecords : s.records.Perm (r :: (s.queue ++ s.written)) := by
      simp only [Sys.records, hw, Writer.current, List.append_assoc, List.singleton_append]
      exact List.perm_middle
    have hr : r ∈ s.records := hrecords.mem_iff.mpr List.mem_cons_self
    constructor
    · intro hgap hrun q hq ht
      obtain rfl : r = q := Writer.writing.inj (hw.symm.trans hq)
      obtain ⟨t, ht⟩ := Option.ne_none_iff_exists'.mp ht
      obtain ⟨x, hx, -, hxop, -⟩ := hgap hrun t (hs.returned r hr t ht)
      -- the record was the only one of its operation
      have hnd : (s.records.map (·.op)).Nodup := (List.nodup_append.mp hs.sound.ops_nodup).2.1
      rw [(hrecords.map _).nodup_iff, List.map_cons, List.nodup_cons] at hnd
      refine absurd (List.mem_map.mpr ⟨x, ?_, ?_⟩) hnd.1
      · simpa [Sys.records, Writer.current] using hx
      · exact hxop.trans (hs.sound.stamped r hr t ht).1
    · intro hok hrun t ht
      cases hticket : r.ticket with
      | none =>
        obtain ⟨x, hx, hxt, hrest⟩ := h hrun t ht
        rcases List.mem_cons.mp (hrecords.mem_iff.mp hx) with rfl | hx
        · simp [hticket] at hxt
        · exact ⟨x, by simpa [Sys.records, Writer.current] using hx, hxt, hrest⟩
      | some u => exact absurd (hok hrun r hw (by simp [hticket])) hout
  · rw [heq]
    refine ⟨fun _ _ _ _ _ => rfl, fun _ => h.of_records id rfl fun x hx => ?_⟩
    simp only [Sys.records, hw, Writer.current, List.mem_append] at hx ⊢
    rcases hx with (hx | hx) | hx
    · exact .inl (.inl hx)
    · exact .inr (.inr hx)
    · exact .inr (.inl hx)

/-- One step keeps every number with its record exactly when it meets the
condition. -/
theorem sysStep_lossless_iff (env : Env) {s : Sys} {ev : Event} (hev : ev ≠ .crash)
    (hs : Recorded s) (h : NoSilentGap s) :
    NoSilentGap (sysStep env s ev) ↔ LossReported s ev := by
  cases ev with
  | enter ts hook =>
    obtain ⟨files, sets, hframe⟩ := hookEnter_frame env ts hook s.driver
    refine ⟨fun _ => trivial, fun _ => h.of_records (fun hrun => ?_) rfl (List.Subset.refl _)⟩
    exact (congrArg Driver.bNormalRunning hframe).symm.trans hrun
  | perform op ret =>
    refine ⟨fun _ => trivial, fun _ => ?_⟩
    show NoSilentGap (s.perform op ret)
    rcases perform_cases op ret s with heq | ⟨r, -, -, heq⟩
    · rw [heq]
      exact h
    · rw [heq]
      exact h.of_records id rfl (List.Subset.refl _)
  | leave op allocOk => exact leave_lossless_iff op allocOk hs h
  | dequeue =>
    refine ⟨fun _ => trivial, fun _ => ?_⟩
    have hrec := (dequeue_records s).symm.subset
    show NoSilentGap s.dequeue
    rcases dequeue_cases s with heq | ⟨r, rest, -, -, heq⟩
    · rw [heq]
      exact h
    · rw [heq] at hrec ⊢
      exact h.of_records id rfl hrec
  | createIolog outcome => exact createIolog_lossless_iff outcome hs h
  | save =>
    refine ⟨fun _ => trivial, fun _ => ?_⟩
    show NoSilentGap s.save
    rcases save_cases s with heq | ⟨r, hw, heq⟩
    · rw [heq]
      exact h
    · rw [heq]
      refine h.of_records id rfl ?_
      simp [Sys.records, hw, Writer.current]
  | crash => exact absurd rfl hev
  | command c =>
    refine ⟨fun _ => trivial, fun _ => h.of_records (fun hrun => ?_) rfl (List.Subset.refl _)⟩
    exact (processNetlinkCmd_flag env s.driver c).symm.trans hrun

/-- A record is an old one, or the number of its operation is returned with it. -/
theorem leave_records (op : Nat) (allocOk : Bool) (s : Sys) :
    s.returned ⊆ (s.leave op allocOk).returned ∧
    ∀ r ∈ (s.leave op allocOk).records, r ∈ s.records ∨
      ∀ t, r.ticket = some t → t ∈ (s.leave op allocOk).returned := by
  rcases leave_cases op allocOk s with ⟨heq, -⟩ | ⟨r, -, ret, -, -, heq⟩
  · rw [heq]
    exact ⟨List.Subset.refl _, fun x hx => .inl hx⟩
  · rw [heq]
    refine ⟨List.subset_append_left _ _, fun x hx => ?_⟩
    simp only [Sys.records, List.mem_append] at hx ⊢
    rcases hx with ((hx | hx) | hx) | hx
    · exact .inl (.inl (.inl hx))
    · obtain ⟨piowc, -, rfl⟩ := List.mem_map.mp hx
      exact .inr fun t ht => .inr (Option.mem_toList.mpr ht)
    · exact .inl (.inl (.inr hx))
    · exact .inl (.inr hx)

theorem sysStep_recorded (env : Env) {s : Sys} (ev : Event) (hs : Recorded s) :
    Recorded (sysStep env s ev) := by
  refine ⟨sysStep_sound env s ev hs.sound, ?_⟩
  cases ev with
  | enter ts hook => exact hs.returned
  | perform op ret =>
    show ∀ r ∈ (s.perform op ret).records, _
    rcases perform_cases op ret s with heq | ⟨r, -, -, heq⟩ <;> simp only [sysStep, heq] <;>
      exact hs.returned
  | leave op allocOk =>
    obtain ⟨hret, hrec⟩ := leave_records op allocOk s
    intro r hr t ht
    rcases hrec r hr with hold | hnew
    · exact hret (hs.returned r hold t ht)
    · exact hnew t ht
  | dequeue =>
    have hret : s.dequeue.returned = s.returned := by
      rcases dequeue_cases s with heq | ⟨r, rest, -, -, heq⟩ <;> rw [heq]
    intro r hr t ht
    show t ∈ s.dequeue.returned
    rw [hret]
    exact hs.returned r ((dequeue_records s).subset hr) t ht
  | createIolog outcome =>
    obtain ⟨hret, hrec⟩ := createIolog_records outcome s
    intro r hr t ht
    show t ∈ (s.createIolog outcome).returned
    rw [hret]
    exact hs.returned r (hrec hr) t ht
  | save =>
    obtain ⟨hret, hrec⟩ := save_records s
    intro r hr t ht
    show t ∈ s.save.returned
    rw [hret]
    exact hs.returned r (hrec.subset hr) t ht
  | crash => exact fun r hr => hs.returned r (List.mem_append_right _ hr)
  | command c => exact hs.returned

/-! ## Runs -/

/-- A run without a crash has no silent gap in any of its states exactly when
each of its steps meets `LossReported`. -/
theorem no_silent_gap_iff (env : Env) (cnf : Bytes) (nalloc : Nat) (events : List Event)
    (hlive : ∀ ev ∈ events, ev ≠ .crash) :
    (∀ s ∈ states (sysStep env) (Sys.start env cnf nalloc) events, NoSilentGap s) ↔
      Along (sysStep env) LossReported (Sys.start env cnf nalloc) events := by
  have hstart : Recorded (Sys.start env cnf nalloc) :=
    ⟨start_sound env cnf nalloc, fun r hr => absurd hr List.not_mem_nil⟩
  rw [forall_states_iff_along (I := Recorded)
    (fun s ev _ hs => sysStep_recorded env ev hs)
    (fun s ev hev hs h => sysStep_lossless_iff env (hlive ev hev) hs h) hstart]
  exact and_iff_right fun _ t ht => absurd ht List.not_mem_nil

/-! ## Concrete runs -/

/-- One operation below `/a` from its hook to the writer thread. -/
def oneOperation (h : Hook) (ret : Int) (allocOk : Bool) (outcome : LogOutcome) : List Event :=
  [.command (.addSet oneItemRequest), .enter ⟨0, 0⟩ h, .perform 0 ret, .leave 0 allocOk, .dequeue,
    .createIolog outcome, .save]

theorem no_silent_gap_iff_one_mkdir :
    (∀ s ∈ states (sysStep quietKernel) (Sys.start quietKernel [] 0)
        (oneOperation (rtbVfsMkdir pathAC) 0 true .complete), NoSilentGap s) ↔
      Along (sysStep quietKernel) LossReported (Sys.start quietKernel [] 0)
        (oneOperation (rtbVfsMkdir pathAC) 0 true .complete) :=
  no_silent_gap_iff quietKernel [] 0 _ (by simp [oneOperation])

/-- The record of an `unlink` cannot be allocated, or its log file cannot be
opened: the number 0 was handed out, no record has it, the flag is still set. -/
theorem numbers_lost_silently :
    let unallocated := run (sysStep quietKernel) (Sys.start quietKernel [] 0)
      (oneOperation (rtbVfsUnlink pathAC) 0 false .complete)
    let unopened := run (sysStep quietKernel) (Sys.start quietKernel [] 0)
      (oneOperation (rtbVfsUnlink pathAC) 0 true .openFailed)
    (¬ NoSilentGap unallocated ∧ unallocated.returned.map (·.number) = [0] ∧
      unallocated.records = [] ∧ unallocated.driver.bNormalRunning = true) ∧
    (¬ NoSilentGap unopened ∧ unopened.returned.map (·.number) = [0] ∧
      unopened.records = [] ∧ unopened.driver.bNormalRunning = true) := by
  decide +kernel

end RtBackup
