import RtBackup.Threads

/-!
# Numbers and the order of effects

A hook takes its number before it calls the original function, and the lock is
released in between. Numbers are in the order in which they were taken, and an
operation that took effect before another one asked for its number has the
smaller number. Two operations that both hold a number can take effect in either
order.

Results:
1. `sysStep_ordered`: a step that does not wrap a counter keeps the history
   ordered.
2. `numbers_follow_effects`: in every state of every run whose counters do not
   wrap, a number is greater than those of the same set that were taken, or took
   effect, before it was taken.
3. `effects_swapped`: two writes that take effect against their numbers.
-/

namespace RtBackup

open ByteFile Runs

/-! ## Definitions -/

/-- Two numbers are from the same set. -/
def Ticket.SameSet (a b : Ticket) : Prop := a.pmse = b.pmse ∧ a.pmse ≠ none

instance : DecidableRel Ticket.SameSet := fun _ _ => inferInstanceAs (Decidable (_ ∧ _))

/-- A number taken later from the same set is greater. -/
def NumberedAfter (x : Moment) : Moment → Prop
  | .numbered b => x.ticket.SameSet b → x.ticket.number < b.number
  | .performed _ => True

/-- Of two operations of one set, the one that takes effect first has the
smaller number. -/
def EffectsInOrder : Moment → Moment → Prop
  | .performed a, .performed b => a.SameSet b → a.number < b.number
  | _, _ => True

instance : DecidableRel EffectsInOrder
  | .performed a, .performed b =>
    inferInstanceAs (Decidable (a.SameSet b → a.number < b.number))
  | .performed _, .numbered _ | .numbered _, .performed _ | .numbered _, .numbered _ =>
    inferInstanceAs (Decidable True)

/-- The step does not hand out the last 64-bit number of a set. -/
def NoWrap (env : Env) (s : Sys) (ev : Event) : Prop :=
  ∀ t ∈ handedOut env s ev, t.pmse ≠ none → t.number + 1 < 2 ^ 64

instance (env : Env) (s : Sys) (ev : Event) : Decidable (NoWrap env s ev) :=
  inferInstanceAs (Decidable (∀ t ∈ handedOut env s ev, _))

/-! ## The invariant -/

/-- The history is ordered, and the set that gave a number counts beyond it. -/
structure Ordered (s : Sys) : Prop where
  ordered : s.history.Pairwise NumberedAfter
  allocated : ∀ m ∈ s.history, ∀ a ∈ m.ticket.pmse, a < s.driver.nalloc
  behind : ∀ m ∈ s.history, ∀ p ∈ s.driver.sets, m.ticket.pmse = some p.addr →
    m.ticket.number < p.ullSetSeqNo.toNat
  running_numbered : ∀ r ∈ s.running, ∀ t, r.ticket = some t → .numbered t ∈ s.history
  records_numbered : ∀ r ∈ s.records, ∀ t, r.ticket = some t → .numbered t ∈ s.history

/-- A step after which the sets are old ones with their numbers, or new ones. -/
theorem Ordered.of_old_sets {s s' : Sys} (h : Ordered s)
    (hn : s.driver.nalloc ≤ s'.driver.nalloc)
    (hsets : ∀ p ∈ s'.driver.sets, p.addr < s.driver.nalloc →
      ∃ q ∈ s.driver.sets, q.addr = p.addr ∧ q.ullSetSeqNo = p.ullSetSeqNo)
    (hhist : s'.history = s.history) (hrun : s'.running ⊆ s.running)
    (hrec : s'.records ⊆ s.records) : Ordered s' where
  ordered := hhist ▸ h.ordered
  allocated m hm a ha := Nat.lt_of_lt_of_le (h.allocated m (hhist ▸ hm) a ha) hn
  behind m hm p hp ha := by
    rw [hhist] at hm
    obtain ⟨q, hq, hqa, hqn⟩ := hsets p hp (h.allocated m hm _ ha)
    rw [← hqn]
    exact h.behind m hm q hq (hqa ▸ ha)
  running_numbered r hr := hhist ▸ h.running_numbered r (hrun hr)
  records_numbered r hr := hhist ▸ h.records_numbered r (hrec hr)

theorem Ordered.of_same_sets {s s' : Sys} (h : Ordered s) (hn : s'.driver.nalloc = s.driver.nalloc)
    (hsets : s'.driver.sets = s.driver.sets) (hhist : s'.history = s.history)
    (hrun : s'.running ⊆ s.running) (hrec : s'.records ⊆ s.records) : Ordered s' :=
  h.of_old_sets hn.ge (fun p hp _ => ⟨p, hsets ▸ hp, rfl, rfl⟩) hhist hrun hrec

theorem toNat_succ_of_lt {n : UInt64} (h : n.toNat + 1 < 2 ^ 64) : (n + 1).toNat = n.toNat + 1 := by
  rw [UInt64.toNat_add, UInt64.toNat_one, Nat.mod_eq_of_lt h]

/-- The counter of every set is beyond the numbers that it gave, and a raised one is
beyond the number handed out now. -/
theorem Ordered.behind_next {s : Sys} (ho : Ordered s) (hw : s.driver.WF) {p : MonitorSetEntry}
    (hp : p ∈ s.driver.sets) (hroom : p.ullSetSeqNo.toNat + 1 < 2 ^ 64) {t : Ticket}
    (htp : t.pmse = some p.addr) (hnum : t.number = p.ullSetSeqNo.toNat) :
    ∀ m ∈ s.history ++ [.numbered t],
      ∀ q ∈ s.driver.sets.map fun q => if q = p then p.next else q,
        m.ticket.pmse = some q.addr → m.ticket.number < q.ullSetSeqNo.toNat := by
  intro m hm q hq ha
  obtain ⟨q₀, hq₀, rfl⟩ := List.mem_map.mp hq
  by_cases hqp : q₀ = p
  · rw [if_pos hqp] at ha ⊢
    rw [MonitorSetEntry.next, toNat_succ_of_lt hroom]
    rcases List.mem_append.mp hm with hold | hnew
    · exact Nat.lt_succ_of_lt (ho.behind m hold p hp ha)
    · obtain rfl := List.mem_singleton.mp hnew
      exact Nat.lt_succ_of_le hnum.le
  · rw [if_neg hqp] at ha ⊢
    rcases List.mem_append.mp hm with hold | hnew
    · exact ho.behind m hold q₀ hq₀ ha
    · obtain rfl := List.mem_singleton.mp hnew
      exact absurd (set_eq_of_addr hw hq₀ hp (Option.some.inj (ha.symm.trans htp))) hqp

/-- A hook that takes no number of a set keeps the history ordered. -/
theorem enter_ordered_of_no_set {env : Env} {ts : Timespec} {h : Hook} {s : Sys} (ho : Ordered s)
    (hn : (s.enter env ts h).driver.nalloc = s.driver.nalloc)
    (hsets : (s.enter env ts h).driver.sets = s.driver.sets)
    (hticket : ∀ t, ticketOf env ts h s.nops s.driver = some t → t.pmse = none) :
    Ordered (s.enter env ts h) := by
  have hhist : (s.enter env ts h).history =
      s.history ++ (ticketOf env ts h s.nops s.driver).toList.map .numbered := rfl
  have hnew : ∀ m ∈ (ticketOf env ts h s.nops s.driver).toList.map Moment.numbered,
      ∃ t, m = .numbered t ∧ t.pmse = none := by
    intro m hm
    obtain ⟨t, ht, rfl⟩ := List.mem_map.mp hm
    exact ⟨t, rfl, hticket t (Option.mem_toList.mp ht)⟩
  refine ⟨?_, ?_, ?_, ?_, ?_⟩
  · rw [hhist, List.pairwise_append]
    refine ⟨ho.ordered, ?_, fun m _ b hb => ?_⟩
    · cases ticketOf env ts h s.nops s.driver with
      | none => exact List.Pairwise.nil
      | some t => exact List.pairwise_singleton _ _
    · obtain ⟨t, rfl, hnone⟩ := hnew b hb
      exact fun hsame => absurd (hsame.1.trans hnone) hsame.2
  · rw [hhist, hn]
    intro m hm a ha
    rcases List.mem_append.mp hm with hold | hm
    · exact ho.allocated m hold a ha
    · obtain ⟨t, rfl, hnone⟩ := hnew m hm
      exact absurd (hnone.symm.trans ha) nofun
  · rw [hhist, hsets]
    intro m hm q hq ha
    rcases List.mem_append.mp hm with hold | hm
    · exact ho.behind m hold q hq ha
    · obtain ⟨t, rfl, hnone⟩ := hnew m hm
      exact absurd (hnone.symm.trans ha) nofun
  · rw [hhist]
    intro r hr t ht
    rcases List.mem_append.mp hr with hold | hr
    · exact List.mem_append_left _ (ho.running_numbered r hold t ht)
    · obtain rfl := List.mem_singleton.mp hr
      exact List.mem_append_right _ (List.mem_map_of_mem (Option.mem_toList.mpr ht))
  · rw [hhist]
    exact fun r hr t ht => List.mem_append_left _ (ho.records_numbered r hr t ht)

theorem enter_ordered (env : Env) (ts : Timespec) (h : Hook) {s : Sys} (hs : s.Sound)
    (ho : Ordered s) (hwrap : NoWrap env s (.enter ts h)) : Ordered (s.enter env ts h) := by
  obtain ⟨files, sets, hframe⟩ := hookEnter_frame env ts h s.driver
  have hn : (s.enter env ts h).driver.nalloc = s.driver.nalloc :=
    (congrArg Driver.nalloc hframe : (hookEnter env ts h s.driver).1.nalloc = _)
  rcases enter_cases env ts h s.nops hs.wf with
    ⟨-, hsets, hticket⟩ | ⟨-, -, p, hp, -, seqNo, hsome, hnum, -, -, hsets⟩
  · refine enter_ordered_of_no_set ho hn hsets fun t ht => ?_
    rcases hticket with hnone | ⟨guid, seqNo, hsome, -⟩
    · exact absurd (hnone.symm.trans ht) nofun
    · rw [← Option.some.inj (hsome.symm.trans ht)]
  · -- the number is the counter of the set, which every earlier number lies below
    have hhist : (s.enter env ts h).history =
        s.history ++ [.numbered ⟨s.nops, p.guidSetId, some p.addr, seqNo⟩] := by
      simp only [Sys.enter, hsome, Option.toList_some, List.map_cons, List.map_nil]
    have hroom : p.ullSetSeqNo.toNat + 1 < 2 ^ 64 := hnum ▸ hwrap _ hsome nofun
    refine ⟨?_, ?_, ?_, ?_, ?_⟩
    · rw [hhist, List.pairwise_append]
      refine ⟨ho.ordered, List.pairwise_singleton _ _, fun m hm b hb => ?_⟩
      obtain rfl := List.mem_singleton.mp hb
      intro hsame
      have hlt := ho.behind m hm p hp hsame.1
      rw [← hnum] at hlt
      exact hlt
    · rw [hhist, hn]
      intro m hm a ha
      rcases List.mem_append.mp hm with hold | hnew
      · exact ho.allocated m hold a ha
      · obtain rfl := List.mem_singleton.mp hnew
        obtain rfl := Option.some.inj ha
        exact hs.wf.sets_fresh p hp
    · rw [hhist]
      intro m hm q hq
      exact ho.behind_next hs.wf hp hroom rfl (congrArg UInt64.toNat hnum) m hm q (hsets ▸ hq)
    · rw [hhist]
      intro r hr t ht
      rcases List.mem_append.mp hr with hold | hnew
      · exact List.mem_append_left _ (ho.running_numbered r hold t ht)
      · obtain rfl := List.mem_singleton.mp hnew
        obtain rfl := Option.some.inj (hsome.symm.trans ht)
        exact List.mem_append_right _ List.mem_cons_self
    · rw [hhist]
      exact fun r hr t ht => List.mem_append_left _ (ho.records_numbered r hr t ht)

theorem perform_ordered (op : Nat) (ret : Int) {s : Sys} (ho : Ordered s) :
    Ordered (s.perform op ret) := by
  rcases perform_cases op ret s with heq | ⟨r, hr, -, heq⟩
  · rw [heq]
    exact ho
  · rw [heq]
    have hnumbered : ∀ t, r.ticket = some t → .numbered t ∈ s.history :=
      fun t ht => ho.running_numbered r hr t ht
    have hnew : ∀ m ∈ r.ticket.toList.map Moment.performed,
        ∃ t, m = .performed t ∧ .numbered t ∈ s.history := by
      intro m hm
      obtain ⟨t, ht, rfl⟩ := List.mem_map.mp hm
      exact ⟨t, rfl, hnumbered t (Option.mem_toList.mp ht)⟩
    refine ⟨?_, ?_, ?_, ?_, fun r hr t ht => List.mem_append_left _ (ho.records_numbered r hr t ht)⟩
    · show (s.history ++ r.ticket.toList.map Moment.performed).Pairwise NumberedAfter
      rw [List.pairwise_append]
      refine ⟨ho.ordered, ?_, fun m _ b hb => ?_⟩
      · cases r.ticket with
        | none => exact List.Pairwise.nil
        | some t => exact List.pairwise_singleton _ _
      · obtain ⟨t, rfl, -⟩ := hnew b hb
        trivial
    · intro m hm
      rcases List.mem_append.mp hm with hold | hm
      · exact ho.allocated m hold
      · obtain ⟨t, rfl, ht⟩ := hnew m hm
        exact ho.allocated (.numbered t) ht
    · intro m hm
      rcases List.mem_append.mp hm with hold | hm
      · exact ho.behind m hold
      · obtain ⟨t, rfl, ht⟩ := hnew m hm
        exact ho.behind (.numbered t) ht
    · intro q hq t ht
      obtain ⟨p, hp, rfl⟩ := List.mem_map.mp hq
      have hpt : p.ticket = some t := by
        split at ht <;> exact ht
      exact List.mem_append_left _ (ho.running_numbered p hp t hpt)

theorem leave_ordered (op : Nat) (allocOk : Bool) {s : Sys} (ho : Ordered s) :
    Ordered (s.leave op allocOk) := by
  rcases leave_cases op allocOk s with ⟨heq, -⟩ | ⟨r, hr, ret, rfl, -, heq⟩
  · rw [heq]
    exact ho
  · rw [heq]
    obtain ⟨queue, flag, hexit⟩ := hookExit_cases allocOk ret r.hook r.entered s.driver
    rw [hexit]
    refine ⟨ho.ordered, ho.allocated, ho.behind,
      fun q hq => ho.running_numbered q (List.mem_of_mem_filter hq), fun x hx t ht => ?_⟩
    simp only [Sys.records, List.mem_append] at hx
    rcases hx with ((hx | hx) | hx) | hx
    · exact ho.records_numbered x (by simp [Sys.records, hx]) t ht
    · obtain ⟨piowc, -, rfl⟩ := List.mem_map.mp hx
      exact ho.running_numbered r hr t ht
    · exact ho.records_numbered x (by simp [Sys.records, hx]) t ht
    · exact ho.records_numbered x (by simp [Sys.records, hx]) t ht

/-! ## Runs -/

theorem sysStep_ordered (env : Env) (s : Sys) (ev : Event) (hs : s.Sound) (ho : Ordered s)
    (hwrap : NoWrap env s ev) : Ordered (sysStep env s ev) := by
  cases ev with
  | enter ts h => exact enter_ordered env ts h hs ho hwrap
  | perform op ret => exact perform_ordered op ret ho
  | leave op allocOk => exact leave_ordered op allocOk ho
  | dequeue =>
    have hrec := (dequeue_records s).subset
    show Ordered s.dequeue
    rcases dequeue_cases s with heq | ⟨r, rest, hw, hq, heq⟩
    · rw [heq]
      exact ho
    · rw [heq] at hrec ⊢
      exact ho.of_same_sets rfl rfl rfl (List.Subset.refl _) hrec
  | createIolog outcome =>
    show Ordered (s.createIolog outcome)
    rcases createIolog_cases outcome s with ⟨heq, -⟩ | ⟨r, hw, ⟨-, heq⟩ | ⟨-, heq⟩⟩
    · rw [heq]
      exact ho
    · rw [heq]
      refine ho.of_same_sets rfl rfl rfl (List.Subset.refl _) ?_
      simp [Sys.records, Writer.current]
    · rw [heq]
      refine ho.of_same_sets rfl rfl rfl (List.Subset.refl _) ?_
      simp [Sys.records, hw, Writer.current]
  | save =>
    show Ordered s.save
    rcases save_cases s with heq | ⟨r, hw, heq⟩
    · rw [heq]
      exact ho
    · rw [heq]
      refine ho.of_same_sets rfl rfl rfl (List.Subset.refl _) ?_
      simp [Sys.records, hw, Writer.current]
  | crash =>
    -- the loaded sets are at new addresses
    have hload := (loadConfig_changes env (emptyDriver s.driver.cnf s.driver.nalloc)).keeps
      (emptyDriver_wf _ _)
    show Ordered (s.crash env)
    refine ho.of_old_sets hload.nalloc (fun p hp hlt => ?_) rfl
      (List.nil_subset _) (by simp [Sys.records, Sys.crash, Writer.current])
    obtain ⟨q, hq, -⟩ := hload.sets p hp hlt
    exact absurd hq List.not_mem_nil
  | command c =>
    have hkeeps := processNetlinkCmd_keeps env hs.wf c
    refine ho.of_old_sets hkeeps.nalloc (fun p hp hlt => ?_) rfl (List.Subset.refl _)
      (List.Subset.refl _)
    obtain ⟨q, hq, ha, -, -, hqn⟩ := hkeeps.sets p hp hlt
    exact ⟨q, hq, ha, hqn⟩

theorem start_ordered (env : Env) (cnf : Bytes) (nalloc : Nat) :
    Ordered (Sys.start env cnf nalloc) where
  ordered := List.Pairwise.nil
  allocated _ h := absurd h List.not_mem_nil
  behind _ h := absurd h List.not_mem_nil
  running_numbered _ h := absurd h List.not_mem_nil
  records_numbered _ h := absurd h List.not_mem_nil

/-- In every state of every run whose counters do not wrap: a number is greater
than all numbers of its set that were taken, or whose operations took effect,
before it was taken; and a record carries the number that its operation took. -/
theorem numbers_follow_effects (env : Env) (cnf : Bytes) (nalloc : Nat) (events : List Event)
    (hwrap : Along (sysStep env) (NoWrap env) (Sys.start env cnf nalloc) events) :
    ∀ s ∈ states (sysStep env) (Sys.start env cnf nalloc) events,
      s.history.Pairwise NumberedAfter ∧
      ∀ r ∈ s.records, ∀ t, r.ticket = some t →
        Moment.numbered t ∈ s.history ∧ t.op = r.op ∧
        r.piowc.logfile.hdr.ullGolbalSeqNo = t.seqNo.ullGlobalSeqNo := by
  intro s hs
  obtain ⟨hsound, hordered⟩ := invariant_along (I := fun s => s.Sound ∧ Ordered s)
    (fun s ev h hw => ⟨sysStep_sound env s ev h.1, sysStep_ordered env s ev h.1 h.2 hw⟩)
    ⟨start_sound env cnf nalloc, start_ordered env cnf nalloc⟩ hwrap s hs
  refine ⟨hordered.ordered, fun r hr t ht => ⟨hordered.records_numbered r hr t ht, ?_⟩⟩
  obtain ⟨hop, fields, heq⟩ := hsound.stamped r hr t ht
  exact ⟨hop, by rw [heq]; rfl⟩

/-! ## Concrete runs -/

/-- A write of one byte at the start of `/a/c`. -/
def writeByte (byte : UInt8) : Hook := rtbVfsWrite false 0 pathAC [byte] 0

/-- Two processes write to `/a/c`. Both take their numbers, then the original
functions run in the given order, then both return. -/
def twoWrites (first second : Nat) : List Event :=
  [.command (.addSet oneItemRequest), .enter ⟨0, 0⟩ (writeByte 65), .enter ⟨0, 0⟩ (writeByte 66),
    .perform first 1, .perform second 1, .leave 0 true, .leave 1 true]

theorem numbers_follow_effects_two_writes :
    let s := run (sysStep quietKernel) (Sys.start quietKernel [] 0) (twoWrites 0 1)
    s.history.Pairwise NumberedAfter ∧
    ∀ r ∈ s.records, ∀ t, r.ticket = some t →
      Moment.numbered t ∈ s.history ∧ t.op = r.op ∧
      r.piowc.logfile.hdr.ullGolbalSeqNo = t.seqNo.ullGlobalSeqNo :=
  numbers_follow_effects quietKernel [] 0 _ (by decide +kernel) _ (run_mem_states _ _)

/-- The write of `B` takes effect first and has the number 1, the write of `A`
takes effect after it and has the number 0: the records in the order of their
numbers end with `B`, the file holds `A`. -/
theorem effects_swapped :
    let s := run (sysStep quietKernel) (Sys.start quietKernel [] 0) (twoWrites 1 0)
    ¬ s.history.Pairwise EffectsInOrder ∧
    s.history.map (fun m => (m.ticket.op, m.ticket.number)) = [(0, 0), (1, 1), (1, 1), (0, 0)] ∧
    s.records.map (fun r => (r.piowc.logfile.hdr.ullGolbalSeqNo, r.piowc.logfile.data)) =
      [(0, [65]), (1, [66])] := by
  decide +kernel

end RtBackup
