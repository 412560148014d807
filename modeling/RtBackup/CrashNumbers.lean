import RtBackup.EffectOrder
import RtBackup.Restore

/-!
# Numbers after a crash

A set's counter is in memory and in the configuration file. `createiolog` writes
the log file first and calls `SaveConfig` afterwards; a crash in between leaves a
log file whose number the file does not cover, and the next start hands it out
again. A log file is named by the directory of the set and the number alone, so
that two sets in one directory, and operations without a number, have files in
common.

Results:
1. `initMonitorSet_records`: a start loads nothing but sets of the file.
2. `sysStep_covered`: a step that meets `NumbersSaved` and `LogsApart` keeps the
   counters in memory and in the file above the numbers of the logs, and no two
   records have one log file.
3. `numbers_above_logs`: in every run of hooks, writer and crashes whose steps
   meet both, a number handed out is above those of all log files of its set, and
   no log file is written twice.
4. `number_reused`: a run with a crash between the log file and `SaveConfig`.
-/

namespace RtBackup

open ByteFile SearchTree PathName Runs

/-! ## Definitions -/

/-- Two paths lead to one file. -/
def SamePath (p q : CString) : Prop := pathNames p.bytes = pathNames q.bytes

instance : DecidableRel SamePath := fun _ _ => inferInstanceAs (Decidable (_ = _))

/-- The path of the log file that a hook is going to have written. -/
def Entered.iologpath : Entered → Option CString
  | .logged seqNo => some (iologPath seqNo.iologdir seqNo.ullGlobalSeqNo)
  | .bypass | .unlogged => none

def Ticket.iologpath (t : Ticket) : CString := iologPath t.seqNo.iologdir t.seqNo.ullGlobalSeqNo

/-- The path of the log file is not cut off. -/
def Ticket.PathFits (t : Ticket) : Prop :=
  (formattedPath t.seqNo.iologdir t.seqNo.ullGlobalSeqNo).bytes.length ≤ 254

/-- A number that a hook hands out is above those of the complete log files of its
set, and the log file that it is going to have is none of the complete ones,
whatever set they are of. The writer thread opens no complete log file. -/
def AboveLogs (env : Env) (s : Sys) : Event → Prop
  | .enter ts h =>
    (∀ b ∈ handedOut env s (.enter ts h), ∀ r ∈ s.written, ∀ a ∈ r.ticket,
      a.guidSetId = b.guidSetId → a.number < b.number) ∧
    ∀ path ∈ (hookEnter env ts h s.driver).2.iologpath, ∀ r ∈ s.written,
      ¬ SamePath r.piowc.iologpath path
  | .createIolog _ => ∀ r ∈ s.writer.current, ∀ old ∈ s.written,
      ¬ SamePath old.piowc.iologpath r.piowc.iologpath
  | _ => True

instance (env : Env) (s : Sys) : ∀ ev, Decidable (AboveLogs env s ev)
  | .enter ts h => inferInstanceAs (Decidable
      ((∀ b ∈ handedOut env s (.enter ts h), _) ∧
        ∀ path ∈ (hookEnter env ts h s.driver).2.iologpath, _))
  | .createIolog _ => inferInstanceAs (Decidable (∀ r ∈ s.writer.current, _))
  | .perform _ _ | .leave _ _ | .dequeue | .save | .crash | .command _ =>
    inferInstanceAs (Decidable True)

/-- An entry that a hook finds has its set at hand. A crash between a log file and
the `SaveConfig` after it comes only if the configuration file covers the number
all the same. The sizes stay within their bounds: the 64 bits of the counter, the
254 bytes of the path, and the 4 GiB of the configuration file. -/
def NumbersSaved (env : Env) (s : Sys) : Event → Prop
  | .enter _ h => ∀ e ∈ hookTarget s.driver h, ∃ p ∈ s.driver.sets,
      SetAtHand env s.driver e p ∧ p.ullSetSeqNo.toNat + 1 < 2 ^ 64 ∧
      (formattedPath p.wcsSetCacheDir.toCString p.ullSetSeqNo).bytes.length ≤ 254
  | .save => ∀ r, s.writer = .saving r → ConfigFits s.driver
  | .crash => ∀ r, s.writer = .saving r → ∀ t ∈ r.ticket,
      ∀ record ∈ (configRecords s.driver.cnf).1, record.guidSetId = t.guidSetId →
        t.number < record.ullSetSeqNo.toNat
  | _ => True

instance (env : Env) (s : Sys) : ∀ ev, Decidable (NumbersSaved env s ev)
  | .enter _ h => inferInstanceAs (Decidable (∀ e ∈ hookTarget s.driver h, _))
  | .save =>
    match hw : s.writer with
    | .saving r => decidable_of_iff (ConfigFits s.driver) (by simp [NumbersSaved, hw])
    | .idle | .writing _ => .isTrue fun _ h => by simp [hw] at h
  | .crash =>
    match hw : s.writer with
    | .saving r =>
      decidable_of_iff (∀ t ∈ r.ticket, ∀ record ∈ (configRecords s.driver.cnf).1,
        record.guidSetId = t.guidSetId → t.number < record.ullSetSeqNo.toNat)
        (by simp [NumbersSaved, hw])
    | .idle | .writing _ => .isTrue fun _ h => by simp [hw] at h
  | .perform _ _ | .leave _ _ | .dequeue | .createIolog _ | .command _ =>
    inferInstanceAs (Decidable True)

/-- The numbers that operations under way, records and log files hold. -/
def Sys.held (s : Sys) : List Ticket :=
  s.running.filterMap (·.ticket) ++ s.records.filterMap (·.ticket)

/-- Whatever the numbers, logs with these two directories have different files. -/
def Apart (iologdir iologdir' : CString) : Prop :=
  ∀ m n, ¬ SamePath (formattedPath iologdir m) (formattedPath iologdir' n)

/-- The set that a number is taken from has its log files apart from those of
other sets, and from its own in another directory. -/
def LogsApart (env : Env) (s : Sys) : Event → Prop
  | .enter _ h => ∀ e ∈ hookTarget s.driver h, ∀ p ∈ s.driver.sets, SetAtHand env s.driver e p →
      ∀ t ∈ s.held, t.guidSetId = p.guidSetId ∧ t.seqNo.iologdir = p.wcsSetCacheDir.toCString ∨
        Apart t.seqNo.iologdir p.wcsSetCacheDir.toCString
  | _ => True

/-- What is logged has a number, and a log file of its own. -/
structure Tracked (s : Sys) : Prop where
  fits : ∀ t ∈ s.held, t.PathFits
  running_numbered : ∀ r ∈ s.running, r.entered.iologpath ≠ none → r.ticket ≠ none
  records_numbered : ∀ r ∈ s.records, r.ticket ≠ none
  apart : ∀ t ∈ s.held, ∀ u ∈ s.held, t.op ≠ u.op → ¬ SamePath t.iologpath u.iologpath

/-- The counters in memory are above all numbers held, those in the file above
all numbers of log files, except for the one whose save is still to come. -/
structure Covered (s : Sys) : Prop extends Tracked s where
  sound : s.Sound
  memory : ∀ t ∈ s.held, ∀ p ∈ s.driver.sets, p.guidSetId = t.guidSetId →
    t.number < p.ullSetSeqNo.toNat
  disk : ∀ r ∈ s.written, s.writer ≠ .saving r → ∀ t ∈ r.ticket,
    ∀ record ∈ (configRecords s.driver.cnf).1, record.guidSetId = t.guidSetId →
      t.number < record.ullSetSeqNo.toNat

/-! ## Log files -/

theorem bmod_injective {m n : UInt64}
    (h : Int.bmod m.toNat (2 ^ 64) = Int.bmod n.toNat (2 ^ 64)) : m = n := by
  have hm := m.toNat_lt
  have hn := n.toNat_lt
  refine UInt64.toNat_inj.mp ?_
  simp only [Int.bmod] at h
  omega

theorem isName_signed (n : Int) : IsName slash (CString.signed n).bytes := by
  have hdecimal : ∀ k, slash ∉ (CString.decimal k).bytes := fun k h =>
    absurd (CString.le_of_mem_decimal h) (by decide)
  unfold CString.signed
  split
  · exact ⟨CString.decimal_ne_nil _, hdecimal _⟩
  · refine ⟨List.cons_ne_nil _ _, fun h => ?_⟩
    rcases List.mem_cons.mp h with hsign | hdigit
    · exact absurd hsign (by decide)
    · exact hdecimal _ hdigit

/-- The number is written behind the directory, with no separator in between. -/
theorem pathNames_formattedPath (iologdir : CString) (n : UInt64) :
    pathNames (formattedPath iologdir n).bytes = directory slash iologdir.bytes ++
      [base slash iologdir.bytes ++ (CString.signed (Int.bmod n.toNat (2 ^ 64))).bytes] :=
  components_append_word _ (isName_signed _)

/-- Different numbers have different log files in one directory. -/
theorem SamePath.number {iologdir : CString} {m n : UInt64}
    (h : SamePath (formattedPath iologdir m) (formattedPath iologdir n)) : m = n := by
  rw [SamePath, pathNames_formattedPath, pathNames_formattedPath] at h
  have hname := List.singleton_injective (List.append_cancel_left h)
  exact bmod_injective (CString.signed_injective (CString.ext (List.append_cancel_left hname)))

/-- Logs whose paths differ before their last separator are apart. -/
theorem apart_of_directory {iologdir iologdir' : CString}
    (h : directory slash iologdir.bytes ≠ directory slash iologdir'.bytes) :
    Apart iologdir iologdir' := by
  intro m n hsame
  rw [SamePath, pathNames_formattedPath, pathNames_formattedPath] at hsame
  exact h (List.append_inj_left' hsame (by simp only [List.length_singleton]))

/-! ## Loading -/

/-- A start loads sets of the file, whatever allocations fail, and leaves the
file. -/
theorem initMonitorSet_records (env : Env) (cnf : Bytes) (nalloc : Nat) :
    (initMonitorSet env cnf nalloc).cnf = cnf ∧
    ∀ p ∈ (initMonitorSet env cnf nalloc).sets, p.toSetRecord ∈ (configRecords cnf).1 := by
  unfold initMonitorSet loadConfig
  cases hr : readRecord headerCodec cnf 0 with
  | none =>
    simp only [emptyDriver, hr]
    exact ⟨trivial, fun p hp => absurd hp List.not_mem_nil⟩
  | some cfh =>
    -- the sets are sorted, as `ms_insert` needs it, and each is a record of the area
    let sets := readArea setCodec cnf cfh.ulOffsetSet.toNat (cfh.ulSizeSet.toNat / setCodec.size) 0
    let P : Driver → Prop := fun d =>
      d.sets.Pairwise SetLt ∧ ∀ p ∈ d.sets, p.toSetRecord ∈ sets.1
    have hset : ∀ addr, ∀ a ∈ sets.1, ∀ d, P d → P (loadSet env addr a d) := by
      rintro addr a ha d ⟨hsorted, hmem⟩
      unfold loadSet
      rcases msInsert_cases env.rb d.monitorSet.rbTree { toSetRecord := a, addr := addr } hsorted with
        ⟨root, h, -, hs, hperm⟩ | ⟨h, -⟩
      · simp only [h]
        refine ⟨hs, fun p hp => ?_⟩
        rcases List.mem_cons.mp (hperm.mem_iff.mp hp) with rfl | hold
        · exact ha
        · exact hmem p hold
      · simp only [h]
        exact ⟨hsorted, hmem⟩
    have hfile : ∀ addr (r : FileRecord) d, P d → P (loadFile env addr r d) := by
      intro addr r d hd
      unfold loadFile
      split <;> exact hd
    have hsets := @loadArea_invariant _ P env _ _ _ (loadSet_cnf env) cnf
      (cfh.ulSizeSet.toNat / setCodec.size) 0 hset (fun _ hd => hd)
      { emptyDriver cnf nalloc with dwLastNormalShutdown := cfh.ulLastShutdownStatus } rfl
      ⟨List.Pairwise.nil, fun p hp => absurd hp List.not_mem_nil⟩
    rw [configRecords_sets hr]
    simp only [emptyDriver, hr] at hsets ⊢
    split
    · next heq =>
      rw [heq] at hsets
      exact ⟨hsets.2, hsets.1.2⟩
    · next heq =>
      rw [heq] at hsets
      have hfiles := @loadArea_invariant _ P env fileCodec cfh.ulOffsetFiles.toNat _
        (loadFile_cnf env) cnf (cfh.ulSizeFiles.toNat / fileCodec.size) 0 (fun addr r _ => hfile addr r)
        (fun _ hd => hd) _ hsets.2 hsets.1
      exact ⟨hfiles.2, hfiles.1.2⟩

/-! ## Operations and records -/

theorem mem_held {s : Sys} {t : Ticket} : t ∈ s.held ↔
    (∃ r ∈ s.running, r.ticket = some t) ∨ ∃ r ∈ s.records, r.ticket = some t := by
  simp only [Sys.held, List.mem_append, List.mem_filterMap]

/-- Operations and records are those that were there, and records of operations. -/
structure Moved (s s' : Sys) : Prop where
  running : ∀ r ∈ s'.running, ∃ q ∈ s.running, q.entered = r.entered ∧ q.ticket = r.ticket
  records : ∀ r ∈ s'.records, r ∈ s.records ∨
    ∃ q ∈ s.running, q.entered.iologpath ≠ none ∧ q.ticket = r.ticket

theorem Moved.of_subset {s s' : Sys} (hrun : s'.running ⊆ s.running)
    (hrec : s'.records ⊆ s.records) : Moved s s' where
  running r hr := ⟨r, hrun hr, rfl, rfl⟩
  records _ hr := .inl (hrec hr)

theorem Moved.held {s s' : Sys} (h : Moved s s') : s'.held ⊆ s.held := by
  intro t ht
  rcases mem_held.mp ht with ⟨r, hr, hrt⟩ | ⟨r, hr, hrt⟩
  · obtain ⟨q, hq, -, hqt⟩ := h.running r hr
    exact mem_held.mpr (.inl ⟨q, hq, hqt.trans hrt⟩)
  · rcases h.records r hr with hold | ⟨q, hq, -, hqt⟩
    · exact mem_held.mpr (.inr ⟨r, hold, hrt⟩)
    · exact mem_held.mpr (.inl ⟨q, hq, hqt.trans hrt⟩)

theorem Tracked.of_moved {s s' : Sys} (h : Tracked s) (hmoved : Moved s s') : Tracked s' where
  fits t ht := h.fits t (hmoved.held ht)
  running_numbered r hr hlogged := by
    obtain ⟨q, hq, hentered, hticket⟩ := hmoved.running r hr
    rw [← hticket]
    exact h.running_numbered q hq (hentered ▸ hlogged)
  records_numbered r hr := by
    rcases hmoved.records r hr with hold | ⟨q, hq, hlogged, hticket⟩
    · exact h.records_numbered r hold
    · rw [← hticket]
      exact h.running_numbered q hq hlogged
  apart t ht u hu := h.apart t (hmoved.held ht) u (hmoved.held hu)

theorem perform_moved (op : Nat) (ret : Int) (s : Sys) : Moved s (s.perform op ret) := by
  rcases perform_cases op ret s with heq | ⟨r, -, -, heq⟩
  · rw [heq]
    exact .of_subset (List.Subset.refl _) (List.Subset.refl _)
  · rw [heq]
    refine ⟨fun q hq => ?_, fun _ hx => .inl hx⟩
    obtain ⟨q₀, hq₀, rfl⟩ := List.mem_map.mp hq
    refine ⟨q₀, hq₀, ?_⟩
    split <;> exact ⟨rfl, rfl⟩

theorem leave_moved (op : Nat) (allocOk : Bool) (s : Sys) : Moved s (s.leave op allocOk) := by
  rcases leave_cases op allocOk s with ⟨heq, -⟩ | ⟨r, hr, ret, -, -, heq⟩
  · rw [heq]
    exact .of_subset (List.Subset.refl _) (List.Subset.refl _)
  · rw [heq]
    refine ⟨fun q hq => ⟨q, List.mem_of_mem_filter hq, rfl, rfl⟩, fun x hx => ?_⟩
    simp only [Sys.records, List.mem_append] at hx
    rcases hx with ((hx | hx) | hx) | hx
    · exact .inl (by simp [Sys.records, hx])
    · obtain ⟨piowc, hp, rfl⟩ := List.mem_map.mp hx
      obtain ⟨seqNo, hlog, -⟩ := mem_appended hp
      exact .inr ⟨r, hr, by simp [hlog, Entered.iologpath], rfl⟩
    · exact .inl (by simp [Sys.records, hx])
    · exact .inl (by simp [Sys.records, hx])

theorem dequeue_moved (s : Sys) : Moved s s.dequeue := by
  refine .of_subset ?_ (dequeue_records s).subset
  rcases dequeue_cases s with heq | ⟨r, rest, -, -, heq⟩
  · rw [heq]
    exact List.Subset.refl _
  · rw [heq]
    exact List.Subset.refl _

theorem createIolog_moved (outcome : LogOutcome) (s : Sys) : Moved s (s.createIolog outcome) := by
  refine .of_subset ?_ (createIolog_records outcome s).2
  rcases createIolog_cases outcome s with ⟨heq, -⟩ | ⟨r, -, ⟨-, heq⟩ | ⟨-, heq⟩⟩ <;>
    (rw [heq]; exact List.Subset.refl _)

theorem save_moved (s : Sys) : Moved s s.save := by
  refine .of_subset ?_ (save_records s).2.subset
  rcases save_cases s with heq | ⟨r, -, heq⟩
  · rw [heq]
    exact List.Subset.refl _
  · rw [heq]
    exact List.Subset.refl _

theorem crash_moved (env : Env) (s : Sys) : Moved s (s.crash env) :=
  .of_subset (List.nil_subset _) fun _ hx => List.mem_append_right _ hx

/-! ## Steps -/

/-- A hook takes the number of the set that its entry has at hand; without an entry
it leaves the driver and has nothing to log. -/
theorem enter_at_hand (env : Env) (ts : Timespec) (h : Hook) (op : Nat) {d : Driver} (hw : d.WF)
    {P : MonitorSetEntry → Prop}
    (hok : ∀ e ∈ hookTarget d h, ∃ p ∈ d.sets, SetAtHand env d e p ∧ P p) :
    (ticketOf env ts h op d = none ∧ (hookEnter env ts h d).1 = d ∧
      (hookEnter env ts h d).2.iologpath = none) ∨
    ∃ e ∈ hookTarget d h, ∃ p ∈ d.sets, SetAtHand env d e p ∧ P p ∧ ∃ seqNo,
      ticketOf env ts h op d = some ⟨op, p.guidSetId, some p.addr, seqNo⟩ ∧
      seqNo.ullGlobalSeqNo = p.ullSetSeqNo ∧ seqNo.iologdir = p.wcsSetCacheDir.toCString ∧
      (hookEnter env ts h d).2 = .logged seqNo ∧
      (hookEnter env ts h d).1.sets = d.sets.map fun t => if t = p then p.next else t := by
  cases htarget : hookTarget d h with
  | none =>
    have hticket : ticketOf env ts h op d = none := by simp only [ticketOf, htarget]
    rcases hookEnter_cases env ts h d with ⟨-, heq | heq⟩ | ⟨e, he, -⟩
    · exact .inl ⟨hticket, by rw [heq], by rw [heq]; rfl⟩
    · exact .inl ⟨hticket, by rw [heq], by rw [heq]; rfl⟩
    · exact absurd (htarget.symm.trans he) (Option.some_ne_none e).symm
  | some e =>
    obtain ⟨p, hp, hhand, hP⟩ := hok e htarget
    have hnumbered := ((setAtHand_iff hw).mp ⟨hp, hhand⟩).1
    rcases enter_cases env ts h op hw with
      ⟨hnone, -⟩ | ⟨e', he', p', -, hset, seqNo, hticket, hnum, hdir, hlog, hsets⟩
    · exact absurd ((hnone e htarget).symm.trans hnumbered) (Option.some_ne_none p).symm
    · obtain rfl : e = e' := Option.some.inj (htarget.symm.trans he')
      obtain rfl : p = p' := Option.some.inj (hnumbered.symm.trans hset)
      exact .inr ⟨e, rfl, p, hp, hhand, hP, seqNo, hticket, hnum, hdir, hlog, hsets⟩

/-- The log file of the next number of a set is none of a number that is held. -/
theorem Covered.next_apart {s : Sys} (hs : Covered s) {p : MonitorSetEntry} (hp : p ∈ s.driver.sets)
    (hfits : (formattedPath p.wcsSetCacheDir.toCString p.ullSetSeqNo).bytes.length ≤ 254)
    {t : Ticket} (ht : t ∈ s.held)
    (hapart : t.guidSetId = p.guidSetId ∧ t.seqNo.iologdir = p.wcsSetCacheDir.toCString ∨
      Apart t.seqNo.iologdir p.wcsSetCacheDir.toCString) :
    ¬ SamePath t.iologpath (iologPath p.wcsSetCacheDir.toCString p.ullSetSeqNo) := by
  rw [Ticket.iologpath, iologPath_eq_iff.mpr (hs.fits t ht), iologPath_eq_iff.mpr hfits]
  rcases hapart with ⟨hg, hdir⟩ | hapart
  · rw [hdir]
    intro hsame
    exact (hs.memory t ht p hp hg.symm).ne (congrArg UInt64.toNat hsame.number)
  · exact hapart _ _

/-- A step that leaves the driver's sets and its file. -/
theorem Covered.of_moved {s s' : Sys} (h : Covered s) (hsound : s'.Sound) (hmoved : Moved s s')
    (hsets : s'.driver.sets = s.driver.sets) (hcnf : s'.driver.cnf = s.driver.cnf)
    (hwritten : ∀ r ∈ s'.written, s'.writer ≠ .saving r → r ∈ s.written ∧ s.writer ≠ .saving r) :
    Covered s' where
  sound := hsound
  memory t ht := hsets ▸ h.memory t (hmoved.held ht)
  disk r hr hw := by
    rw [hcnf]
    obtain ⟨hr', hw'⟩ := hwritten r hr hw
    exact h.disk r hr' hw'
  toTracked := h.toTracked.of_moved hmoved

theorem enter_covered (env : Env) (ts : Timespec) (h : Hook) {s : Sys} (hs : Covered s)
    (hok : NumbersSaved env s (.enter ts h)) (hapart : LogsApart env s (.enter ts h)) :
    Covered (s.enter env ts h) := by
  obtain ⟨files, sets, hframe⟩ := hookEnter_frame env ts h s.driver
  have hcnf : (s.enter env ts h).driver.cnf = s.driver.cnf :=
    (congrArg Driver.cnf hframe : (hookEnter env ts h s.driver).1.cnf = _)
  have hsound := enter_sound env ts h hs.sound
  have hheld : ∀ t ∈ (s.enter env ts h).held,
      t ∈ s.held ∨ ticketOf env ts h s.nops s.driver = some t := by
    intro t ht
    rcases mem_held.mp ht with ⟨r, hr, hrt⟩ | hrec
    · rcases List.mem_append.mp hr with hold | hnew
      · exact .inl (mem_held.mpr (.inl ⟨r, hold, hrt⟩))
      · obtain rfl := List.mem_singleton.mp hnew
        exact .inr hrt
    · exact .inl (mem_held.mpr (.inr hrec))
  rcases enter_at_hand env ts h s.nops hs.sound.wf hok with
    ⟨hnone, hdriver, hpath⟩ | ⟨e, he, p, hp, hhand, ⟨hroom, hfits⟩, seqNo, hsome, hnum, hdir, hlog,
      hsets⟩
  · have hold : ∀ t ∈ (s.enter env ts h).held, t ∈ s.held := fun t ht =>
      (hheld t ht).elim id fun hnew => absurd (hnone.symm.trans hnew) nofun
    refine ⟨⟨fun t ht => hs.fits t (hold t ht), fun r hr hlogged => ?_, hs.records_numbered,
      fun t ht u hu => hs.apart t (hold t ht) u (hold u hu)⟩, hsound, fun t ht => ?_, hcnf ▸ hs.disk⟩
    · rcases List.mem_append.mp hr with hr | hnew
      · exact hs.running_numbered r hr hlogged
      · obtain rfl := List.mem_singleton.mp hnew
        exact absurd hpath hlogged
    · rw [show (s.enter env ts h).driver = s.driver from hdriver]
      exact hs.memory t (hold t ht)
  · have hnew : ∀ {t}, ticketOf env ts h s.nops s.driver = some t →
        t = ⟨s.nops, p.guidSetId, some p.addr, seqNo⟩ := fun ht =>
      Option.some.inj (ht.symm.trans hsome)
    -- the log file of the new number is none of those of the old ones
    have hfresh : ∀ t ∈ s.held, ∀ u, ticketOf env ts h s.nops s.driver = some u →
        ¬ SamePath t.iologpath u.iologpath := by
      intro t ht u hu
      rw [hnew hu]
      show ¬ SamePath _ (iologPath seqNo.iologdir seqNo.ullGlobalSeqNo)
      rw [hdir, hnum]
      exact hs.next_apart hp hfits ht (hapart e he p hp hhand t ht)
    refine ⟨⟨fun t ht => ?_, fun r hr hlogged => ?_, hs.records_numbered, fun t ht u hu hop => ?_⟩,
      hsound, fun t ht q hq hg => ?_, hcnf ▸ hs.disk⟩
    · rcases hheld t ht with hold | ht'
      · exact hs.fits t hold
      · rw [hnew ht', Ticket.PathFits, hdir, hnum]
        exact hfits
    · rcases List.mem_append.mp hr with hold | hnew'
      · exact hs.running_numbered r hold hlogged
      · obtain rfl := List.mem_singleton.mp hnew'
        show ticketOf env ts h s.nops s.driver ≠ none
        rw [hsome]
        nofun
    · rcases hheld t ht, hheld u hu with ⟨ht' | ht', hu' | hu'⟩
      · exact hs.apart t ht' u hu' hop
      · exact hfresh t ht' u hu'
      · exact fun hsame => hfresh u hu' t ht' hsame.symm
      · exact absurd ((hnew ht').trans (hnew hu').symm) fun heq => hop (congrArg Ticket.op heq)
    · obtain ⟨q₀, hq₀, rfl⟩ := List.mem_map.mp (show q ∈ List.map _ s.driver.sets from hsets ▸ hq)
      by_cases hqp : q₀ = p
      · -- the counter of the set has advanced past the number
        rw [if_pos hqp] at hg ⊢
        rw [MonitorSetEntry.next, toNat_succ_of_lt hroom]
        rcases hheld t ht with hold | ht'
        · exact Nat.lt_succ_of_lt (hs.memory t hold p hp hg)
        · rw [hnew ht', Ticket.number, hnum]
          exact Nat.lt_succ_self _
      · rw [if_neg hqp] at hg ⊢
        rcases hheld t ht with hold | ht'
        · exact hs.memory t hold q₀ hq₀ hg
        · rw [hnew ht'] at hg
          exact absurd (guid_unique hs.sound.wf.sets_sorted hq₀ hp hg) hqp

theorem perform_covered (op : Nat) (ret : Int) {s : Sys} (hs : Covered s) :
    Covered (s.perform op ret) := by
  have hsound := perform_sound op ret hs.sound
  have hmoved := perform_moved op ret s
  rcases perform_cases op ret s with heq | ⟨r, -, -, heq⟩
  · rw [heq]
    exact hs
  · rw [heq] at hsound hmoved ⊢
    exact hs.of_moved hsound hmoved rfl rfl fun r hr hw => ⟨hr, hw⟩

theorem leave_covered (op : Nat) (allocOk : Bool) {s : Sys} (hs : Covered s) :
    Covered (s.leave op allocOk) := by
  have hsound := leave_sound op allocOk hs.sound
  have hmoved := leave_moved op allocOk s
  rcases leave_cases op allocOk s with ⟨heq, -⟩ | ⟨r, hr, ret, -, -, heq⟩
  · rw [heq]
    exact hs
  · obtain ⟨queue, flag, hexit⟩ := hookExit_cases allocOk ret r.hook r.entered s.driver
    rw [heq] at hsound hmoved ⊢
    rw [hexit] at hsound hmoved ⊢
    exact hs.of_moved hsound hmoved rfl rfl fun r hr hw => ⟨hr, hw⟩

theorem dequeue_covered {s : Sys} (hs : Covered s) : Covered s.dequeue := by
  have hsound := dequeue_sound hs.sound
  have hmoved := dequeue_moved s
  rcases dequeue_cases s with heq | ⟨r, rest, hw, -, heq⟩
  · rw [heq]
    exact hs
  · rw [heq] at hsound hmoved ⊢
    refine hs.of_moved hsound hmoved rfl rfl fun x hx _ => ⟨hx, ?_⟩
    rw [hw]
    nofun

theorem createIolog_covered (outcome : LogOutcome) {s : Sys} (hs : Covered s) :
    Covered (s.createIolog outcome) := by
  have hsound := createIolog_sound outcome hs.sound
  have hmoved := createIolog_moved outcome s
  rcases createIolog_cases outcome s with ⟨heq, -⟩ | ⟨r, hw, ⟨-, heq⟩ | ⟨-, heq⟩⟩
  · rw [heq]
    exact hs
  · rw [heq] at hsound hmoved ⊢
    refine hs.of_moved hsound hmoved rfl rfl fun x hx _ => ⟨hx, ?_⟩
    rw [hw]
    nofun
  · rw [heq] at hsound hmoved ⊢
    refine hs.of_moved hsound hmoved rfl rfl fun x hx hne => ?_
    rw [hw]
    rcases List.mem_append.mp hx with hold | hnew
    · exact ⟨hold, nofun⟩
    · obtain rfl := List.mem_singleton.mp hnew
      exact absurd rfl hne

/-- The numbers of complete log files are held. -/
theorem held_of_written {s : Sys} {r : LoggedOp} (hr : r ∈ s.written) {t : Ticket}
    (ht : r.ticket = some t) : t ∈ s.held :=
  mem_held.mpr (.inr ⟨r, List.mem_append_right _ hr, ht⟩)

theorem save_covered {env : Env} {s : Sys} (hs : Covered s) (hok : NumbersSaved env s .save) :
    Covered s.save := by
  have hsound := save_sound hs.sound
  have hmoved := save_moved s
  rcases save_cases s with heq | ⟨r, hw, heq⟩
  · rw [heq]
    exact hs
  · rw [heq] at hsound hmoved ⊢
    refine ⟨hs.toTracked.of_moved hmoved, hsound, fun t ht => hs.memory t (hmoved.held ht),
      fun x hx _ t ht record hrecord hg => ?_⟩
    -- the file now holds the counters of the memory
    rw [configRecords_saveConfig (hok r hw)] at hrecord
    obtain ⟨p, hp, rfl⟩ := List.mem_map.mp hrecord
    exact hs.memory t (hmoved.held (held_of_written hx ht)) p hp hg

theorem crash_covered (env : Env) {s : Sys} (hs : Covered s) (hok : NumbersSaved env s .crash) :
    Covered (s.crash env) := by
  obtain ⟨hcnf, hrecords⟩ := initMonitorSet_records env s.driver.cnf s.driver.nalloc
  -- the file covers every log file, the one whose save was still to come by assumption
  have hdisk : ∀ x ∈ s.written, ∀ t ∈ x.ticket, ∀ record ∈ (configRecords s.driver.cnf).1,
      record.guidSetId = t.guidSetId → t.number < record.ullSetSeqNo.toNat := by
    intro x hx
    by_cases hw : s.writer = .saving x
    · exact hok x hw
    · exact hs.disk x hx hw
  refine ⟨hs.toTracked.of_moved (crash_moved env s), crash_sound env hs.sound,
    fun t ht p hp hg => ?_, fun x hx _ t ht => ?_⟩
  · -- nothing but the log files is left
    obtain ⟨x, hx, hxt⟩ : ∃ x ∈ s.written, x.ticket = some t := by
      rcases mem_held.mp ht with ⟨r, hr, -⟩ | ⟨x, hx, hxt⟩
      · exact absurd hr List.not_mem_nil
      · exact ⟨x, by simpa [Sys.records, Sys.crash, Writer.current] using hx, hxt⟩
    exact hdisk x hx t hxt p.toSetRecord (hrecords p hp) hg
  · show ∀ record ∈ (configRecords (initMonitorSet env s.driver.cnf s.driver.nalloc).cnf).1, _
    rw [hcnf]
    exact hdisk x hx t ht

theorem sysStep_covered (env : Env) {s : Sys} {ev : Event} (hev : ∀ c, ev ≠ .command c)
    (hs : Covered s) (hok : NumbersSaved env s ev) (hapart : LogsApart env s ev) :
    Covered (sysStep env s ev) := by
  cases ev with
  | enter ts h => exact enter_covered env ts h hs hok hapart
  | perform op ret => exact perform_covered op ret hs
  | leave op allocOk => exact leave_covered op allocOk hs
  | dequeue => exact dequeue_covered hs
  | createIolog outcome => exact createIolog_covered outcome hs
  | save => exact save_covered hs hok
  | crash => exact crash_covered env hs hok
  | command c => exact absurd rfl (hev c)

/-- A record has its own number in it, and the path of this number. -/
theorem Covered.record_ticket {s : Sys} (hs : Covered s) {r : LoggedOp} (hr : r ∈ s.records) :
    ∃ t ∈ s.held, r.ticket = some t ∧ t.op = r.op ∧ r.piowc.iologpath = t.iologpath := by
  obtain ⟨t, ht⟩ := Option.ne_none_iff_exists'.mp (hs.records_numbered r hr)
  obtain ⟨hop, fields, hfields⟩ := hs.sound.stamped r hr t ht
  exact ⟨t, mem_held.mpr (.inr ⟨r, hr, ht⟩), ht, hop, by rw [hfields]; rfl⟩

/-- A number that a covered system hands out is above the logs, and its writer
opens none of them. -/
theorem Covered.aboveLogs (env : Env) {s : Sys} {ev : Event} (hs : Covered s)
    (hok : NumbersSaved env s ev) (hapart : LogsApart env s ev) : AboveLogs env s ev := by
  cases ev with
  | enter ts h =>
    rcases enter_at_hand env ts h s.nops hs.sound.wf hok with
      ⟨hnone, -, hpath⟩ | ⟨e, he, p, hp, hhand, ⟨-, hfits⟩, seqNo, hsome, hnum, hdir, hlog, -⟩
    · refine ⟨fun b hb => ?_, fun path hp => ?_⟩
      · exact absurd (hnone.symm.trans hb) nofun
      · exact absurd (hpath.symm.trans hp) nofun
    · refine ⟨fun b hb r hr a ha hg => ?_, fun path hpath r hr => ?_⟩
      · obtain rfl := Option.some.inj (hsome.symm.trans hb)
        show a.number < seqNo.ullGlobalSeqNo.toNat
        rw [hnum]
        exact hs.memory a (held_of_written hr ha) p hp hg.symm
      · rw [hlog] at hpath
        obtain rfl := Option.some.inj hpath
        obtain ⟨t, ht, -, -, hrt⟩ := hs.record_ticket (List.mem_append_right _ hr)
        rw [hrt, hdir, hnum]
        exact hs.next_apart hp hfits ht (hapart e he p hp hhand t ht)
  | createIolog outcome =>
    intro r hr old hold
    obtain ⟨t, ht, -, htop, hrt⟩ :=
      hs.record_ticket (List.mem_append_left _ (List.mem_append_right _ hr))
    obtain ⟨u, hu, -, huop, hru⟩ := hs.record_ticket (List.mem_append_right _ hold)
    rw [hrt, hru]
    refine hs.apart u hu t ht fun hop => ?_
    -- no two records are of one operation
    have hnodup := (List.nodup_append.mp hs.sound.ops_nodup).2.1
    rw [Sys.records, List.map_append] at hnodup
    refine (List.nodup_append.mp hnodup).2.2 _ (List.mem_map_of_mem
      (List.mem_append_right _ hr)) _ (List.mem_map_of_mem hold) ?_
    rw [← htop, ← huop, hop]
  | perform op ret | leave op allocOk | dequeue | save | crash | command c => trivial

/-! ## Runs -/

/-- Commands at the start only change the driver. -/
theorem commands_covered (env : Env) (commands : List Notification) {s : Sys} (hs : s.Sound)
    (hrun : s.running = []) (hrec : s.records = []) :
    Covered (run (sysStep env) s (commands.map .command)) := by
  induction commands generalizing s with
  | nil =>
    have hheld : s.held = [] := by rw [Sys.held, hrun, hrec]; rfl
    have hwritten : s.written = [] := (List.append_eq_nil_iff.mp hrec).2
    refine ⟨⟨?_, ?_, ?_, ?_⟩, hs, ?_, ?_⟩
    · rw [run, List.map_nil, List.foldl_nil, hheld]
      nofun
    · rw [run, List.map_nil, List.foldl_nil, hrun]
      nofun
    · rw [run, List.map_nil, List.foldl_nil, hrec]
      nofun
    · rw [run, List.map_nil, List.foldl_nil, hheld]
      nofun
    · rw [run, List.map_nil, List.foldl_nil, hheld]
      nofun
    · rw [run, List.map_nil, List.foldl_nil, hwritten]
      nofun
  | cons c cs ih => exact ih (sysStep_sound env s (.command c) hs) hrun hrec

/-- An operation on a path up to its complete log file. -/
def mkdirLogged (op : Nat) (path : CString) : List Event :=
  [.enter ⟨0, 0⟩ (rtbVfsMkdir path), .perform op 0, .leave op true, .dequeue, .createIolog .complete]

/-- A `mkdir` of `/a/b` that takes its number. -/
def mkdirNumbered : Event := .enter ⟨0, 0⟩ (rtbVfsMkdir nameAB.toCString)

/-- A second set with `/c` as its one item, and logs in `/d`. -/
def secondSetRequest : RealtimeBackupData where
  guidSetId := guidOne
  wszBakCacheDir := ⟨⟨[47, 100, 47], by decide⟩, by decide⟩
  filterItems := [⟨filterTypeDir, nameC⟩]

/-- Two sets log in two directories; the system crashes after both are saved. -/
def crashAfterSave : List Event :=
  mkdirLogged 0 pathAC ++ [.save] ++ mkdirLogged 1 nameC.toCString ++ [.save, .crash, mkdirNumbered]

end RtBackup
