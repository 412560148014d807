import RtBackup.SaveLoad
import Mathlib.Data.List.Range

/-!
# Record numbers

A hook that finds an entry takes a number from the entry and one from its set.
The call that takes them fails when the pointer of the entry is empty and the set
is gone or the counter of the sets is 0; the hook then logs all the same, with the
number 0 and no directory. With a pointer to a set that is gone it takes the number
of whatever has the memory now.

Results:
1. `hookCall_cases`: what a hook that finds an entry logs, and what it counts.
2. `numberedFreshly_iff`: a hooked operation is numbered freshly exactly when the
   set of the entry is at hand and the path of its log file is not cut off.
3. `processNetlinkCmd_keeps`: a command leaves the numbers of the sets that it
   does not delete, and the queue.
4. `numbers_fresh_iff`: the runs whose hooked operations are all numbered freshly
   are those whose steps meet `CanNumber`, and along them the numbers of a set are
   consecutive.
-/

namespace RtBackup

open ByteFile SearchTree Runs

/-! ## Definitions -/

/-- A set with its counter advanced. -/
def MonitorSetEntry.next (s : MonitorSetEntry) : MonitorSetEntry :=
  { s with ullSetSeqNo := s.ullSetSeqNo + 1 }

/-- A hooked operation appends one record, with the numbers that its entry and
the set of the entry had and with the path of the set, and advances these two
counters; without an entry it changes neither the queue nor an entry. -/
def NumberedFreshly (env : Env) (d : Driver) (c : HookCall) : Prop :=
  match hookTarget d c.hook with
  | none =>
    (hookCall env c d).iowritequeue = d.iowritequeue ∧
    (hookCall env c d).sets = d.sets ∧ (hookCall env c d).files = d.files
  | some e => ∃ s ∈ d.sets, s.guidSetId = e.guidSetId ∧
    (∃ piowc, (hookCall env c d).iowritequeue = d.iowritequeue ++ [piowc] ∧
      piowc.logfile.hdr.ullGolbalSeqNo = s.ullSetSeqNo ∧
      piowc.logfile.hdr.ullSeqNo = e.ullSeqNo ∧
      piowc.iologpath = formattedPath s.wcsSetCacheDir.toCString s.ullSetSeqNo) ∧
    (hookCall env c d).sets = d.sets.map (fun t => if t = s then s.next else t) ∧
    ∃ pmse, setAt env d pmse = some s ∧ (hookCall env c d).files = d.files.map fun f =>
      if f = e then { e with ullSeqNo := e.ullSeqNo + 1, pSetEntry := some pmse } else f

/-- The set `s` is there with the GUID of the entry, and the pointer of the entry
leads to it or is empty while the sets are counted. -/
def SetAtHand (env : Env) (d : Driver) (pmfe : MonitorFileEntry) (s : MonitorSetEntry) : Prop :=
  s.guidSetId = pmfe.guidSetId ∧
    (pmfe.pSetEntry = none ∧ 0 < d.monitorSet.ulCounts ∨
      ∃ pmse ∈ pmfe.pSetEntry, setAt env d pmse = some s)

instance (env : Env) (d : Driver) (pmfe : MonitorFileEntry) (s : MonitorSetEntry) :
    Decidable (SetAtHand env d pmfe s) :=
  inferInstanceAs (Decidable (_ ∧ (_ ∨ ∃ pmse ∈ pmfe.pSetEntry, _)))

/-- The entry that a hook finds has its set at hand, and the path of the log file
fits into its buffer. -/
def CanNumber (env : Env) (d : Driver) (c : HookCall) : Prop :=
  ∀ e ∈ hookTarget d c.hook, ∃ s ∈ d.sets, SetAtHand env d e s ∧
    (formattedPath s.wcsSetCacheDir.toCString s.ullSetSeqNo).bytes.length ≤ 254

instance (env : Env) (d : Driver) (c : HookCall) : Decidable (CanNumber env d c) :=
  inferInstanceAs (Decidable (∀ e ∈ hookTarget d c.hook, _))

/-- A condition on the hooked operations of a run. -/
def OnHooks (P : Driver → HookCall → Prop) (d : Driver) : Op → Prop
  | .command _ => True
  | .hook c => P d c

instance {P : Driver → HookCall → Prop} [∀ d c, Decidable (P d c)] (d : Driver) :
    ∀ op, Decidable (OnHooks P d op)
  | .command _ => inferInstanceAs (Decidable True)
  | .hook c => inferInstanceAs (Decidable (P d c))

/-- The numbers of the records that an operation appends for a set. -/
def loggedBy (env : Env) (guid : GUID) (d : Driver) : Op → List UInt64
  | .command _ => []
  | .hook c =>
    match hookTarget d c.hook with
    | none => []
    | some e =>
      if e.guidSetId = guid then
        ((hookCall env c d).iowritequeue.drop d.iowritequeue.length).map
          (·.logfile.hdr.ullGolbalSeqNo)
      else []

/-- The numbers of the records that a run appends for a set, in order. -/
def loggedNumbers (env : Env) (guid : GUID) : Driver → List Op → List UInt64
  | _, [] => []
  | d, op :: ops => loggedBy env guid d op ++ loggedNumbers env guid (opStep env d op) ops

/-! ## One hooked operation -/

theorem hookTarget_sound {d : Driver} {h : Hook} {e : MonitorFileEntry}
    (he : hookTarget d h = some e) : e ∈ d.files := by
  unfold hookTarget at he
  split at he
  · simp at he
  · exact (hookLookup_sound he).1

/-- A hook without an entry can only clear the flag. -/
theorem hookCall_of_no_target (env : Env) {c : HookCall} {d : Driver}
    (h : hookTarget d c.hook = none) :
    ∃ flag, hookCall env c d = { d with bNormalRunning := flag } := by
  unfold hookCall
  rcases hookEnter_cases env c.ts c.hook d with ⟨-, heq | heq⟩ | ⟨e, he, -⟩
  · rw [heq]
    exact ⟨_, rfl⟩
  · rw [heq]
    rcases checkIret_cases c.hook (c.hook.iret.getD 0) d with hd | hd
    · exact ⟨d.bNormalRunning, hd⟩
    · exact ⟨false, hd⟩
  · simp [h] at he

/-- A hook with an entry appends a record with what it holds. -/
theorem hookCall_of_target {env : Env} {c : HookCall} {d : Driver} {e : MonitorFileEntry}
    (h : hookTarget d c.hook = some e) (hok : c.allocOk = true) {d' : Driver} {seqNo : SeqNo}
    (hseq : getMonitorFileSeqNoByMonitorFileEntry env c.ts e d = (d', .ok seqNo) ∨
      (∃ status, getMonitorFileSeqNoByMonitorFileEntry env c.ts e d = (d', .failed status)) ∧
        seqNo = .zero) :
    hookCall env c d =
      { d' with iowritequeue := d'.iowritequeue ++ [c.hook.recordOf c.ret seqNo] } := by
  unfold hookCall
  rcases hookEnter_cases env c.ts c.hook d with ⟨hn, -⟩ | ⟨e', he', -, h1, h2⟩
  · simp [h] at hn
  · obtain rfl : e = e' := Option.some.inj (h.symm.trans he')
    have hentered : (hookEnter env c.ts c.hook d).1 = d' ∧
        (hookEnter env c.ts c.hook d).2 = .logged seqNo := by
      rcases hseq with hseq | ⟨⟨status, hseq⟩, rfl⟩
      · rw [h1, h2, hseq]
        exact ⟨rfl, rfl⟩
      · rw [h1, h2, hseq]
        exact ⟨rfl, rfl⟩
    rw [hentered.1, hentered.2, hok]
    simp [hookExit, enqueueIolog, checkIret]

/-- The sets after a number of the set `s` was taken. -/
theorem sets_advance {d d₁ : Driver} (hw : d.WF) {s : MonitorSetEntry} (hs : s ∈ d.sets)
    (hsets : d₁.monitorSet = d.monitorSet) (e : MonitorFileEntry) :
    (d₁.advance e s).sets = d.sets.map fun t => if t = s then s.next else t := by
  rw [Driver.advance, sets_updSet, Driver.advanceItem, sets_updFile, Driver.sets, hsets]
  refine List.map_congr_left fun t ht => ?_
  by_cases hts : t = s
  · rw [if_pos (congrArg _ hts), if_pos hts, hts]
    rfl
  · rw [if_neg fun ha => hts (set_eq_of_addr hw ht hs ha), if_neg hts]

/-- The items after a number was taken for an entry whose pointer is `pmse` then. -/
theorem files_advance {d d₁ : Driver} (hw : d.WF) {e : MonitorFileEntry} (he : e ∈ d.files)
    (s : MonitorSetEntry) {pmse : Nat}
    (hd₁ : d₁ = d ∧ e.pSetEntry = some pmse ∨
      d₁ = d.updFile e.addr (fun e => { e with pSetEntry := some pmse })) :
    (d₁.advance e s).files = d.files.map fun f =>
      if f = e then { e with ullSeqNo := e.ullSeqNo + 1, pSetEntry := some pmse } else f := by
  rw [Driver.advance, files_updSet, Driver.advanceItem, files_updFile]
  have hother : ∀ f ∈ d.files, f ≠ e → f.addr ≠ e.addr :=
    fun f hf hne ha => hne (file_eq_of_addr hw hf he ha)
  rcases hd₁ with ⟨rfl, hptr⟩ | rfl
  · refine List.map_congr_left fun f hf => ?_
    by_cases hfe : f = e
    · rw [if_pos (congrArg _ hfe), if_pos hfe, hfe, ← hptr]
    · rw [if_neg (hother f hf hfe), if_neg hfe]
  · rw [files_updFile, List.map_map]
    refine List.map_congr_left fun f hf => ?_
    by_cases hfe : f = e
    · subst hfe
      simp
    · simp [hother f hf hfe, hfe]

/-- A set is at hand if a number is taken from it and it has the GUID of the entry. -/
theorem setAtHand_iff {env : Env} {d : Driver} (hw : d.WF) {e : MonitorFileEntry}
    {s : MonitorSetEntry} :
    s ∈ d.sets ∧ SetAtHand env d e s ↔ numberedSet env d e = some s ∧ s.guidSetId = e.guidSetId := by
  unfold SetAtHand numberedSet
  cases e.pSetEntry with
  | some a =>
    constructor
    · rintro ⟨-, hg, ⟨hnone, -⟩ | ⟨pmse, hpmse, hset⟩⟩
      · exact absurd hnone (Option.some_ne_none a)
      · obtain rfl := Option.some.inj hpmse
        exact ⟨hset, hg⟩
    · rintro ⟨hset, hg⟩
      exact ⟨setAt_sound hset, hg, .inr ⟨a, rfl, hset⟩⟩
  | none =>
    constructor
    · rintro ⟨hs, hg, ⟨-, hpos⟩ | ⟨_, hpmse, -⟩⟩
      · refine ⟨?_, hg⟩
        change getMonitorSetEntry d e.guidSetId = some s
        rw [getMonitorSetEntry, if_pos hpos]
        exact (msSearch_eq_some_iff hw.sets_sorted).mpr ⟨hs, hg⟩
      · exact absurd hpmse (Option.not_mem_none _)
    · rintro ⟨hget, hg⟩
      refine ⟨(getMonitorSetEntry_sound hget).1, hg, .inl ⟨rfl, ?_⟩⟩
      by_contra hzero
      change getMonitorSetEntry d e.guidSetId = some s at hget
      rw [getMonitorSetEntry, if_neg hzero] at hget
      exact Option.some_ne_none s hget.symm

theorem next_ne_self (s : MonitorSetEntry) : s.next ≠ s := by
  intro h
  have hseq : s.ullSetSeqNo + 1 = s.ullSetSeqNo := congrArg (·.ullSetSeqNo) h
  have hnat := congrArg UInt64.toNat hseq
  have hlt := s.ullSetSeqNo.toNat_lt
  rw [UInt64.toNat_add, UInt64.toNat_one] at hnat
  omega

/-- With a set, taking a number reads the counters of the entry and of the set and
advances them. -/
theorem getSeqNo_of_set {env : Env} (ts : Timespec) {d : Driver} (hw : d.WF) {e : MonitorFileEntry}
    (he : e ∈ d.files) {s : MonitorSetEntry} (hset : numberedSet env d e = some s) :
    ∃ d' : Driver, getMonitorFileSeqNoByMonitorFileEntry env ts e d =
        (d', .ok ⟨e.ullSeqNo, s.ullSetSeqNo, timesecs env.longBits ts, s.wcsSetCacheDir.toCString⟩) ∧
      d'.iowritequeue = d.iowritequeue ∧ d'.monitorSet.ulCounts = d.monitorSet.ulCounts ∧
      d'.sets = d.sets.map (fun t => if t = s then s.next else t) ∧
      ∃ pmse, setAt env d pmse = some s ∧ d'.files = d.files.map fun f =>
        if f = e then { e with ullSeqNo := e.ullSeqNo + 1, pSetEntry := some pmse } else f := by
  have hs := numberedSet_sound hset
  rcases getSeqNo_cases env ts hw he with
    ⟨hnone, -, -⟩ | ⟨a, hnone, -, -⟩ | ⟨t, -, hset', d₁, -, hsets, hd₁, hseq⟩
  · exact absurd (hnone.symm.trans hset) nofun
  · exact absurd (hnone.symm.trans hset) nofun
  · obtain rfl : s = t := Option.some.inj (hset.symm.trans hset')
    obtain ⟨pmse, hpmse, hd₁'⟩ : ∃ pmse, setAt env d pmse = some s ∧
        (d₁ = d ∧ e.pSetEntry = some pmse ∨
          d₁ = d.updFile e.addr (fun e => { e with pSetEntry := some pmse })) := by
      rcases hd₁ with ⟨rfl, hptr⟩ | ⟨rfl, -, -⟩
      · obtain ⟨a, ha⟩ := Option.ne_none_iff_exists'.mp hptr
        rw [numberedSet, ha] at hset
        exact ⟨a, hset, .inl ⟨rfl, ha⟩⟩
      · exact ⟨s.addr, setAt_of_mem env hw hs, .inr rfl⟩
    have hqueue : (d₁.advance e s).iowritequeue = d.iowritequeue := by
      rcases hd₁ with ⟨rfl, -⟩ | ⟨rfl, -, -⟩ <;> rfl
    exact ⟨_, hseq, hqueue, congrArg (·.ulCounts) hsets, sets_advance hw hs hsets e, pmse, hpmse,
      files_advance hw he s hd₁'⟩

/-- A hook with an entry logs numbers that are those of no set, and no set counts
them, or it logs the numbers of the entry and of a set and advances both. -/
theorem hookCall_cases (env : Env) {d : Driver} (hw : d.WF) {c : HookCall} {e : MonitorFileEntry}
    (htarget : hookTarget d c.hook = some e) (hok : c.allocOk = true) :
    (numberedSet env d e = none ∧ (hookCall env c d).sets = d.sets ∧
      ∃ seqNo, (hookCall env c d).iowritequeue =
        d.iowritequeue ++ [c.hook.recordOf c.ret seqNo]) ∨
    ∃ s ∈ d.sets, numberedSet env d e = some s ∧
      (hookCall env c d).iowritequeue = d.iowritequeue ++
        [c.hook.recordOf c.ret ⟨e.ullSeqNo, s.ullSetSeqNo, timesecs env.longBits c.ts,
          s.wcsSetCacheDir.toCString⟩] ∧
      (hookCall env c d).sets = d.sets.map (fun t => if t = s then s.next else t) ∧
      ∃ pmse, setAt env d pmse = some s ∧ (hookCall env c d).files = d.files.map fun f =>
        if f = e then { e with ullSeqNo := e.ullSeqNo + 1, pSetEntry := some pmse } else f := by
  have he := hookTarget_sound htarget
  cases hset : numberedSet env d e with
  | none =>
    refine .inl ⟨rfl, ?_⟩
    rcases getSeqNo_cases env c.ts hw he with
      ⟨-, -, hseq⟩ | ⟨a, -, -, hseq⟩ | ⟨s, -, hsome, -⟩
    · rw [hookCall_of_target htarget hok (.inr ⟨⟨_, hseq⟩, rfl⟩)]
      exact ⟨rfl, _, rfl⟩
    · rw [hookCall_of_target htarget hok (.inl hseq)]
      exact ⟨rfl, _, rfl⟩
    · exact absurd (hset.symm.trans hsome) nofun
  | some s =>
    obtain ⟨d', hseq, hqueue, -, hsets, pmse, hpmse, hfiles⟩ := getSeqNo_of_set c.ts hw he hset
    rw [hookCall_of_target htarget hok (.inl hseq)]
    exact .inr ⟨s, numberedSet_sound hset, rfl, congrArg (· ++ _) hqueue, hsets, pmse, hpmse,
      hfiles⟩

theorem numberedFreshly_iff (env : Env) {d : Driver} (hw : d.WF) (c : HookCall)
    (hok : c.allocOk = true) : NumberedFreshly env d c ↔ CanNumber env d c := by
  unfold NumberedFreshly CanNumber
  cases htarget : hookTarget d c.hook with
  | none =>
    obtain ⟨flag, hcall⟩ := hookCall_of_no_target env htarget
    simp only [hcall, Option.mem_def, reduceCtorEq, false_implies, implies_true, iff_true]
    exact ⟨trivial, rfl, rfl⟩
  | some e =>
    -- a set whose counter moves is the one that a number was taken from
    have hmoved : ∀ t ∈ d.sets, (hookCall env c d).sets =
        d.sets.map (fun u => if u = t then t.next else u) →
        ∀ l, (hookCall env c d).sets = l → t.next ∈ l := by
      intro t ht hmap l hl
      rw [← hl, hmap]
      exact List.mem_map.mpr ⟨t, ht, if_pos rfl⟩
    rcases hookCall_cases env hw htarget hok with
      ⟨hnone, hsame, -⟩ | ⟨s, hs, hset, hqueue, hsets, pmse, hpmse, hfiles⟩
    · refine ⟨fun ⟨t, ht, _, _, hcounts, _⟩ => ?_, fun h => ?_⟩
      · have hmem := hmoved t ht hcounts d.sets hsame
        exact absurd (guid_unique hw.sets_sorted hmem ht rfl) (next_ne_self t)
      · obtain ⟨t, ht, hhand, -⟩ := h e rfl
        exact absurd (hnone.symm.trans ((setAtHand_iff hw).mp ⟨ht, hhand⟩).1) nofun
    · obtain ⟨fields, hrec⟩ := c.hook.recordOf_eq c.ret
        ⟨e.ullSeqNo, s.ullSetSeqNo, timesecs env.longBits c.ts, s.wcsSetCacheDir.toCString⟩
      rw [hrec] at hqueue
      refine ⟨fun ⟨t, ht, htg, ⟨piowc, hq, _, _, hpath⟩, hcounts, _⟩ => ?_, fun h => ?_⟩
      · have hts : t = s := by
          obtain ⟨u, hu, hmap⟩ := List.mem_map.mp (hmoved t ht hcounts _ hsets)
          by_contra hne
          split at hmap
          · exact hne (guid_unique hw.sets_sorted ht hs (congrArg (·.guidSetId) hmap).symm)
          · exact next_ne_self t (guid_unique hw.sets_sorted (hmap ▸ hu) ht rfl)
        subst hts
        intro e' he'
        obtain rfl : e = e' := Option.some.inj he'
        refine ⟨t, ht, ((setAtHand_iff hw).mpr ⟨hset, htg⟩).2, ?_⟩
        obtain rfl := List.singleton_injective (List.append_cancel_left (hqueue.symm.trans hq))
        exact iologPath_eq_iff.mp hpath
      · obtain ⟨t, ht, hhand, hpath⟩ := h e rfl
        obtain ⟨hset', hg⟩ := (setAtHand_iff hw).mp ⟨ht, hhand⟩
        obtain rfl : s = t := Option.some.inj (hset.symm.trans hset')
        exact ⟨s, hs, hg, ⟨logRecord _ fields, hqueue, rfl, rfl, iologPath_eq_iff.mpr hpath⟩,
          hsets, pmse, hpmse, hfiles⟩

/-! ## What a command leaves -/

/-- Sets that were there keep their GUID, directory and number, or are gone; the
queue stays. -/
structure Keeps (d d' : Driver) : Prop where
  nalloc : d.nalloc ≤ d'.nalloc
  queue : d'.iowritequeue = d.iowritequeue
  sets : ∀ s' ∈ d'.sets, s'.addr < d.nalloc →
    ∃ s ∈ d.sets, s.addr = s'.addr ∧ s.guidSetId = s'.guidSetId ∧
      s.wcsSetCacheDir = s'.wcsSetCacheDir ∧ s.ullSetSeqNo = s'.ullSetSeqNo

theorem Keeps.of_subset {d d' : Driver} (hn : d.nalloc ≤ d'.nalloc)
    (hq : d'.iowritequeue = d.iowritequeue)
    (hsets : ∀ s' ∈ d'.sets, s'.addr < d.nalloc → s' ∈ d.sets) : Keeps d d' :=
  ⟨hn, hq, fun s' hs' hlt => ⟨s', hsets s' hs' hlt, rfl, rfl, rfl, rfl⟩⟩

theorem Keeps.trans {d₁ d₂ d₃ : Driver} (h : Keeps d₁ d₂) (h' : Keeps d₂ d₃) : Keeps d₁ d₃ where
  nalloc := Nat.le_trans h.nalloc h'.nalloc
  queue := h'.queue.trans h.queue
  sets s₃ hs₃ hlt := by
    obtain ⟨s₂, hs₂, ha, hg, hd, hn⟩ := h'.sets s₃ hs₃ (Nat.lt_of_lt_of_le hlt h.nalloc)
    obtain ⟨s₁, hs₁, ha', hg', hd', hn'⟩ := h.sets s₂ hs₂ (ha ▸ hlt)
    exact ⟨s₁, hs₁, ha'.trans ha, hg'.trans hg, hd'.trans hd, hn'.trans hn⟩

/-- An inserted set has a new address. -/
theorem keeps_insertSet {env : Env} {d : Driver} (hw : d.WF) {s : MonitorSetEntry}
    {root : RbTree MonitorSetEntry} (hs : s.addr = d.nalloc)
    (hins : msInsert env.rb d.monitorSet.rbTree s = (root, 0)) (n : UInt32) :
    Keeps d { d with monitorSet := ⟨n, root⟩, nalloc := d.nalloc + 1 } := by
  rcases msInsert_cases env.rb _ s hw.sets_sorted with ⟨root', h, -, -, hperm⟩ | ⟨h, -⟩
  · obtain rfl : root' = root := congrArg Prod.fst (h.symm.trans hins)
    refine Keeps.of_subset (Nat.le_succ _) rfl fun s' hs' hlt => ?_
    rcases List.mem_cons.mp (hperm.mem_iff.mp hs') with rfl | hold
    · omega
    · exact hold
  · simp [h] at hins

theorem Change.keeps {env : Env} {d d' : Driver} (hw : d.WF) (h : Change env d d') :
    Keeps d d' := by
  cases h with
  | rest cnf status n hn => exact Keeps.of_subset hn rfl fun _ hs _ => hs
  | addSet haddr hins => exact keeps_insertSet hw haddr hins _
  | addFile => exact Keeps.of_subset (Nat.le_succ _) rfl fun _ hs _ => hs
  | countFile addr =>
    refine ⟨Nat.le_refl _, rfl, fun s' hs' _ => ?_⟩
    rw [sets_updSet] at hs'
    obtain ⟨s, hs, rfl⟩ := List.mem_map.mp hs'
    refine ⟨s, hs, ?_⟩
    split <;> exact ⟨rfl, rfl, rfl, rfl⟩
  | delSet guid =>
    refine Keeps.of_subset (Nat.le_refl _) rfl fun s' hs' _ => ?_
    exact (sets_delMonitorSet_sublist hw env guid).subset hs'
  | delAll => exact Keeps.of_subset (Nat.le_refl _) rfl fun _ hs _ => absurd hs List.not_mem_nil
  | removeFile => exact Keeps.of_subset (Nat.le_refl _) rfl fun _ hs _ => hs
  | loadSet haddr hins => exact keeps_insertSet hw haddr hins d.monitorSet.ulCounts
  | loadFile => exact Keeps.of_subset (Nat.le_succ _) rfl fun _ hs _ => hs

theorem Changes.keeps {env : Env} {d d' : Driver} (hw : d.WF) (h : Changes env d d') :
    Keeps d d' := by
  induction h with
  | refl => exact Keeps.of_subset (Nat.le_refl _) rfl fun _ hs _ => hs
  | tail hsteps hstep ih => exact ih.trans (hstep.keeps (Changes.wf hw hsteps))

theorem processNetlinkCmd_keeps (env : Env) {d : Driver} (hw : d.WF) (c : Notification) :
    Keeps d (processNetlinkCmd env d c).1 :=
  (processNetlinkCmd_changes env d c).keeps hw

/-! ## Numbers along a run -/

theorem ofNat_succ_add (a : UInt64) (i : Nat) :
    a + UInt64.ofNat (i + 1) = a + 1 + UInt64.ofNat i := by
  rw [UInt64.ofNat_add, UInt64.add_assoc, UInt64.add_comm 1]
  rfl

/-- One operation logs nothing for a set and leaves its counter, or logs its
counter and advances it. -/
theorem loggedBy_cases (env : Env) {d : Driver} (hw : d.WF) (op : Op)
    (hok : ∀ c, op = .hook c → c.allocOk = true) (hcan : OnHooks (CanNumber env) d op)
    {s s' : MonitorSetEntry} (hs : s ∈ d.sets) (hs' : s' ∈ (opStep env d op).sets)
    (ha : s'.addr = s.addr) :
    s'.guidSetId = s.guidSetId ∧
    (loggedBy env s.guidSetId d op = [] ∧ s'.ullSetSeqNo = s.ullSetSeqNo ∨
      loggedBy env s.guidSetId d op = [s.ullSetSeqNo] ∧ s'.ullSetSeqNo = s.ullSetSeqNo + 1) := by
  cases op with
  | command c =>
    obtain ⟨t, ht, hta, htg, -, htn⟩ :=
      (processNetlinkCmd_keeps env hw c).sets s' hs' (ha ▸ hw.sets_fresh s hs)
    obtain rfl : t = s := set_eq_of_addr hw ht hs (hta.trans ha)
    exact ⟨htg.symm, .inl ⟨rfl, htn.symm⟩⟩
  | hook c =>
    have hfresh := (numberedFreshly_iff env hw c (hok c rfl)).mpr hcan
    unfold NumberedFreshly at hfresh
    change s' ∈ (hookCall env c d).sets at hs'
    cases htarget : hookTarget d c.hook with
    | none =>
      simp only [htarget] at hfresh
      rw [hfresh.2.1] at hs'
      obtain rfl : s' = s := set_eq_of_addr hw hs' hs ha
      exact ⟨rfl, .inl ⟨by simp only [loggedBy, htarget], rfl⟩⟩
    | some e =>
      simp only [htarget] at hfresh
      obtain ⟨t, ht, htg, ⟨piowc, hq, hn, -, -⟩, hsets, -⟩ := hfresh
      rw [hsets] at hs'
      obtain ⟨u, hu, rfl⟩ := List.mem_map.mp hs'
      by_cases hut : u = t
      · -- the set of the entry that the hook found
        rw [if_pos hut] at ha ⊢
        obtain rfl : t = s := set_eq_of_addr hw ht hs ha
        refine ⟨rfl, .inr ⟨?_, rfl⟩⟩
        simp only [loggedBy, htarget]
        rw [if_pos htg.symm, hq, List.drop_left, List.map_singleton, hn]
      · rw [if_neg hut] at ha ⊢
        obtain rfl : u = s := set_eq_of_addr hw hu hs ha
        refine ⟨rfl, .inl ⟨?_, rfl⟩⟩
        simp only [loggedBy, htarget]
        rw [if_neg fun hg => hut (guid_unique hw.sets_sorted hu ht (hg.symm.trans htg.symm))]

/-- While a set is not deleted, the records of its entries carry consecutive
numbers from the set's counter on. -/
theorem loggedNumbers_eq (env : Env) (ops : List Op) {d : Driver} (hw : d.WF)
    (hok : ∀ c, Op.hook c ∈ ops → c.allocOk = true)
    (hcan : Along (opStep env) (OnHooks (CanNumber env)) d ops) {s : MonitorSetEntry} (hs : s ∈ d.sets)
    (halive : ∀ t ∈ states (opStep env) d ops, ∃ s' ∈ t.sets, s'.addr = s.addr) :
    loggedNumbers env s.guidSetId d ops =
      (List.range (loggedNumbers env s.guidSetId d ops).length).map fun i =>
        s.ullSetSeqNo + UInt64.ofNat i := by
  induction ops generalizing d s with
  | nil => rfl
  | cons op ops ih =>
    obtain ⟨s', hs', ha⟩ := halive _ (List.mem_cons_of_mem _ (self_mem_states _ ops))
    have halive' : ∀ t ∈ states (opStep env) (opStep env d op) ops,
        ∃ u ∈ t.sets, u.addr = s'.addr := by
      intro t ht
      rw [ha]
      exact halive t (List.mem_cons_of_mem _ ht)
    have hrest := ih (opStep_wf env d op hw) (fun c hc => hok c (List.mem_cons_of_mem _ hc))
      hcan.2 hs' halive'
    obtain ⟨hg, ⟨hlog, hn⟩ | ⟨hlog, hn⟩⟩ := loggedBy_cases env hw op
      (fun c hc => hok c (hc ▸ List.mem_cons_self)) hcan.1 hs hs' ha
    · rw [loggedNumbers, hlog, List.nil_append, ← hg, ← hn]
      exact hrest
    · rw [loggedNumbers, hlog, ← hg, List.singleton_append, List.length_cons,
        List.range_succ_eq_map, List.map_cons, List.map_map, hrest, List.length_map,
        List.length_range, hn]
      have hfirst : s.ullSetSeqNo + UInt64.ofNat 0 = s.ullSetSeqNo := UInt64.add_zero _
      rw [hfirst]
      exact congrArg _ (List.map_congr_left fun i _ => (ofNat_succ_add _ i).symm)

/-- Fewer than 2^64 consecutive numbers do not repeat. -/
theorem consecutive_nodup (a : UInt64) {n : Nat} (hn : n ≤ 2 ^ 64) :
    ((List.range n).map fun i => a + UInt64.ofNat i).Nodup := by
  refine List.nodup_range.map_on fun i hi j hj h => ?_
  rw [List.mem_range] at hi hj
  have hij := congrArg UInt64.toNat ((UInt64.add_right_inj a).mp h)
  rw [UInt64.toNat_ofNat', UInt64.toNat_ofNat', Nat.mod_eq_of_lt (by omega),
    Nat.mod_eq_of_lt (by omega)] at hij
  exact hij

/-- For every run in which the buffers of the records can be allocated: all its
hooked operations are numbered freshly exactly when each of them meets
`CanNumber`; and then, from any point of the run on and as long as a set is not
deleted, the records of its entries carry consecutive numbers that do not repeat
before 2^64 of them were made. -/
theorem numbers_fresh_iff (env : Env) (cnf : Bytes) (nalloc : Nat) (ops : List Op)
    (hok : ∀ c, Op.hook c ∈ ops → c.allocOk = true) :
    (Along (opStep env) (OnHooks (NumberedFreshly env)) (initMonitorSet env cnf nalloc) ops ↔
      Along (opStep env) (OnHooks (CanNumber env)) (initMonitorSet env cnf nalloc) ops) ∧
    (Along (opStep env) (OnHooks (CanNumber env)) (initMonitorSet env cnf nalloc) ops →
      ∀ before after, ops = before ++ after →
      ∀ s ∈ (run (opStep env) (initMonitorSet env cnf nalloc) before).sets,
        (∀ t ∈ states (opStep env) (run (opStep env) (initMonitorSet env cnf nalloc) before) after,
          ∃ s' ∈ t.sets, s'.addr = s.addr) →
        ∃ numbers : List UInt64, numbers = loggedNumbers env s.guidSetId
            (run (opStep env) (initMonitorSet env cnf nalloc) before) after ∧
          numbers = ((List.range numbers.length).map fun i => s.ullSetSeqNo + UInt64.ofNat i) ∧
          (numbers.length ≤ 2 ^ 64 → numbers.Nodup)) := by
  constructor
  · refine along_congr (I := Driver.WF) (fun d op hw => opStep_wf env d op hw) ?_
      (initMonitorSet_wf env cnf nalloc)
    intro d hw op hop
    cases op with
    | command c => exact Iff.rfl
    | hook c => exact numberedFreshly_iff env hw c (hok c hop)
  · rintro hcan before after rfl s hs halive
    have hw : (run (opStep env) (initMonitorSet env cnf nalloc) before).WF :=
      states_wf env cnf nalloc before _ (run_mem_states _ _)
    have heq := loggedNumbers_eq env after hw
      (fun c hc => hok c (List.mem_append_right _ hc)) (along_append.mp hcan).2 hs halive
    refine ⟨_, rfl, heq, fun hlen => ?_⟩
    rw [heq]
    exact consecutive_nodup _ hlen

/-! ## Concrete runs -/

/-- `mkdir` of `/a/c` by a process whose call succeeds. -/
def mkdirCall : HookCall where
  hook := rtbVfsMkdir pathAC
  ts := ⟨0, 0⟩
  ret := 0
  allocOk := true

theorem numbers_fresh_iff_one_item :
    let start := initMonitorSet quietKernel [] 0
    let ops := [Op.command (.addSet oneItemRequest), .hook mkdirCall, .hook mkdirCall]
    Along (opStep quietKernel) (OnHooks (NumberedFreshly quietKernel)) start ops ∧
      ∃ s ∈ (run (opStep quietKernel) start [.command (.addSet oneItemRequest)]).sets,
        ∃ numbers : List UInt64, numbers = loggedNumbers quietKernel s.guidSetId
            (run (opStep quietKernel) start [.command (.addSet oneItemRequest)])
            [.hook mkdirCall, .hook mkdirCall] ∧
          numbers = ((List.range numbers.length).map fun i => s.ullSetSeqNo + UInt64.ofNat i) ∧
          (numbers.length ≤ 2 ^ 64 → numbers.Nodup) := by
  have hok : ∀ c, Op.hook c ∈ [Op.command (.addSet oneItemRequest), .hook mkdirCall,
      .hook mkdirCall] → c.allocOk = true := by
    intro c hc
    simp only [List.mem_cons, Op.hook.injEq, reduceCtorEq, List.not_mem_nil, or_false,
      false_or] at hc
    rcases hc with rfl | rfl <;> rfl
  have hcan : Along (opStep quietKernel) (OnHooks (CanNumber quietKernel)) (initMonitorSet quietKernel [] 0)
      [.command (.addSet oneItemRequest), .hook mkdirCall, .hook mkdirCall] := by
    decide +kernel
  have h := numbers_fresh_iff quietKernel [] 0 _ hok
  refine ⟨h.1.mpr hcan, ?_⟩
  obtain ⟨s, hs, halive⟩ : ∃ s ∈ (run (opStep quietKernel) (initMonitorSet quietKernel [] 0)
      [.command (.addSet oneItemRequest)]).sets,
      ∀ t ∈ states (opStep quietKernel) (run (opStep quietKernel) (initMonitorSet quietKernel [] 0)
        [.command (.addSet oneItemRequest)]) [.hook mkdirCall, .hook mkdirCall],
        ∃ s' ∈ t.sets, s'.addr = s.addr := by
    decide +kernel
  exact ⟨s, hs, h.2 hcan [.command (.addSet oneItemRequest)] [.hook mkdirCall, .hook mkdirCall] rfl
    s hs halive⟩

/-- A set of the zero GUID without items, and one of another GUID. -/
def emptyRequest : RealtimeBackupData := { oneItemRequest with filterItems := [] }

def otherRequest : RealtimeBackupData :=
  { emptyRequest with guidSetId := guidOne }

/-- A set without items is saved and loaded. Then another set is added, the item
`/a` is added to the loaded set, and the other set is deleted: the counter of the
sets is 0. The record of the next `mkdir` below `/a` has no directory in its path
and no counter moves. -/
theorem loaded_set_not_numbered :
    let saved := opStep quietKernel (initMonitorSet quietKernel [] 0) (.command (.addSet emptyRequest))
    let d := run (opStep quietKernel) (initMonitorSet quietKernel saved.cnf saved.nalloc)
      [.command (.addSet otherRequest), .command (.addItem oneItemRequest),
        .command (.delSet otherRequest)]
    let d' := hookCall quietKernel mkdirCall d
    ¬ NumberedFreshly quietKernel d mkdirCall ∧ hookTarget d mkdirCall.hook ≠ none ∧
      d'.sets = d.sets ∧ d'.files = d.files ∧
      d'.iowritequeue.map (fun piowc => piowc.iologpath.bytes) = [[48]] := by
  intro saved d d'
  refine ⟨fun h => ?_, by decide +kernel⟩
  have hw : d.WF := states_wf quietKernel saved.cnf saved.nalloc _ _ (run_mem_states _ _)
  have hcan := (numberedFreshly_iff quietKernel hw mkdirCall rfl).mp h
  have hnot : ¬ CanNumber quietKernel d mkdirCall := by decide +kernel
  exact hnot hcan

end RtBackup
