import RtBackup.Numbers

/-!
# The times of the records

`GetMonitorFileSeqNoByMonitorFileEntry` takes the time together with the number. The
seconds are multiplied by 1000 as a `long`, then the product is assigned to 64 bits
and multiplied by 10000.

Results:
1. `timesecs_exact_iff`: the time of a record is exact if and only if the product
   fits into a `long`.
2. `taken_eq`: the numbers that calls take from a set are consecutive, each with
   the time of its call.
3. `record_times_follow_iff`: when the times of a sequence of calls are exact and
   follow the numbers.
-/

namespace RtBackup

open ByteFile Runs

/-! ## Times -/

/-- A time that `current_kernel_time` gives, with seconds of 31 bits. -/
structure Timespec.InRange (ts : Timespec) : Prop where
  sec_nonneg : 0 ≤ ts.sec
  sec_lt : ts.sec < 2 ^ 31
  nsec_nonneg : 0 ≤ ts.nsec
  nsec_lt : ts.nsec < 10 ^ 9

/-- The time in units of 100 nanoseconds. -/
def Timespec.ticks (ts : Timespec) : Nat :=
  (ts.sec * 10 ^ 7 + ts.nsec / 100).toNat

instance : LE Timespec where
  le ts ts' := ts.sec < ts'.sec ∨ ts.sec = ts'.sec ∧ ts.nsec ≤ ts'.nsec

theorem Timespec.le_def {ts ts' : Timespec} :
    ts ≤ ts' ↔ ts.sec < ts'.sec ∨ ts.sec = ts'.sec ∧ ts.nsec ≤ ts'.nsec := Iff.rfl

theorem Timespec.ticks_le {ts ts' : Timespec} (h : ts.InRange) (h' : ts'.InRange)
    (hle : ts ≤ ts') : ts.ticks ≤ ts'.ticks := by
  have hnsec := h.nsec_lt
  have hnsec' := h'.nsec_nonneg
  rw [Timespec.le_def] at hle
  rw [Timespec.ticks, Timespec.ticks]
  omega

theorem Timespec.InRange.ticks_lt {ts : Timespec} (h : ts.InRange) : ts.ticks < 2 ^ 64 := by
  have hsec := h.sec_lt
  have hnsec := h.nsec_lt
  rw [Timespec.ticks]
  omega

theorem Timespec.InRange.ticks_eq {ts : Timespec} (h : ts.InRange) :
    (ts.ticks : Int) = ts.sec * 10 ^ 7 + ts.nsec / 100 := by
  have hsec := h.sec_nonneg
  have hnsec := h.nsec_nonneg
  rw [Timespec.ticks, Int.toNat_of_nonneg (by omega)]

theorem toNat_ofInt (x : Int) : ((UInt64.ofInt x).toNat : Int) = x % 2 ^ 64 := by
  rw [UInt64.ofInt, UInt64.toNat_ofNat']
  omega

/-- The time of a record, the product of the seconds as a `long` left as it is. -/
theorem toNat_timesecs {longBits : Nat} {ts : Timespec} (h : ts.InRange) :
    ((timesecs longBits ts).toNat : Int) =
      ((ts.sec * 1000).bmod (2 ^ longBits) * 10000 + ts.nsec / 100) % 2 ^ 64 := by
  have hten : (10000 : UInt64) = UInt64.ofInt 10000 := rfl
  rw [timesecs, Int.tdiv_eq_ediv_of_nonneg h.nsec_nonneg, hten, ← UInt64.ofInt_mul,
    ← UInt64.ofInt_add, toNat_ofInt]

/-- A product that wraps `k` times makes the time wrong by `k` times `2 ^ 32 * 10000`,
which is not a multiple of `2 ^ 64` unless `k` is 0. -/
theorem ticks_sub_emod_iff {ticks k : Int} (hticks : 0 ≤ ticks ∧ ticks < 2 ^ 64)
    (hk : 0 ≤ k ∧ k ≤ 500) : (ticks - 2 ^ 32 * 10000 * k) % 2 ^ 64 = ticks ↔ k = 0 := by
  constructor
  · intro h
    have hdvd : (2 : Int) ^ 64 ∣ 2 ^ 32 * 10000 * k := by
      have hsub := Int.dvd_self_sub_of_emod_eq h
      rwa [sub_sub_cancel_left, Int.dvd_neg] at hsub
    have hsmall : (2 : Int) ^ 32 * 10000 * k < 2 ^ 64 := by omega
    have hzero := Int.eq_zero_of_dvd_of_nonneg_of_lt (by omega) hsmall hdvd
    exact (mul_eq_zero.mp hzero).resolve_left (by decide)
  · rintro rfl
    rw [mul_zero, sub_zero, Int.emod_eq_of_lt hticks.1 hticks.2]

/-- A product of 31 bits and 1000 wraps up to 500 times, and not at all if it fits. -/
theorem product_bmod {sec : Int} (hsec : 0 ≤ sec) (hsec' : sec < 2 ^ 31) :
    ∃ k : Int, (sec * 1000).bmod (2 ^ 32) = sec * 1000 - 2 ^ 32 * k ∧ (0 ≤ k ∧ k ≤ 500) ∧
      (k = 0 ↔ sec * 1000 < 2 ^ 31) := by
  have hoff := Int.bmod_eq_self_sub_mul_bdiv (sec * 1000) (2 ^ 32)
  have hlow := Int.le_bmod (x := sec * 1000) (m := 2 ^ 32) (by decide)
  have hhigh := Int.bmod_lt (x := sec * 1000) (m := 2 ^ 32) (by decide)
  rw [hoff] at hlow hhigh
  refine ⟨_, hoff, ?_⟩
  generalize (sec * 1000).bdiv (2 ^ 32) = k at hlow hhigh
  omega

theorem timesecs_exact_iff {longBits : Nat} (hlong : longBits = 32 ∨ longBits = 64)
    {ts : Timespec} (h : ts.InRange) :
    (timesecs longBits ts).toNat = ts.ticks ↔ longBits = 64 ∨ ts.sec * 1000 < 2 ^ 31 := by
  have hsec := h.sec_nonneg
  have hsec' := h.sec_lt
  have hsum : ts.sec * 1000 * 10000 + ts.nsec / 100 = ts.ticks := by
    rw [h.ticks_eq]
    omega
  have hticks : 0 ≤ (ts.ticks : Int) ∧ (ts.ticks : Int) < 2 ^ 64 :=
    ⟨Int.natCast_nonneg _, Int.ofNat_lt.mpr h.ticks_lt⟩
  rw [← Int.natCast_inj, toNat_timesecs h]
  rcases hlong with rfl | rfl
  · obtain ⟨k, hoff, hk, hzero⟩ := product_bmod hsec hsec'
    have hdist : (ts.sec * 1000 - 2 ^ 32 * k) * 10000 + ts.nsec / 100 =
        ts.ticks - 2 ^ 32 * 10000 * k := by
      rw [← hsum]
      ring
    rw [hoff, hdist, ticks_sub_emod_iff hticks hk, hzero, or_iff_right (by decide)]
  · rw [Int.bmod_eq_of_le (by omega) (by omega), hsum, Int.emod_eq_of_lt hticks.1 hticks.2]
    exact iff_of_true rfl (.inl rfl)

/-! ## Sequences of calls -/

/-- A call at a time, on the entry at an address. -/
structure SeqCall where
  ts : Timespec
  pmfe : Nat

def SeqCall.entry (d : Driver) (c : SeqCall) : Option MonitorFileEntry :=
  d.files.find? fun e => e.addr = c.pmfe

def seqStep (env : Env) (d : Driver) (c : SeqCall) : Driver :=
  match c.entry d with
  | none => d
  | some e => (getMonitorFileSeqNoByMonitorFileEntry env c.ts e d).1

/-- A number for the entry is taken from the set of the GUID. -/
def NumbersFrom (env : Env) (guid : GUID) (d : Driver) (e : MonitorFileEntry) : Prop :=
  ∃ s ∈ numberedSet env d e, s.guidSetId = guid

instance (env : Env) (guid : GUID) (d : Driver) (e : MonitorFileEntry) :
    Decidable (NumbersFrom env guid d e) :=
  inferInstanceAs (Decidable (∃ s ∈ numberedSet env d e, _))

/-- What a call takes from the set, with the time of the call. -/
def takenBy (env : Env) (guid : GUID) (d : Driver) (c : SeqCall) : List (Timespec × SeqNo) :=
  match c.entry d with
  | none => []
  | some e =>
    match (getMonitorFileSeqNoByMonitorFileEntry env c.ts e d).2 with
    | .ok seqNo => if NumbersFrom env guid d e then [(c.ts, seqNo)] else []
    | .failed _ => []

/-- What a sequence of calls takes from the set. Calls on other sets may come in
between. -/
def taken (env : Env) (guid : GUID) : Driver → List SeqCall → List (Timespec × SeqNo)
  | _, [] => []
  | d, c :: calls => takenBy env guid d c ++ taken env guid (seqStep env d c) calls

/-- The times of the calls that can take a number from the set. -/
def numberedTimes (env : Env) (guid : GUID) (d : Driver) (calls : List SeqCall) : List Timespec :=
  (calls.filter fun c => (c.entry d).any fun e => NumbersFrom env guid d e).map (·.ts)

/-- The times are exact, and a record with a larger number has no smaller time. -/
structure TimesFollow (records : List (Timespec × SeqNo)) : Prop where
  exact : ∀ r ∈ records, r.2.timesecs.toNat = r.1.ticks
  ordered : ∀ r ∈ records, ∀ r' ∈ records, ∀ fields fields',
    (logRecord r.2 fields).logfile.hdr.ullGolbalSeqNo <
      (logRecord r'.2 fields').logfile.hdr.ullGolbalSeqNo →
    (logRecord r.2 fields).logfile.hdr.liSystemTime ≤
      (logRecord r'.2 fields').logfile.hdr.liSystemTime

/-- The seconds, times 1000, fit into a `long` at every time. -/
def SecondsFit (longBits : Nat) (times : List Timespec) : Prop :=
  ∀ ts ∈ times, longBits = 64 ∨ ts.sec * 1000 < 2 ^ 31

instance (longBits : Nat) (times : List Timespec) : Decidable (SecondsFit longBits times) :=
  inferInstanceAs (Decidable (∀ ts ∈ times, _))

/-- Where the numbers, counted up from `first`, start again at 0 between two times,
the times are in the same 100 nanoseconds. -/
def SteadyAtWrap (first : UInt64) (times : List Timespec) : Prop :=
  ∀ i j : Fin times.length, i < j →
    first + UInt64.ofNat j < first + UInt64.ofNat i → times[i].ticks = times[j].ticks

instance (first : UInt64) (times : List Timespec) : Decidable (SteadyAtWrap first times) :=
  inferInstanceAs (Decidable (∀ _ _ : Fin times.length, _))

/-! ## One call -/

/-- The set that a number is taken from stays the same when the counters advance. -/
theorem numberedSet_map {env : Env} {d d' : Driver} (hw : d.WF) (hw' : d'.WF)
    {f : MonitorSetEntry → MonitorSetEntry} (haddr : ∀ s, (f s).addr = s.addr)
    (hguid : ∀ s, (f s).guidSetId = s.guidSetId) (hsets : d'.sets = d.sets.map f)
    (hcounts : d'.monitorSet.ulCounts = d.monitorSet.ulCounts) (e : MonitorFileEntry) :
    numberedSet env d' e = (numberedSet env d e).map f := by
  unfold numberedSet
  cases e.pSetEntry with
  | some pmse =>
    have hcomp (p : Nat → Bool) : (fun s : MonitorSetEntry => p s.addr) ∘ f = fun s => p s.addr :=
      funext fun s => congrArg p (haddr s)
    change setAt env d' pmse = (setAt env d pmse).map f
    rw [setAt, hsets, List.find?_map, List.find?_map, hcomp fun a => decide (a = pmse),
      hcomp fun a => decide (env.memory a = env.memory pmse), ← Option.map_or]
    rfl
  | none =>
    change getMonitorSetEntry d' e.guidSetId = (getMonitorSetEntry d e.guidSetId).map f
    unfold getMonitorSetEntry
    rw [hcounts]
    split
    · cases hsearch : msSearch d.monitorSet.rbTree e.guidSetId with
      | some s =>
        obtain ⟨hs, hg⟩ := msSearch_sound hsearch
        refine (msSearch_eq_some_iff hw'.sets_sorted).mpr ⟨?_, (hguid s).trans hg⟩
        change f s ∈ d'.sets
        exact hsets ▸ List.mem_map_of_mem hs
      | none =>
        refine (msSearch_eq_none_iff hw'.sets_sorted).mpr fun s' hs' => ?_
        obtain ⟨s, hs, rfl⟩ := List.mem_map.mp (hsets ▸ hs' : s' ∈ d.sets.map f)
        exact fun hg => (msSearch_eq_none_iff hw.sets_sorted).mp hsearch s hs ((hguid s).symm.trans hg)
    · rfl

theorem seqStep_wf (env : Env) {d : Driver} (hw : d.WF) (c : SeqCall) : (seqStep env d c).WF := by
  unfold seqStep
  cases hentry : c.entry d with
  | none => exact hw
  | some e => exact getSeqNo_wf env c.ts hw (List.mem_of_find?_eq_some hentry)

/-- A call takes no number of a set and leaves the sets, or takes the number of a set
and advances the counter of this set. The entries keep the sets that their numbers are
taken from. -/
theorem seqStep_cases (env : Env) {d : Driver} (hw : d.WF) (c : SeqCall) :
    ∃ (next : MonitorSetEntry → MonitorSetEntry) (fill : MonitorFileEntry → MonitorFileEntry),
      (∀ s, (next s).addr = s.addr ∧ (next s).guidSetId = s.guidSetId) ∧
      (seqStep env d c).sets = d.sets.map next ∧
      (seqStep env d c).monitorSet.ulCounts = d.monitorSet.ulCounts ∧
      (seqStep env d c).files = d.files.map fill ∧ (∀ f, (fill f).addr = f.addr) ∧
      (∀ f ∈ d.files, numberedSet env d (fill f) = numberedSet env d f) ∧
      ((∀ e ∈ c.entry d, numberedSet env d e = none) ∧ next = id ∨
        ∃ e ∈ c.entry d, ∃ s ∈ d.sets, numberedSet env d e = some s ∧
          next = (fun t => if t = s then s.next else t) ∧
          ∀ guid, takenBy env guid d c = if s.guidSetId = guid then
            [(c.ts, ⟨e.ullSeqNo, s.ullSetSeqNo, timesecs env.longBits c.ts,
              s.wcsSetCacheDir.toCString⟩)] else []) := by
  unfold seqStep takenBy
  cases hentry : c.entry d with
  | none =>
    exact ⟨id, id, fun _ => ⟨rfl, rfl⟩, (List.map_id _).symm, rfl, (List.map_id _).symm,
      fun _ => rfl, fun _ _ => rfl, .inl ⟨nofun, rfl⟩⟩
  | some e =>
    have he : e ∈ d.files := List.mem_of_find?_eq_some hentry
    cases hset : numberedSet env d e with
    | none =>
      have hnone : ∀ f ∈ some e, numberedSet env d f = none := by
        intro f hf
        obtain rfl := Option.some.inj hf
        exact hset
      rcases getSeqNo_cases env c.ts hw he with
        ⟨-, -, hseq⟩ | ⟨a, -, -, hseq⟩ | ⟨s, -, hsome, -⟩
      · dsimp only
        rw [hseq]
        exact ⟨id, id, fun _ => ⟨rfl, rfl⟩, (List.map_id _).symm, rfl, (List.map_id _).symm,
          fun _ => rfl, fun _ _ => rfl, .inl ⟨hnone, rfl⟩⟩
      · dsimp only
        rw [hseq]
        refine ⟨id, _, fun _ => ⟨rfl, rfl⟩, (List.map_id _).symm, rfl, files_updFile d _ _,
          fun f => ?_, fun f _ => ?_, .inl ⟨hnone, rfl⟩⟩
        · split <;> rfl
        · split <;> rfl
      · exact absurd (hset.symm.trans hsome) nofun
    | some s =>
      obtain ⟨d', hseq, -, hcounts, hsets, pmse, hpmse, hfiles⟩ := getSeqNo_of_set c.ts hw he hset
      dsimp only
      rw [hseq]
      refine ⟨_, _, fun t => ?_, hsets, hcounts, hfiles, fun f => ?_, fun f _ => ?_,
        .inr ⟨e, rfl, s, numberedSet_sound hset, hset, rfl, fun guid => ?_⟩⟩
      · split
        · next hts => exact hts ▸ ⟨rfl, rfl⟩
        · exact ⟨rfl, rfl⟩
      · split
        · next hfe => exact hfe ▸ rfl
        · rfl
      · split
        · next hfe =>
          rw [hfe, hset]
          exact hpmse
        · rfl
      · refine if_congr ?_ rfl rfl
        rw [NumbersFrom, hset]
        simp

/-- A call changes no entry in what later calls find and in the set that their numbers
are taken from. -/
theorem numberedTimes_seqStep (env : Env) (guid : GUID) {d : Driver} (hw : d.WF) (c : SeqCall)
    (calls : List SeqCall) :
    numberedTimes env guid (seqStep env d c) calls = numberedTimes env guid d calls := by
  obtain ⟨next, fill, hnext, hsets, hcounts, hfiles, haddr, hfill, -⟩ := seqStep_cases env hw c
  unfold numberedTimes
  congr 1
  refine List.filter_congr fun c' _ => ?_
  have hentry : c'.entry (seqStep env d c) = (c'.entry d).map fill := by
    rw [SeqCall.entry, hfiles, List.find?_map]
    exact congrArg (fun p => (d.files.find? p).map fill)
      (funext fun f => congrArg (fun a => decide (a = c'.pmfe)) (haddr f))
  rw [hentry, Option.any_map]
  cases hc' : c'.entry d with
  | none => rfl
  | some e =>
    rw [Option.any_some, Option.any_some]
    refine decide_eq_decide.mpr ?_
    rw [NumbersFrom, numberedSet_map hw (seqStep_wf env hw c) (fun s => (hnext s).1)
      (fun s => (hnext s).2) hsets hcounts, hfill e (List.mem_of_find?_eq_some hc'), NumbersFrom]
    simp [(hnext _).2]

/-- A call takes nothing from a set and leaves its counter, or takes its number at
the time of the call and advances it. -/
theorem takenBy_cases (env : Env) {d : Driver} (hw : d.WF) (c : SeqCall) {s : MonitorSetEntry}
    (hs : s ∈ d.sets) :
    ∃ s' ∈ (seqStep env d c).sets, s'.guidSetId = s.guidSetId ∧
      (takenBy env s.guidSetId d c = [] ∧ numberedTimes env s.guidSetId d [c] = [] ∧
          s'.ullSetSeqNo = s.ullSetSeqNo ∨
        ∃ n : SeqNo, takenBy env s.guidSetId d c = [(c.ts, n)] ∧
          numberedTimes env s.guidSetId d [c] = [c.ts] ∧ n.ullGlobalSeqNo = s.ullSetSeqNo ∧
          n.timesecs = timesecs env.longBits c.ts ∧ s'.ullSetSeqNo = s.ullSetSeqNo + 1) := by
  have htimes : numberedTimes env s.guidSetId d [c] =
      if (c.entry d).any fun e => NumbersFrom env s.guidSetId d e then [c.ts] else [] := by
    rw [numberedTimes, List.filter_cons]
    split <;> rfl
  rw [htimes]
  obtain ⟨next, -, hnext, hsets, -, -, -, -, ⟨hnone, rfl⟩ | ⟨e, he, t, ht, hset, rfl, htaken⟩⟩ :=
    seqStep_cases env hw c
  · have hnot : (c.entry d).any (fun e => NumbersFrom env s.guidSetId d e) = false := by
      cases hentry : c.entry d with
      | none => rfl
      | some e => simp [NumbersFrom, hnone e hentry]
    refine ⟨s, by simpa [hsets] using hs, rfl, .inl ⟨?_, if_neg (by simp [hnot]), rfl⟩⟩
    unfold takenBy
    cases hentry : c.entry d with
    | none => rfl
    | some e =>
      have hfrom : ¬ NumbersFrom env s.guidSetId d e := by simp [NumbersFrom, hnone e hentry]
      simp only [if_neg hfrom]
      split <;> rfl
  · have hany : (c.entry d).any (fun e => NumbersFrom env s.guidSetId d e) =
        decide (t.guidSetId = s.guidSetId) := by
      rw [he, Option.any_some]
      exact decide_eq_decide.mpr (by simp [NumbersFrom, hset])
    rw [htaken, hany, hsets]
    by_cases hst : s = t
    · subst hst
      exact ⟨s.next, List.mem_map.mpr ⟨s, hs, if_pos rfl⟩, rfl, .inr ⟨_, if_pos rfl, by simp,
        rfl, rfl, rfl⟩⟩
    · have hne : t.guidSetId ≠ s.guidSetId :=
        fun hg => hst (guid_unique hw.sets_sorted hs ht hg.symm)
      exact ⟨s, List.mem_map.mpr ⟨s, hs, if_neg hst⟩, rfl, .inl ⟨if_neg hne, by simp [hne], rfl⟩⟩

/-! ## Sequences of calls -/

/-- The calls that can take a number from a set take consecutive ones, at their
times. -/
theorem taken_eq (env : Env) {d : Driver} (hw : d.WF) {s : MonitorSetEntry} (hs : s ∈ d.sets)
    (calls : List SeqCall) :
    (taken env s.guidSetId d calls).map Prod.fst = numberedTimes env s.guidSetId d calls ∧
    ∀ i r, (taken env s.guidSetId d calls)[i]? = some r →
      r.2.ullGlobalSeqNo = s.ullSetSeqNo + UInt64.ofNat i ∧
      r.2.timesecs = timesecs env.longBits r.1 := by
  induction calls generalizing d s with
  | nil => exact ⟨rfl, nofun⟩
  | cons c calls ih =>
    have hcons : numberedTimes env s.guidSetId d (c :: calls) =
        numberedTimes env s.guidSetId d [c] ++ numberedTimes env s.guidSetId d calls := by
      rw [numberedTimes, ← List.singleton_append, List.filter_append, List.map_append]
      rfl
    rw [hcons, taken]
    obtain ⟨s', hs', hg, hcase⟩ := takenBy_cases env hw c hs
    obtain ⟨ihtimes, ihnumbers⟩ := ih (seqStep_wf env hw c) hs'
    rw [hg] at ihtimes ihnumbers
    rw [numberedTimes_seqStep env _ hw] at ihtimes
    rcases hcase with ⟨htaken, htimes, hn⟩ | ⟨n, htaken, htimes, hnumber, htime, hn⟩
    · rw [htaken, htimes, List.nil_append, List.nil_append, ← hn]
      exact ⟨ihtimes, ihnumbers⟩
    · rw [htaken, htimes, List.singleton_append, List.singleton_append, List.map_cons, ihtimes]
      refine ⟨rfl, fun i r hr => ?_⟩
      cases i with
      | zero =>
        obtain rfl : (c.ts, n) = r := Option.some.inj hr
        exact ⟨hnumber.trans (UInt64.add_zero _).symm, htime⟩
      | succ i =>
        rw [ofNat_succ_add, ← hn]
        exact ihnumbers i r hr

/-- Exact times follow the numbers, counted up from `first`, if and only if they are
steady where the numbers wrap. -/
theorem ordered_iff {first : UInt64} {records : List (Timespec × SeqNo)}
    (hnumbers : ∀ i r, records[i]? = some r → r.2.ullGlobalSeqNo = first + UInt64.ofNat i)
    (hexact : ∀ r ∈ records, r.2.timesecs.toNat = r.1.ticks)
    (hle : (records.map fun r => r.1.ticks).Pairwise (· ≤ ·)) :
    (∀ r ∈ records, ∀ r' ∈ records, r.2.ullGlobalSeqNo < r'.2.ullGlobalSeqNo →
      r.2.timesecs ≤ r'.2.timesecs) ↔ SteadyAtWrap first (records.map Prod.fst) := by
  have hbefore : ∀ i j (hi : i < records.length) (hj : j < records.length), i < j →
      records[i].1.ticks ≤ records[j].1.ticks := by
    intro i j hi hj hij
    have hget := List.pairwise_iff_getElem.mp hle i j (by simpa using hi) (by simpa using hj) hij
    simpa using hget
  have hnumber : ∀ i (hi : i < records.length),
      records[i].2.ullGlobalSeqNo = first + UInt64.ofNat i :=
    fun i hi => hnumbers i _ (List.getElem?_eq_getElem hi)
  constructor
  · intro hord i j hij hwrap
    have hi : i < records.length := by simpa using i.isLt
    have hj : j < records.length := by simpa using j.isLt
    rw [← hnumber i hi, ← hnumber j hj] at hwrap
    have hback := hord _ (List.getElem_mem hj) _ (List.getElem_mem hi) hwrap
    rw [UInt64.le_iff_toNat_le, hexact _ (List.getElem_mem hj), hexact _ (List.getElem_mem hi)]
      at hback
    simpa using Nat.le_antisymm (hbefore i j hi hj hij) hback
  · intro hsteady r hr r' hr' hlt
    obtain ⟨i, hi, rfl⟩ := List.getElem_of_mem hr
    obtain ⟨j, hj, rfl⟩ := List.getElem_of_mem hr'
    rw [UInt64.le_iff_toNat_le, hexact _ hr, hexact _ hr']
    rcases Nat.lt_trichotomy i j with hij | rfl | hji
    · exact hbefore i j hi hj hij
    · exact Nat.le_refl _
    · -- the smaller number came later
      rw [hnumber i hi, hnumber j hj] at hlt
      have heq := hsteady ⟨j, by simpa using hj⟩ ⟨i, by simpa using hi⟩ hji hlt
      exact Nat.le_of_eq (by simpa using heq.symm)

/-- A record without a path. -/
def bareFields : LogFields := { ulType := 0, wszFilePath := SeqNo.zero.iologdir, data := [] }

theorem timesFollow_iff {records : List (Timespec × SeqNo)} :
    TimesFollow records ↔ (∀ r ∈ records, r.2.timesecs.toNat = r.1.ticks) ∧
      ∀ r ∈ records, ∀ r' ∈ records, r.2.ullGlobalSeqNo < r'.2.ullGlobalSeqNo →
        r.2.timesecs ≤ r'.2.timesecs :=
  ⟨fun h => ⟨h.exact, fun r hr r' hr' => h.ordered r hr r' hr' bareFields bareFields⟩,
    fun h => ⟨h.1, fun r hr r' hr' _ _ => h.2 r hr r' hr'⟩⟩

/-- In every state of every run, for calls at times that do not go back: the times of
the records of a set are exact and follow the numbers if and only if the seconds of
every call that takes a number fit, and the times are steady where the counter of the
set wraps. -/
theorem record_times_follow_iff (env : Env) (hlong : env.longBits = 32 ∨ env.longBits = 64)
    (cnf : Bytes) (nalloc : Nat) (ops : List Op) :
    ∀ d ∈ states (opStep env) (initMonitorSet env cnf nalloc) ops, ∀ s ∈ d.sets,
      ∀ calls : List SeqCall, (∀ c ∈ calls, c.ts.InRange) →
        (calls.map (·.ts)).Pairwise (· ≤ ·) →
        (TimesFollow (taken env s.guidSetId d calls) ↔
          SecondsFit env.longBits (numberedTimes env s.guidSetId d calls) ∧
            SteadyAtWrap s.ullSetSeqNo (numberedTimes env s.guidSetId d calls)) := by
  intro d hd s hs calls hrange hmono
  obtain ⟨htimes, htaken⟩ := taken_eq env (states_wf env cnf nalloc ops d hd) hs calls
  have hsub : (numberedTimes env s.guidSetId d calls).Sublist (calls.map (·.ts)) :=
    List.filter_sublist.map _
  rw [← htimes] at hsub ⊢
  generalize taken env s.guidSetId d calls = records at htaken hsub
  have hin : ∀ r ∈ records, r.1.InRange := by
    intro r hr
    obtain ⟨c, hc, hts⟩ := List.mem_map.mp (hsub.subset (List.mem_map_of_mem hr))
    exact hts ▸ hrange c hc
  have hexact : (∀ r ∈ records, r.2.timesecs.toNat = r.1.ticks) ↔
      SecondsFit env.longBits (records.map Prod.fst) := by
    rw [SecondsFit, List.forall_mem_map]
    refine forall₂_congr fun r hr => ?_
    obtain ⟨i, hi, rfl⟩ := List.getElem_of_mem hr
    rw [(htaken i _ (List.getElem?_eq_getElem hi)).2]
    exact timesecs_exact_iff hlong (hin _ hr)
  have hle : (records.map fun r => r.1.ticks).Pairwise (· ≤ ·) := by
    have hpair := List.pairwise_map.mp (hmono.sublist hsub)
    refine List.pairwise_map.mpr (hpair.imp_of_mem fun ha hb h => ?_)
    exact Timespec.ticks_le (hin _ ha) (hin _ hb) h
  rw [timesFollow_iff, ← hexact]
  exact and_congr_right fun hex => ordered_iff (fun i r hr => (htaken i r hr).1) hex hle

/-! ## Concrete runs -/

/-- A kernel whose `long` has 32 bits. -/
def kernel32 : Env := { quietKernel with longBits := 32 }

/-- The driver with one item, the first to be allocated after its set. -/
def oneItemOf32 : Driver :=
  run (opStep kernel32) (initMonitorSet kernel32 [] 0) [.command (.addSet oneItemRequest)]

/-- Two calls in the first hour of 1970. -/
def earlyCalls : List SeqCall := [⟨⟨60, 0⟩, 1⟩, ⟨⟨3600, 999999999⟩, 1⟩]

theorem record_times_follow_iff_early :
    ∃ s ∈ oneItemOf32.sets, (numberedTimes kernel32 s.guidSetId oneItemOf32 earlyCalls).length = 2 ∧
      TimesFollow (taken kernel32 s.guidSetId oneItemOf32 earlyCalls) := by
  obtain ⟨s, hs, hlen, hfit, hsteady⟩ : ∃ s ∈ oneItemOf32.sets,
      (numberedTimes kernel32 s.guidSetId oneItemOf32 earlyCalls).length = 2 ∧
      SecondsFit 32 (numberedTimes kernel32 s.guidSetId oneItemOf32 earlyCalls) ∧
      SteadyAtWrap s.ullSetSeqNo (numberedTimes kernel32 s.guidSetId oneItemOf32 earlyCalls) := by
    decide +kernel
  have hrange : ∀ c ∈ earlyCalls, c.ts.InRange := by
    intro c hc
    rcases List.mem_pair.mp hc with rfl | rfl
    · exact ⟨by decide, by decide, by decide, by decide⟩
    · exact ⟨by decide, by decide, by decide, by decide⟩
  exact ⟨s, hs, hlen, (record_times_follow_iff kernel32 (.inl rfl) [] 0
    [.command (.addSet oneItemRequest)] oneItemOf32 (run_mem_states _ _) s hs earlyCalls hrange
    (List.pairwise_pair.mpr (.inl (by decide)))).mpr ⟨hfit, hsteady⟩⟩

/-- A call on 13 May 2014 and one two days later. -/
def callsOf2014 : List SeqCall := [⟨⟨1400000000, 0⟩, 1⟩, ⟨⟨1400172800, 0⟩, 1⟩]

/-- With a `long` of 32 bits the later one gets the smaller time, and neither gets
its own. -/
theorem times_of_2014_go_back :
    ∃ s ∈ oneItemOf32.sets, ∃ n n' : SeqNo,
      taken kernel32 s.guidSetId oneItemOf32 callsOf2014 =
        [(⟨1400000000, 0⟩, n), (⟨1400172800, 0⟩, n')] ∧
      n.ullGlobalSeqNo < n'.ullGlobalSeqNo ∧ n'.timesecs < n.timesecs ∧
      n.timesecs ≠ 14000000000000000 ∧ n'.timesecs ≠ 14001728000000000 := by
  obtain ⟨s, hs, r, hr, r', hr', htaken⟩ : ∃ s ∈ oneItemOf32.sets,
      ∃ r ∈ taken kernel32 s.guidSetId oneItemOf32 callsOf2014,
      ∃ r' ∈ taken kernel32 s.guidSetId oneItemOf32 callsOf2014,
      taken kernel32 s.guidSetId oneItemOf32 callsOf2014 =
        [(⟨1400000000, 0⟩, r.2), (⟨1400172800, 0⟩, r'.2)] ∧
      r.2.ullGlobalSeqNo < r'.2.ullGlobalSeqNo ∧ r'.2.timesecs < r.2.timesecs ∧
      r.2.timesecs ≠ 14000000000000000 ∧ r'.2.timesecs ≠ 14001728000000000 := by
    decide +kernel
  exact ⟨s, hs, r.2, r'.2, htaken⟩

end RtBackup
