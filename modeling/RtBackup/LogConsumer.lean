import RtBackup.Lib.Runs
import Mathlib.Order.MinMax
import Mathlib.Algebra.Group.Nat.Defs
import Mathlib.Algebra.Group.Int.Defs

/-!
# The programs that consume the log files

`RestoreIolog` and `AnalysisIolog` have the same `main`: an outer loop that
sleeps, and an inner loop that reads one log file in each round. The inner loop
counts `iolognum` up before it reads, and builds the next `iologpath` from it
only after a log has been handed over. All three of its `break`s leave between
the two.

The steps of `main` are interleaved with the growth of the log files, which the
kernel thread creates empty and then fills.

Results:
1. `mainStep_inStep_iff`: what keeps the counter, the name and the logs handed
   over in step.
2. `consumer_in_order_iff`: they stay in step exactly if no read comes too
   early; and then a looping consumer hands over every complete log.
-/

namespace RtBackup

open Runs

/-! ## The program -/

/-- `-loop` and `-loopdel`; `RestoreIolog` has no `-loopdel`. -/
structure ConsumerArgs where
  loop : Bool
  loopdel : Bool

/-- `sizeof(LOG_FILE_HEADER)`. -/
def sizeofLogFileHeader : Nat := 312

/-- `n++` for an `int`. -/
def intIncr (n : Int) : Int := (n + 1).bmod (2 ^ 32)

/-- The next call that `main` makes: `fopen`, the first `fread`, or `malloc` and
the second `fread`; or `main` has returned. -/
inductive ConsumerPc
  | opening
  | header
  | body
  | returned
  deriving DecidableEq

/-- `iologs` has the bytes that each log file has so far, `iologpath` the number
in the name that is opened next, `handed` the logs passed to `restore` (`dump`). -/
structure Consumer where
  iologs : Int → Option Nat
  iologpath : Int
  iolognum : Int
  pc : ConsumerPc
  handed : List Int

namespace Consumer

/-- `main` with `iobeginnum`, before any log file exists. -/
def start (iobeginnum : Int) : Consumer :=
  { iologs := fun _ => none, iologpath := iobeginnum, iolognum := iobeginnum, pc := .opening,
    handed := [] }

/-- The end of a round of the outer loop: `bfirst = 0; sleep(1);` and its test. -/
def endRound (args : ConsumerArgs) (s : Consumer) : Consumer :=
  { s with pc := if args.loop || args.loopdel then .opening else .returned }

/-- The bytes of the open file. -/
def fileSize (s : Consumer) : Nat :=
  (s.iologs s.iologpath).getD 0

/-- `restore` (`dump`), `fclose`, `unlink` for `-loopdel`, and the next name. -/
def handOver (args : ConsumerArgs) (s : Consumer) : Consumer :=
  { s with
    handed := s.handed ++ [s.iologpath]
    iologs := if args.loopdel then Function.update s.iologs s.iologpath none else s.iologs
    iologpath := s.iolognum
    pc := .opening }

/-- One call of `main`. `ok` is whether `fopen` of an existing file, or `malloc`,
succeeds; `ulLogSize` is what the header of each log says. -/
def mainStep (args : ConsumerArgs) (ulLogSize : Int → Nat) (s : Consumer) (ok : Bool) : Consumer :=
  match s.pc with
  | .opening =>
    if (s.iologs s.iologpath).isSome ∧ ok = true then { s with pc := .header }
    else s.endRound args
  | .header =>
    let s := { s with iolognum := intIncr s.iolognum }
    let readlen := min s.fileSize sizeofLogFileHeader
    if readlen ≠ sizeofLogFileHeader then s.endRound args
    else { s with pc := .body }
  | .body =>
    if ok = false then s.endRound args
    else
      let readlen := min s.fileSize (ulLogSize s.iologpath)
      if readlen ≠ ulLogSize s.iologpath then s.endRound args
      else s.handOver args
  | .returned => s

/-- A log file that comes into being or grows, to at most its `ulLogSize`. -/
def grow (ulLogSize : Int → Nat) (s : Consumer) (n : Int) (size : Nat) : Consumer :=
  if (s.iologs n).getD 0 ≤ size ∧ size ≤ ulLogSize n then
    { s with iologs := Function.update s.iologs n (some size) }
  else s

end Consumer

inductive ConsumerEvent
  | grow (n : Int) (size : Nat)
  | main (ok : Bool)

def consumerStep (args : ConsumerArgs) (ulLogSize : Int → Nat) (s : Consumer) :
    ConsumerEvent → Consumer
  | .grow n size => s.grow ulLogSize n size
  | .main ok => s.mainStep args ulLogSize ok

/-! ## In step -/

/-- The `k` numbers from `iobeginnum` on. -/
def numbersFrom (iobeginnum : Int) (k : Nat) : List Int :=
  (List.range k).map fun i : Nat => iobeginnum + (i : Int)

/-- The logs handed over are the first ones in order, and `iologpath` and
`iolognum` are the next one; `iolognum` is one ahead between the two reads. -/
structure InStep (iobeginnum : Int) (s : Consumer) : Prop where
  handed : s.handed = numbersFrom iobeginnum s.handed.length
  iologpath : s.iologpath = iobeginnum + s.handed.length
  iolognum : s.iolognum = s.iologpath + if s.pc = .body then 1 else 0

/-- The header is read when it is there and `iolognum` is not at its bound, the
log when it is complete and can be allocated. -/
def ReadInTime (ulLogSize : Int → Nat) (s : Consumer) : ConsumerEvent → Prop
  | .grow _ _ => True
  | .main ok =>
    match s.pc with
    | .header => sizeofLogFileHeader ≤ s.fileSize ∧ -2 ^ 31 ≤ s.iolognum + 1 ∧
        s.iolognum + 1 < 2 ^ 31
    | .body => ok = true ∧ ulLogSize s.iologpath ≤ s.fileSize
    | .opening | .returned => True

instance (ulLogSize : Int → Nat) (s : Consumer) : ∀ ev, Decidable (ReadInTime ulLogSize s ev)
  | .grow _ _ => inferInstanceAs (Decidable True)
  | .main ok =>
    match hpc : s.pc with
    | .header => decidable_of_iff (sizeofLogFileHeader ≤ s.fileSize ∧ -2 ^ 31 ≤ s.iolognum + 1 ∧
        s.iolognum + 1 < 2 ^ 31) (by simp [ReadInTime, hpc])
    | .body => decidable_of_iff (ok = true ∧ ulLogSize s.iologpath ≤ s.fileSize)
        (by simp [ReadInTime, hpc])
    | .opening | .returned => .isTrue (by simp [ReadInTime, hpc])

theorem numbersFrom_succ (iobeginnum : Int) (k : Nat) :
    numbersFrom iobeginnum (k + 1) = numbersFrom iobeginnum k ++ [iobeginnum + (k : Int)] := by
  simp [numbersFrom, List.range_succ]

theorem numbersFrom_cons (iobeginnum : Int) (k : Nat) :
    numbersFrom iobeginnum (k + 1) = iobeginnum :: numbersFrom (iobeginnum + 1) k := by
  simp only [numbersFrom, List.range_succ_eq_map, List.map_cons, List.map_map, Function.comp_def,
    Nat.succ_eq_add_one, Int.natCast_succ, Int.natCast_zero, Int.add_zero, Int.add_assoc,
    Int.add_comm 1]

theorem numbersFrom_add (iobeginnum : Int) (j k : Nat) :
    numbersFrom iobeginnum (j + k) =
      numbersFrom iobeginnum j ++ numbersFrom (iobeginnum + (j : Int)) k := by
  simp [numbersFrom, List.range_add, Function.comp_def, Int.add_assoc]

theorem intIncr_eq_iff (n : Int) : intIncr n = n + 1 ↔ -2 ^ 31 ≤ n + 1 ∧ n + 1 < 2 ^ 31 := by
  unfold intIncr
  constructor
  · intro h
    have hlow : -(((2 ^ 32 : Nat) : Int) / 2) ≤ (n + 1).bmod (2 ^ 32) := Int.le_bmod (by decide)
    have hhigh : (n + 1).bmod (2 ^ 32) < (((2 ^ 32 : Nat) : Int) + 1) / 2 := Int.bmod_lt (by decide)
    rw [h] at hlow hhigh
    exact ⟨by simpa using hlow, by simpa using hhigh⟩
  · rintro ⟨hlow, hhigh⟩
    exact Int.bmod_eq_of_le (by simpa using hlow) (by simpa using hhigh)

theorem intIncr_ne (n : Int) : intIncr n ≠ n := by
  intro h
  have hmod : (n + 1).bmod (2 ^ 32) % ((2 ^ 32 : Nat) : Int) = (n + 1) % ((2 ^ 32 : Nat) : Int) :=
    Int.bmod_emod
  rw [← intIncr, h] at hmod
  omega

theorem start_inStep (iobeginnum : Int) : InStep iobeginnum (Consumer.start iobeginnum) :=
  ⟨rfl, (Int.add_zero _).symm, (Int.add_zero _).symm⟩

/-! ## One step -/

variable {args : ConsumerArgs} {ulLogSize : Int → Nat} {iobeginnum : Int} {s : Consumer}

theorem endRound_pc_ne (args : ConsumerArgs) (s : Consumer) : (s.endRound args).pc ≠ .body := by
  show (if args.loop || args.loopdel then ConsumerPc.opening else .returned) ≠ .body
  split <;> decide

/-- A `break` with the counter at `n`: the name is still that of the same log. -/
theorem endRound_inStep_iff {n : Int} (h : InStep iobeginnum s) :
    InStep iobeginnum ({ s with iolognum := n }.endRound args) ↔ n = s.iologpath := by
  constructor
  · intro hend
    have hnum := hend.iolognum
    rw [if_neg (endRound_pc_ne args _), Int.add_zero] at hnum
    exact hnum
  · intro hn
    refine ⟨h.handed, h.iologpath, ?_⟩
    rw [if_neg (endRound_pc_ne args _), Int.add_zero]
    exact hn

/-- The reader goes on in step from the log it has handed over to the next one. -/
theorem InStep.handOver (h : InStep iobeginnum s) (hpc : s.pc = .body) :
    InStep iobeginnum (s.handOver args) where
  handed := by
    show s.handed ++ [s.iologpath] = numbersFrom iobeginnum (s.handed ++ [s.iologpath]).length
    rw [List.length_append, List.length_singleton, numbersFrom_succ, ← h.handed, ← h.iologpath]
  iologpath := by
    show s.iolognum = iobeginnum + ((s.handed ++ [s.iologpath]).length : Int)
    rw [h.iolognum, if_pos hpc, h.iologpath]
    simp [Int.add_assoc]
  iolognum := (Int.add_zero _).symm

/-- A call of `main` keeps counter and name in step exactly if it reads in time. -/
theorem mainStep_inStep_iff (ok : Bool) (h : InStep iobeginnum s) :
    InStep iobeginnum (s.mainStep args ulLogSize ok) ↔ ReadInTime ulLogSize s (.main ok) := by
  unfold Consumer.mainStep ReadInTime
  cases hpc : s.pc with
  | opening =>
    have hnum : s.iolognum = s.iologpath := by simpa [hpc] using h.iolognum
    refine iff_of_true ?_ trivial
    show InStep iobeginnum (if _ then _ else _)
    split
    · exact ⟨h.handed, h.iologpath, hnum.trans (Int.add_zero _).symm⟩
    · exact (endRound_inStep_iff h).mpr hnum
  | header =>
    have hnum : s.iolognum = s.iologpath := by simpa [hpc] using h.iolognum
    show InStep iobeginnum (if min s.fileSize _ ≠ _ then _ else _) ↔ _
    by_cases hread : sizeofLogFileHeader ≤ s.fileSize
    · rw [if_neg (not_not_intro (Nat.min_eq_right hread)), and_iff_right hread, ← intIncr_eq_iff]
      constructor
      · intro hbody
        rw [hnum]
        exact hnum ▸ hbody.iolognum
      · intro hincr
        exact ⟨h.handed, h.iologpath, hincr.trans (congrArg (· + 1) hnum)⟩
    · have hshort : min s.fileSize sizeofLogFileHeader ≠ sizeofLogFileHeader :=
        fun hmin => hread (min_eq_right_iff.mp hmin)
      rw [if_pos hshort]
      refine iff_of_false (fun hend => ?_) fun hok => hread hok.1
      exact intIncr_ne _ (((endRound_inStep_iff h).mp hend).trans hnum.symm)
  | body =>
    have hnum : s.iolognum = s.iologpath + 1 := by simpa [hpc] using h.iolognum
    have hbreak : ¬ InStep iobeginnum (s.endRound args) := fun hend =>
      (Int.ne_of_gt (Int.lt_succ s.iologpath)) (hnum.symm.trans ((endRound_inStep_iff h).mp hend))
    cases ok with
    | false => exact iff_of_false hbreak nofun
    | true =>
      show InStep iobeginnum (if min s.fileSize _ ≠ _ then _ else _) ↔ _
      by_cases hread : ulLogSize s.iologpath ≤ s.fileSize
      · rw [if_neg (not_not_intro (Nat.min_eq_right hread))]
        exact iff_of_true (h.handOver hpc) ⟨rfl, hread⟩
      · rw [if_pos fun hmin => hread (min_eq_right_iff.mp hmin)]
        exact iff_of_false hbreak fun hok => hread hok.2
  | returned => exact iff_of_true h trivial

theorem grow_inStep (n : Int) (size : Nat) (h : InStep iobeginnum s) :
    InStep iobeginnum (s.grow ulLogSize n size) := by
  unfold Consumer.grow
  split
  · exact ⟨h.handed, h.iologpath, h.iolognum⟩
  · exact h

/-! ## Reading a complete log -/

/-- The log is there with all its bytes, and `iolognum` can count it. -/
structure Complete (ulLogSize : Int → Nat) (s : Consumer) (n : Int) : Prop where
  iolog : s.iologs n = some (ulLogSize n)
  header : sizeofLogFileHeader ≤ ulLogSize n
  low : -2 ^ 31 ≤ n + 1
  high : n + 1 < 2 ^ 31

/-- The calls of `main` up to the next log that it hands over. -/
def callsLeft : ConsumerPc → Nat
  | .opening => 3
  | .header => 2
  | .body => 1
  | .returned => 0

theorem Complete.fileSize {ulLogSize : Int → Nat} {s : Consumer}
    (h : Complete ulLogSize s s.iologpath) : s.fileSize = ulLogSize s.iologpath := by
  rw [Consumer.fileSize, h.iolog, Option.getD_some]

theorem Complete.opening (h : Complete ulLogSize s s.iologpath) (hpc : s.pc = .opening) :
    s.mainStep args ulLogSize true = { s with pc := .header } := by
  unfold Consumer.mainStep
  rw [hpc]
  exact if_pos ⟨by rw [h.iolog, Option.isSome_some], rfl⟩

theorem Complete.readHeader (h : Complete ulLogSize s s.iologpath) (hs : InStep iobeginnum s)
    (hpc : s.pc = .header) :
    s.mainStep args ulLogSize true = { s with iolognum := s.iologpath + 1, pc := .body } := by
  have hnum : s.iolognum = s.iologpath := by simpa [hpc] using hs.iolognum
  have hread : min s.fileSize sizeofLogFileHeader = sizeofLogFileHeader :=
    min_eq_right_iff.mpr (h.fileSize ▸ h.header)
  unfold Consumer.mainStep
  rw [hpc, hnum, (intIncr_eq_iff _).mpr ⟨h.low, h.high⟩]
  exact if_neg (not_not_intro hread)

theorem Complete.readBody (h : Complete ulLogSize s s.iologpath) (hpc : s.pc = .body) :
    s.mainStep args ulLogSize true = s.handOver args := by
  have hread : min s.fileSize (ulLogSize s.iologpath) = ulLogSize s.iologpath :=
    min_eq_right_iff.mpr h.fileSize.ge
  unfold Consumer.mainStep
  rw [hpc]
  exact if_neg (not_not_intro hread)

/-- From any point of its loops, `main` hands over the log that it is at. -/
theorem Complete.handOver (args : ConsumerArgs) (h : Complete ulLogSize s s.iologpath)
    (hs : InStep iobeginnum s) (hpc : s.pc ≠ .returned) :
    run (consumerStep args ulLogSize) s (List.replicate (callsLeft s.pc) (.main true)) =
      { s with iolognum := s.iologpath + 1 }.handOver args := by
  have hbody : ∀ s : Consumer, Complete ulLogSize s s.iologpath → s.pc = .body →
      run (consumerStep args ulLogSize) s [.main true] = s.handOver args :=
    fun _ h => h.readBody
  have hheader : ∀ s : Consumer, Complete ulLogSize s s.iologpath → InStep iobeginnum s →
      s.pc = .header → run (consumerStep args ulLogSize) s [.main true, .main true] =
        { s with iolognum := s.iologpath + 1 }.handOver args := by
    intro s h hs hpc
    show run (consumerStep args ulLogSize) (s.mainStep args ulLogSize true) [.main true] = _
    rw [h.readHeader hs hpc]
    exact hbody _ ⟨h.iolog, h.header, h.low, h.high⟩ rfl
  cases hcase : s.pc with
  | opening =>
    have hnum : s.iolognum = s.iologpath := by simpa [hcase] using hs.iolognum
    show run (consumerStep args ulLogSize) (s.mainStep args ulLogSize true)
      [.main true, .main true] = _
    rw [h.opening hcase]
    exact hheader _ ⟨h.iolog, h.header, h.low, h.high⟩
      ⟨hs.handed, hs.iologpath, hnum.trans (Int.add_zero _).symm⟩ rfl
  | header => exact hheader s h hs hcase
  | body =>
    have hnum : s.iolognum = s.iologpath + 1 := by simpa [hcase] using hs.iolognum
    rw [← hnum]
    exact hbody s h hcase
  | returned => exact absurd hcase hpc

/-- The next `k` logs are complete: some calls of `main` later they have been
handed over. -/
theorem InStep.catchUp (args : ConsumerArgs) {k : Nat} (hs : InStep iobeginnum s)
    (hpc : s.pc ≠ .returned)
    (h : ∀ i < k, Complete ulLogSize s (s.iologpath + (i : Int))) :
    ∃ m ≤ 3 * k,
      (run (consumerStep args ulLogSize) s (List.replicate m (.main true))).handed =
        s.handed ++ numbersFrom s.iologpath k := by
  induction k generalizing s with
  | zero => exact ⟨0, Nat.le_refl 0, (List.append_nil _).symm⟩
  | succ k ih =>
    have hfirst : Complete ulLogSize s s.iologpath := by simpa using h 0 k.succ_pos
    let t := { s with iolognum := s.iologpath + 1 }.handOver args
    have hrun := hfirst.handOver args hs hpc
    have ht : InStep iobeginnum t :=
      InStep.handOver (s := { s with iolognum := s.iologpath + 1, pc := .body })
        ⟨hs.handed, hs.iologpath, rfl⟩ rfl
    have hnext : ∀ i < k, Complete ulLogSize t (t.iologpath + (i : Int)) := by
      intro i hi
      have hn : s.iologpath + ((i + 1 : Nat) : Int) = s.iologpath + 1 + (i : Int) := by omega
      have hlog := h (i + 1) (Nat.succ_lt_succ hi)
      rw [hn] at hlog
      have hne : s.iologpath + 1 + (i : Int) ≠ s.iologpath := by omega
      refine ⟨?_, hlog.header, hlog.low, hlog.high⟩
      show (if args.loopdel then _ else _ : Int → Option Nat) _ = _
      split
      · exact (Function.update_of_ne hne _ _).trans hlog.iolog
      · exact hlog.iolog
    obtain ⟨m, hm, hcatch⟩ := ih ht (by decide : ConsumerPc.opening ≠ .returned) hnext
    have hcalls : callsLeft s.pc ≤ 3 := by cases s.pc <;> decide
    refine ⟨callsLeft s.pc + m, by omega, ?_⟩
    rw [List.replicate_add, run, List.foldl_append, ← run, ← run, hrun, hcatch, numbersFrom_cons]
    show s.handed ++ [s.iologpath] ++ _ = _
    rw [List.append_assoc]
    rfl

/-! ## Runs -/

theorem consumerStep_inStep_iff (h : InStep iobeginnum s) (ev : ConsumerEvent) :
    InStep iobeginnum (consumerStep args ulLogSize s ev) ↔ ReadInTime ulLogSize s ev := by
  cases ev with
  | grow n size => exact iff_of_true (grow_inStep n size h) trivial
  | main ok => exact mainStep_inStep_iff ok h

theorem mainStep_pc (hloop : (args.loop || args.loopdel) = true) (hpc : s.pc ≠ .returned)
    (ok : Bool) : (s.mainStep args ulLogSize ok).pc ≠ .returned := by
  have hend : ∀ s : Consumer, (s.endRound args).pc ≠ .returned := by
    intro s
    show (if _ then _ else _) ≠ _
    rw [if_pos hloop]
    decide
  unfold Consumer.mainStep
  cases hcase : s.pc with
  | opening =>
    show (if _ then _ else _ : Consumer).pc ≠ _
    split
    · exact nofun
    · exact hend _
  | header =>
    show (if _ then _ else _ : Consumer).pc ≠ _
    split
    · exact hend _
    · exact nofun
  | body =>
    show (if _ then _ else if _ then _ else _ : Consumer).pc ≠ _
    split
    · exact hend _
    · split
      · exact hend _
      · exact nofun
  | returned => exact absurd hcase hpc

theorem consumerStep_pc (hloop : (args.loop || args.loopdel) = true) (hpc : s.pc ≠ .returned)
    (ev : ConsumerEvent) : (consumerStep args ulLogSize s ev).pc ≠ .returned := by
  cases ev with
  | grow n size =>
    show (s.grow ulLogSize n size).pc ≠ _
    unfold Consumer.grow
    split
    · exact hpc
    · exact hpc
  | main ok => exact mainStep_pc hloop hpc ok

/-- In every run of `main` beside the growth of the log files: the logs handed
over, the counter and the name stay in step exactly if every header is read when
it is there and every log when it is complete. In these runs the logs handed
over are always `iobeginnum`, `iobeginnum + 1`, …, and a looping `main` hands
over the next `k` logs once they are complete. -/
theorem consumer_in_order_iff (args : ConsumerArgs) (ulLogSize : Int → Nat) (iobeginnum : Int)
    (events : List ConsumerEvent) :
    let step := consumerStep args ulLogSize
    let s := Consumer.start iobeginnum
    ((∀ t ∈ states step s events, InStep iobeginnum t) ↔
      Along step (ReadInTime ulLogSize) s events) ∧
    (Along step (ReadInTime ulLogSize) s events → ∀ t ∈ states step s events,
      t.handed = numbersFrom iobeginnum t.handed.length ∧
      ((args.loop || args.loopdel) = true → ∀ k,
        (∀ i < k, Complete ulLogSize t (iobeginnum + ((t.handed.length + i : Nat) : Int))) →
        ∃ m ≤ 3 * k, (run step t (List.replicate m (.main true))).handed =
          numbersFrom iobeginnum (t.handed.length + k))) := by
  intro step s
  have hiff : (∀ t ∈ states step s events, InStep iobeginnum t) ↔
      Along step (ReadInTime ulLogSize) s events :=
    (forall_states_iff_along (I := fun _ => True) (fun _ _ _ _ => trivial)
      (fun _ ev _ _ h => consumerStep_inStep_iff h ev) trivial).trans
      (and_iff_right (start_inStep iobeginnum))
  refine ⟨hiff, fun halong t ht => ?_⟩
  have hs : InStep iobeginnum t := hiff.mpr halong t ht
  refine ⟨hs.handed, fun hloop k hk => ?_⟩
  have hpc : t.pc ≠ .returned :=
    invariant (I := fun t : Consumer => t.pc ≠ .returned)
      (fun _ ev h => consumerStep_pc hloop h ev) (by decide : ConsumerPc.opening ≠ .returned)
      events t ht
  obtain ⟨m, hm, hcatch⟩ := hs.catchUp args hpc fun i hi => by
    rw [hs.iologpath, Int.add_assoc, ← Int.natCast_add]
    exact hk i hi
  refine ⟨m, hm, hcatch.trans ?_⟩
  rw [numbersFrom_add, ← hs.handed, ← hs.iologpath]

/-! ## Concrete runs -/

/-- Every log has 1100 bytes. -/
def equalLogs : Int → Nat := fun _ => 1100

/-- The log 0 is opened while it is empty; the logs 0 to 2 are complete before
the next round of the outer loop. -/
def openedEmpty : List ConsumerEvent :=
  [.grow 0 0, .main true, .main true, .grow 0 1100, .grow 1 1100, .grow 2 1100] ++
    List.replicate 6 (.main true)

theorem log_skipped :
    let t := run (consumerStep ⟨true, false⟩ equalLogs) (Consumer.start 0) openedEmpty
    t.handed = [0, 2] ∧ t.handed ≠ numbersFrom 0 t.handed.length := by
  decide

/-- Every log is longer than the one before. -/
def longerLogs : Int → Nat := fun n => 1100 + n.toNat

/-- The log 5 is opened with its header complete and grows until it is read; the
log 6 is complete before that, and the log 7 comes after two rounds without one. -/
def openedInTime : List ConsumerEvent :=
  [.main true, .grow 5 400, .main true, .main true, .grow 6 1106, .grow 5 1105] ++
    List.replicate 6 (.main true) ++ [.grow 7 1107, .main true, .main true, .main true]

theorem consumer_in_order_iff_complete :
    Along (consumerStep ⟨true, false⟩ longerLogs) (ReadInTime longerLogs) (Consumer.start 5)
        openedInTime ∧
      (run (consumerStep ⟨true, false⟩ longerLogs) (Consumer.start 5) openedInTime).handed =
        numbersFrom 5 3 := by
  have halong : Along (consumerStep ⟨true, false⟩ longerLogs) (ReadInTime longerLogs)
      (Consumer.start 5) openedInTime := by decide
  have hstate := ((consumer_in_order_iff ⟨true, false⟩ longerLogs 5 openedInTime).2 halong _
    (run_mem_states _ _)).1
  exact ⟨halong, hstate⟩

end RtBackup
