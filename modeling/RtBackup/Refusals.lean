import RtBackup.Requests

/-!
# Refused requests

A refused request should leave the configuration alone; for a collision of names
the caller even means to take back what it added. The stages before the refusal
stay in force all the same, and the status of a request whose last item has an
unknown type is the pointer that `strncat` returned.

Results:
1. `run_itemStep_unchanged_iff`: the rounds before a refusal leave the driver
   alone only if the set was there and stays and no item was known.
2. `refused_request_harmless_iff`: exactly when a status other than 0 means that
   nothing changed.
-/

namespace RtBackup

open ByteFile SearchTree Runs

/-! ## Definitions -/

/-- The first item of a known type. -/
def firstKnown (items : List FilterItem) : Option FilterItem :=
  (items.filter fun item => item.known).head?

/-- The request is refused before it changed anything, or it succeeds. -/
def RefusalHarmless (env : Env) (backupData : RealtimeBackupData) (bDelExistSet : Bool)
    (d : Driver) : Prop :=
  -- no set of this GUID was deleted before the set was refused
  (¬ SetAccepted env backupData.guidSetId bDelExistSet d ∧
    getMonitorSetEntry d backupData.guidSetId = none) ∨
  -- items for a set that is there and stays, and already the first of them is refused
  (bDelExistSet = false ∧ (∃ s, getMonitorSetEntry d backupData.guidSetId = some s) ∧
    ∀ item ∈ firstKnown backupData.filterItems, ¬ Admissible env d item.wszFilterName) ∨
  RequestAccepted env backupData bDelExistSet d

/-- The request is refused, by its set or by its first item of a known type,
before it changed anything. -/
def RefusedUnchanged (env : Env) (backupData : RealtimeBackupData) (bDelExistSet : Bool)
    (d : Driver) : Prop :=
  (¬ SetAccepted env backupData.guidSetId bDelExistSet d ∧
    getMonitorSetEntry d backupData.guidSetId = none) ∨
  (bDelExistSet = false ∧ (∃ s, getMonitorSetEntry d backupData.guidSetId = some s) ∧
    ∃ item ∈ firstKnown backupData.filterItems, ¬ Admissible env d item.wszFilterName)

/-! ## Rounds of the loop -/

theorem itemStep_changes (env : Env) (guid : GUID) (pmse : Nat) {d : Driver} (item : FilterItem)
    (hset : ∃ s ∈ d.sets, s.guidSetId = guid) :
    Changes env d (itemStep env guid pmse d item) := by
  unfold itemStep
  split
  · exact (addMonitorItem_changes env (requestedItem guid item) d hset).tail (.countFile pmse)
  · exact .refl

theorem itemStep_sets (env : Env) (guid : GUID) (pmse : Nat) (d : Driver)
    (item : FilterItem) :
    (itemStep env guid pmse d item).sets = d.sets.map fun s =>
      if s.addr = pmse then
        { s with ulFileCount := s.ulFileCount + if item.known then 1 else 0 }
      else s := by
  unfold itemStep
  split
  · next hk =>
    rw [sets_updSet, Driver.sets, addMonitorItem_monitorSet]
    rfl
  · symm
    refine (List.map_congr_left fun s _ => ?_).trans (List.map_id _)
    simp

theorem itemStep_set {env : Env} {guid : GUID} (pmse : Nat) {d : Driver} (item : FilterItem)
    (hset : ∃ s ∈ d.sets, s.guidSetId = guid) :
    ∃ s ∈ (itemStep env guid pmse d item).sets, s.guidSetId = guid := by
  obtain ⟨s, hs, hg⟩ := hset
  rw [itemStep_sets]
  refine ⟨_, List.mem_map_of_mem hs, ?_⟩
  split
  · exact hg
  · exact hg

/-- The loop counts the items of known types in the set, and changes no other
set. -/
theorem run_itemStep_sets (env : Env) (guid : GUID) (pmse : Nat) (items : List FilterItem)
    (d : Driver) :
    (run (itemStep env guid pmse) d items).sets = d.sets.map fun s =>
      if s.addr = pmse then
        { s with
          ulFileCount := s.ulFileCount + UInt32.ofNat (items.countP fun item => item.known) }
      else s := by
  induction items generalizing d with
  | nil =>
    symm
    refine (List.map_congr_left fun s _ => ?_).trans (List.map_id _)
    simp
  | cons item items ih =>
    rw [run, List.foldl_cons, ← run, ih, itemStep_sets, List.map_map]
    refine List.map_congr_left fun s _ => ?_
    simp only [Function.comp_apply]
    by_cases ha : s.addr = pmse
    · rw [if_pos ha, if_pos ha, if_pos ha]
      by_cases hk : item.known
      · simp [hk, UInt32.add_assoc, UInt32.add_comm]
      · simp [hk]
    · rw [if_neg ha, if_neg ha, if_neg ha]

theorem mem_sets_run_itemStep (env : Env) (guid : GUID) (items : List FilterItem) {d : Driver}
    {s : MonitorSetEntry} (hs : s ∈ d.sets) :
    { s with ulFileCount := s.ulFileCount + UInt32.ofNat (items.countP fun item => item.known) } ∈
      (run (itemStep env guid s.addr) d items).sets := by
  rw [run_itemStep_sets]
  exact List.mem_map.mpr ⟨s, hs, if_pos rfl⟩

theorem run_itemStep_unknown (env : Env) (guid : GUID) (pmse : Nat) {items : List FilterItem}
    (h : ∀ item ∈ items, ¬ item.known) (d : Driver) : run (itemStep env guid pmse) d items = d := by
  induction items with
  | nil => rfl
  | cons item items ih =>
    rw [run, List.foldl_cons, itemStep, if_neg (h item List.mem_cons_self)]
    exact ih fun item' hi => h item' (List.mem_cons_of_mem _ hi)

/-- The first item of a known type meets the driver that the loop started with. -/
theorem firstKnown_accepted {env : Env} {guid : GUID} {pmse : Nat} {items : List FilterItem}
    {d : Driver} (h : Along (itemStep env guid pmse) (ItemAccepted env) d items) :
    ∀ item ∈ firstKnown items, Admissible env d item.wszFilterName := by
  unfold firstKnown
  induction items with
  | nil => exact nofun
  | cons item items ih =>
    by_cases hk : item.known
    · rw [List.filter_cons_of_pos (by simpa using hk)]
      intro item' hi
      obtain rfl : item = item' := by simpa using hi
      exact h.1 hk
    · rw [List.filter_cons_of_neg (by simpa using hk)]
      have hrest := h.2
      rw [itemStep, if_neg hk] at hrest
      exact ih hrest

theorem firstKnown_eq_none_iff {items : List FilterItem} :
    firstKnown items = none ↔ ∀ item ∈ items, ¬ item.known := by
  simp [firstKnown]

theorem firstKnown_append_of_unknown {done rest : List FilterItem} {item : FilterItem}
    (hdone : ∀ item ∈ done, ¬ item.known) (hk : item.known) :
    firstKnown (done ++ item :: rest) = some item := by
  have hnil : (done.filter fun item => item.known) = [] :=
    List.filter_eq_nil_iff.mpr fun item hi => by simpa using hdone item hi
  rw [firstKnown, List.filter_append, hnil, List.filter_cons_of_pos (by simpa using hk)]
  rfl

theorem firstKnown_append_of_some {done rest : List FilterItem} {item : FilterItem}
    (h : item ∈ firstKnown done) : item ∈ firstKnown (done ++ rest) := by
  rw [firstKnown, List.filter_append, List.head?_append]
  exact Option.mem_def.mpr (by rw [← firstKnown, Option.mem_def.mp h]; rfl)

/-- Rounds for a set that is there leave the driver alone only if they do
nothing: the set counts the items, fewer than 2^32. -/
theorem run_itemStep_unchanged_iff (env : Env) (guid : GUID) {items : List FilterItem} {d : Driver}
    (hw : d.WF) {s : MonitorSetEntry} (hs : s ∈ d.sets) (hlen : items.length < 2 ^ 32) :
    ((run (itemStep env guid s.addr) d items).monitorSet = d.monitorSet ∧
      (run (itemStep env guid s.addr) d items).monitorFiles = d.monitorFiles) ↔
    ∀ item ∈ items, ¬ item.known := by
  constructor
  · rintro ⟨hsets, -⟩ item hi hk
    have hcount : s.ulFileCount + UInt32.ofNat (items.countP fun item => item.known) =
        s.ulFileCount := by
      have hmem := mem_sets_run_itemStep env guid items hs
      rw [Driver.sets, hsets] at hmem
      exact congrArg (fun t : MonitorSetEntry => t.ulFileCount) (set_eq_of_addr hw hmem hs rfl)
    have hzero : UInt32.ofNat (items.countP fun item => item.known) = 0 := by
      simpa using hcount
    have hle := List.countP_le_length (p := fun item : FilterItem => decide item.known) (l := items)
    have hpos : 0 < items.countP fun item => item.known :=
      List.countP_pos_iff.mpr ⟨item, hi, by simpa using hk⟩
    have hval := congrArg UInt32.toNat hzero
    rw [UInt32.toNat_ofNat', Nat.mod_eq_of_lt (by omega)] at hval
    exact absurd hval hpos.ne'
  · intro h
    rw [run_itemStep_unknown env guid s.addr h]
    exact ⟨rfl, rfl⟩

/-! ## Whole requests -/

theorem afterSet_of_stays (env : Env) {backupData : RealtimeBackupData} {bDelExistSet : Bool}
    {d : Driver} (hdel : bDelExistSet = false) {s : MonitorSetEntry}
    (h : getMonitorSetEntry d backupData.guidSetId = some s) :
    afterSet env backupData bDelExistSet d = d := by
  rw [afterSet, addMonitorSet, RealtimeBackupData.requestedSet, h, hdel]
  rfl

/-- What the loop leaves is the driver before the request only if the set was
there and stays. -/
theorem run_afterSet_unchanged_iff {env : Env} {backupData : RealtimeBackupData}
    {bDelExistSet : Bool} {d : Driver} (hw : d.WF)
    (hset : SetAccepted env backupData.guidSetId bDelExistSet d) {pmse : MonitorSetEntry}
    (hpmse : msSearch (afterSet env backupData bDelExistSet d).monitorSet.rbTree
      backupData.guidSetId = some pmse) {items : List FilterItem} (hlen : items.length < 2 ^ 32) :
    ((run (itemStep env backupData.guidSetId pmse.addr) (afterSet env backupData bDelExistSet d)
        items).monitorSet = d.monitorSet ∧
      (run (itemStep env backupData.guidSetId pmse.addr) (afterSet env backupData bDelExistSet d)
        items).monitorFiles = d.monitorFiles) ↔
    bDelExistSet = false ∧ (∃ s, getMonitorSetEntry d backupData.guidSetId = some s) ∧
      ∀ item ∈ items, ¬ item.known := by
  obtain ⟨pmse', hpmse', hcase⟩ := afterSet_entry hw hset
  obtain rfl : pmse' = pmse := Option.some.inj (hpmse'.symm.trans hpmse)
  rcases hcase with ⟨hdel, hget, hadd⟩ | ⟨hnew, hentry, -, -⟩
  · have hd : afterSet env backupData bDelExistSet d = d := by rw [afterSet, hadd]
    rw [hd, run_itemStep_unchanged_iff env _ hw (getMonitorSetEntry_sound hget).1 hlen]
    exact ⟨fun h => ⟨hdel, ⟨pmse', hget⟩, h⟩, fun h => h.2.2⟩
  · -- the new set has an address that no set had
    constructor
    · rintro ⟨hsets, -⟩
      have hmem := mem_sets_run_itemStep env backupData.guidSetId items (msSearch_sound hpmse).1
      rw [Driver.sets, hsets] at hmem
      have hlt := hw.sets_fresh _ hmem
      rw [hentry] at hlt
      exact absurd hlt (Nat.lt_irrefl _)
    · rintro ⟨hdel, ⟨s, hs⟩, -⟩
      rcases hnew with h | h
      · rw [hdel] at h
        cases h
      · rw [hs] at h
        cases h

theorem RefusedUnchanged.not_accepted {env : Env} {backupData : RealtimeBackupData}
    {bDelExistSet : Bool} {d : Driver} (hw : d.WF)
    (h : RefusedUnchanged env backupData bDelExistSet d) :
    ¬ (SetAccepted env backupData.guidSetId bDelExistSet d ∧
      ItemsAccepted env backupData bDelExistSet d) := by
  rintro ⟨hset, hitems⟩
  rcases h with ⟨hno, -⟩ | ⟨hdel, ⟨t, ht⟩, item, hi, hno⟩
  · exact hno hset
  · obtain ⟨pmse, hpmse, -⟩ := afterSet_entry hw hset
    have hok := firstKnown_accepted (hitems pmse hpmse) item hi
    rw [afterSet_of_stays env hdel ht] at hok
    exact hno hok

/-- A request that is refused in time leaves the driver as it was. -/
theorem RefusedUnchanged.answer {env : Env} {backupData : RealtimeBackupData} {bDelExistSet : Bool}
    {d : Driver} (hw : d.WF) (h : RefusedUnchanged env backupData bDelExistSet d) :
    ∃ n status, status < 0 ∧
      configAddMonitorSet env backupData bDelExistSet d = ({ d with nalloc := n }, status) := by
  rcases configAddMonitorSet_cases env backupData bDelExistSet hw with ⟨hset, hitems, -⟩ |
    ⟨hset, -, pmse, -, done, last, rest, hsplit, hdone, -, n, status, hstatus, heq⟩ |
    ⟨hset, status, hstatus, heq⟩
  · exact absurd ⟨hset, hitems⟩ (h.not_accepted hw)
  · rcases h with ⟨hno, -⟩ | ⟨hdel, ⟨t, ht⟩, item, hi, hno⟩
    · exact absurd hset hno
    · have hfirst := firstKnown_accepted hdone
      rw [afterSet_of_stays env hdel ht] at hfirst heq
      have hunknown : ∀ item' ∈ done, ¬ item'.known := by
        refine firstKnown_eq_none_iff.mp (Option.eq_none_iff_forall_not_mem.mpr fun item' hi' => ?_)
        have hsame : item' ∈ firstKnown (done ++ last :: rest) := firstKnown_append_of_some hi'
        rw [← hsplit, Option.mem_def, Option.mem_def.mp hi] at hsame
        obtain rfl := Option.some.inj hsame
        exact hno (hfirst item hi')
      rw [run_itemStep_unknown env _ _ hunknown] at heq
      exact ⟨n, status, hstatus, heq⟩
  · rcases h with ⟨-, hnone⟩ | ⟨hdel, ⟨t, ht⟩, -⟩
    · rw [withoutOldSet, hnone] at heq
      exact ⟨_, status, hstatus, heq⟩
    · refine absurd ?_ hset
      rw [SetAccepted, ht, hdel]
      exact nofun

/-- A refused request that leaves the trees as they were is refused in time. -/
theorem refusedUnchanged_of_unchanged {env : Env} {backupData : RealtimeBackupData}
    {bDelExistSet : Bool} {d : Driver} (hw : d.WF) (hlen : backupData.filterItems.length < 2 ^ 32)
    (hrefused : ¬ (SetAccepted env backupData.guidSetId bDelExistSet d ∧
      ItemsAccepted env backupData bDelExistSet d))
    (h : (configAddMonitorSet env backupData bDelExistSet d).1.monitorSet = d.monitorSet ∧
      (configAddMonitorSet env backupData bDelExistSet d).1.monitorFiles = d.monitorFiles) :
    RefusedUnchanged env backupData bDelExistSet d := by
  rcases configAddMonitorSet_cases env backupData bDelExistSet hw with ⟨hset, hitems, -⟩ |
    ⟨hset, -, pmse, hpmse, done, item, rest, hsplit, hdone, hno, n, status, -, heq⟩ |
    ⟨hset, status, -, heq⟩
  · exact absurd ⟨hset, hitems⟩ hrefused
  · -- the item that is refused is the first one
    have hdonelen : done.length < 2 ^ 32 := by
      rw [hsplit, List.length_append] at hlen
      omega
    rw [heq] at h
    obtain ⟨hdel, ⟨t, ht⟩, hknown⟩ := (run_afterSet_unchanged_iff hw hset hpmse hdonelen).mp h
    rw [run_itemStep_unknown env _ _ hknown, afterSet_of_stays env hdel ht] at hno
    have hk : item.known := Decidable.byContradiction fun hk => hno fun hk' => absurd hk' hk
    refine .inr ⟨hdel, ⟨t, ht⟩, item, ?_, fun hok => hno fun _ => hok⟩
    rw [hsplit, firstKnown_append_of_unknown hknown hk]
    rfl
  · refine .inl ⟨hset, ?_⟩
    rw [heq] at h
    rcases withoutOldSet_cases env backupData.guidSetId d with ⟨⟨t, ht⟩, hold⟩ | ⟨hnone, -⟩
    · -- the set that was there is gone
      obtain ⟨hmem, hg⟩ := getMonitorSetEntry_sound ht
      have hgone := sets_delMonitorSet hw env backupData.guidSetId
      rw [← hold, Driver.sets, h.1] at hgone
      rw [Driver.sets, hgone, List.mem_filter, hg] at hmem
      simp at hmem
    · exact hnone

/-- A request that leaves the trees as they were, or succeeds, is harmless. -/
theorem refusalHarmless_of_unchanged {env : Env} {backupData : RealtimeBackupData}
    {bDelExistSet : Bool} {d : Driver} (hw : d.WF) (hlen : backupData.filterItems.length < 2 ^ 32)
    (h : (configAddMonitorSet env backupData bDelExistSet d).2 ≠ 0 →
      (configAddMonitorSet env backupData bDelExistSet d).1.monitorSet = d.monitorSet ∧
        (configAddMonitorSet env backupData bDelExistSet d).1.monitorFiles = d.monitorFiles) :
    RefusalHarmless env backupData bDelExistSet d := by
  by_cases hret : (configAddMonitorSet env backupData bDelExistSet d).2 = 0
  · exact .inr (.inr ((request_answer_iff env backupData bDelExistSet hw).mp hret))
  specialize h hret
  by_cases hgone : SetAccepted env backupData.guidSetId bDelExistSet d ∧
      ItemsAccepted env backupData bDelExistSet d
  · -- all items are accepted, so there are none
    rcases configAddMonitorSet_cases env backupData bDelExistSet hw with
      ⟨hset, -, pmse, hpmse, heq⟩ | ⟨-, hitems, -⟩ | ⟨hset, -⟩
    · rw [heq] at h
      obtain ⟨hdel, hget, hknown⟩ := (run_afterSet_unchanged_iff hw hset hpmse hlen).mp h
      refine .inr (.inl ⟨hdel, hget, ?_⟩)
      rw [firstKnown_eq_none_iff.mpr hknown]
      exact nofun
    · exact absurd hgone.2 hitems
    · exact absurd hgone.1 hset
  · rcases refusedUnchanged_of_unchanged hw hlen hgone h with hset | ⟨hdel, hget, item, hi, hno⟩
    · exact .inl hset
    · refine .inr (.inl ⟨hdel, hget, ?_⟩)
      rw [Option.mem_def.mp hi]
      rintro item' ⟨⟩
      exact hno

/-- A harmless request that does not succeed leaves the trees as they were. -/
theorem unchanged_of_refusalHarmless {env : Env} {backupData : RealtimeBackupData}
    {bDelExistSet : Bool} {d : Driver} (hw : d.WF) (hlen : backupData.filterItems.length < 2 ^ 32)
    (h : RefusalHarmless env backupData bDelExistSet d)
    (hret : (configAddMonitorSet env backupData bDelExistSet d).2 ≠ 0) :
    (configAddMonitorSet env backupData bDelExistSet d).1.monitorSet = d.monitorSet ∧
      (configAddMonitorSet env backupData bDelExistSet d).1.monitorFiles = d.monitorFiles := by
  rcases h with hset | ⟨hdel, ⟨t, ht⟩, hno⟩ | hacc
  · obtain ⟨n, status, -, heq⟩ := RefusedUnchanged.answer hw (.inl hset)
    rw [heq]
    exact ⟨rfl, rfl⟩
  · cases hfirst : firstKnown backupData.filterItems with
    | some item =>
      obtain ⟨n, status, -, heq⟩ :=
        RefusedUnchanged.answer hw (.inr ⟨hdel, ⟨t, ht⟩, item, hfirst, hno item hfirst⟩)
      rw [heq]
      exact ⟨rfl, rfl⟩
    | none =>
      have hunknown := firstKnown_eq_none_iff.mp hfirst
      rcases configAddMonitorSet_cases env backupData bDelExistSet hw with
        ⟨hset, -, pmse, hpmse, heq⟩ | ⟨-, -, pmse, -, done, item, rest, hsplit, -, hno', -⟩ |
        ⟨hset, -⟩
      · rw [heq]
        exact (run_afterSet_unchanged_iff hw hset hpmse hlen).mpr ⟨hdel, ⟨t, ht⟩, hunknown⟩
      · refine absurd (fun hk => ?_) hno'
        exact absurd hk (hunknown item (hsplit ▸ List.mem_append_right _ List.mem_cons_self))
      · refine absurd ?_ hset
        rw [SetAccepted, ht, hdel]
        exact nofun
  · exact absurd ((request_answer_iff env backupData bDelExistSet hw).mpr hacc) hret

/-- In every state that commands, hooks, the writer thread and restarts can
reach, whatever allocations fail, and for every request with any items: a status
other than 0 means that both trees, their counters and all numbers in them are
what they were, exactly if the request is refused before it changed anything or
succeeds. -/
theorem refused_request_harmless_iff (env : Env) (cnf : Bytes) (nalloc : Nat)
    (events : List Event) :
    ∀ s ∈ states (sysStep env) (Sys.start env cnf nalloc) events,
      ∀ (backupData : RealtimeBackupData) (bDelExistSet : Bool),
        -- `ulFilterItemCounts` has 32 bits
        backupData.filterItems.length < 2 ^ 32 →
        (((configAddMonitorSet env backupData bDelExistSet s.driver).2 ≠ 0 →
          (configAddMonitorSet env backupData bDelExistSet s.driver).1.monitorSet =
              s.driver.monitorSet ∧
            (configAddMonitorSet env backupData bDelExistSet s.driver).1.monitorFiles =
              s.driver.monitorFiles) ↔
          RefusalHarmless env backupData bDelExistSet s.driver) := by
  intro s hs backupData bDelExistSet hlen
  have hw : s.driver.WF :=
    (invariant (fun s ev => sysStep_sound env s ev) (start_sound env cnf nalloc) events s hs).wf
  exact ⟨refusalHarmless_of_unchanged hw hlen, unchanged_of_refusalHarmless hw hlen⟩

/-! ## Concrete requests -/

/-- The path `c`, which is not absolute. -/
def relativeName : FieldPath := ⟨⟨[99], by decide⟩, by decide⟩

/-- A request for the set of `oneItemRequest` with an item that is refused. -/
def relativeRequest : RealtimeBackupData :=
  { oneItemRequest with filterItems := [⟨filterTypeFile, relativeName⟩] }

/-- The system after `ADDSET` with one item. -/
def oneItemSystem : Sys :=
  run (sysStep quietKernel) (Sys.start quietKernel [] 0) [.command (.addSet oneItemRequest)]

theorem refused_request_harmless_iff_added_item :
    (((configAddMonitorSet quietKernel relativeRequest false oneItemSystem.driver).2 ≠ 0 →
      (configAddMonitorSet quietKernel relativeRequest false oneItemSystem.driver).1.monitorSet =
          oneItemSystem.driver.monitorSet ∧
        (configAddMonitorSet quietKernel relativeRequest false oneItemSystem.driver).1.monitorFiles =
          oneItemSystem.driver.monitorFiles) ↔
      RefusalHarmless quietKernel relativeRequest false oneItemSystem.driver) :=
  refused_request_harmless_iff quietKernel [] 0 _ _ (run_mem_states _ _) relativeRequest false
    (by decide)

/-- `ADDSET` of a set with `/a` for which the only item is `c`: the answer is -1,
and the item `/a` is gone. -/
theorem refused_request_deletes_items :
    (configAddMonitorSet quietKernel relativeRequest true oneItemSystem.driver).2 ≠ 0 ∧
      oneItemSystem.driver.files ≠ [] ∧
      (configAddMonitorSet quietKernel relativeRequest true oneItemSystem.driver).1.files = [] := by
  decide +kernel

end RtBackup
