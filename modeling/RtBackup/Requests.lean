import RtBackup.Threads

/-!
# What a configuration request does (`ConfigAddMonitorSet`)

A request is applied in stages: the old set goes, the new set comes, the items
follow one by one. Each stage can refuse.

Results:
1. `addMonitorSet_cases`: what becomes of the set.
2. `addFilterItems_of_accepted`, `addFilterItems_of_refused`: the loop goes
   through all items, or stops at the first one that is refused.
3. `configAddMonitorSet_cases`: the three ways in which a request ends.
-/

namespace RtBackup

open ByteFile SearchTree Runs

/-! ## Definitions -/

/-- The loop gets past the item. -/
def ItemAccepted (env : Env) (d : Driver) (item : FilterItem) : Prop :=
  item.known → Admissible env d item.wszFilterName

instance (env : Env) (d : Driver) (item : FilterItem) : Decidable (ItemAccepted env d item) :=
  inferInstanceAs (Decidable (_ → _))

/-- One round of the loop, for a set at the address `pmse`. -/
def itemStep (env : Env) (guidSet : GUID) (pmse : Nat) (d : Driver) (item : FilterItem) : Driver :=
  if item.known then
    (addMonitorItem env (requestedItem guidSet item) d).1.updSet pmse fun s =>
      { s with ulFileCount := s.ulFileCount + 1 }
  else d

/-- The status after a loop that went through, `status` being the one before. -/
def loopStatus (env : Env) (items : List FilterItem) (status : Int) : Int :=
  match items.getLast? with
  | none => status
  | some item => if item.known then 0 else env.mfeAddress

/-- The set of the request can be had: it is there and stays, or a new one can
be made. -/
def SetAccepted (env : Env) (guidSet : GUID) (bDelExistSet : Bool) (d : Driver) : Prop :=
  match getMonitorSetEntry d guidSet with
  | some _ => bDelExistSet = true → env.allocOk d.nalloc = true
  | none => env.allocOk d.nalloc = true ∧ msSearch d.monitorSet.rbTree guidSet = none

instance (env : Env) (guidSet : GUID) (bDelExistSet : Bool) (d : Driver) :
    Decidable (SetAccepted env guidSet bDelExistSet d) := by
  unfold SetAccepted
  split <;> infer_instance

/-- The set that `ConfigAddMonitorSet` asks `AddMonitorSet` for. -/
def RealtimeBackupData.requestedSet (backupData : RealtimeBackupData) : SetRecord where
  guidSetId := backupData.guidSetId
  wcsSetCacheDir := backupData.wszBakCacheDir
  ullSetSeqNo := 0
  ulFileCount := 0

/-- The driver when the loop starts. -/
def afterSet (env : Env) (backupData : RealtimeBackupData) (bDelExistSet : Bool) (d : Driver) :
    Driver :=
  (addMonitorSet env backupData.requestedSet bDelExistSet d).1

/-- No item of the request is refused when its turn comes. -/
def ItemsAccepted (env : Env) (backupData : RealtimeBackupData) (bDelExistSet : Bool)
    (d : Driver) : Prop :=
  ∀ pmse ∈ msSearch (afterSet env backupData bDelExistSet d).monitorSet.rbTree backupData.guidSetId,
    Along (itemStep env backupData.guidSetId pmse.addr) (ItemAccepted env)
      (afterSet env backupData bDelExistSet d) backupData.filterItems

/-- The status of a request that goes through is 0: its last item has a known
type, or it has no items and its set was made. -/
def StatusZero (env : Env) (backupData : RealtimeBackupData) (bDelExistSet : Bool)
    (d : Driver) : Prop :=
  match backupData.filterItems.getLast? with
  | none => bDelExistSet = true ∨ getMonitorSetEntry d backupData.guidSetId = none
  | some item => item.known ∨ env.mfeAddress = 0

/-- The request is answered with 0. -/
def RequestAccepted (env : Env) (backupData : RealtimeBackupData) (bDelExistSet : Bool)
    (d : Driver) : Prop :=
  SetAccepted env backupData.guidSetId bDelExistSet d ∧
    ItemsAccepted env backupData bDelExistSet d ∧ StatusZero env backupData bDelExistSet d

/-! ## The set -/

/-- The driver without the set that `AddMonitorSet` replaces. -/
def withoutOldSet (env : Env) (guidSet : GUID) (d : Driver) : Driver :=
  match getMonitorSetEntry d guidSet with
  | some _ => delMonitorSet env guidSet d
  | none => d

theorem withoutOldSet_cases (env : Env) (guid : GUID) (d : Driver) :
    ((∃ s, getMonitorSetEntry d guid = some s) ∧
      withoutOldSet env guid d = delMonitorSet env guid d) ∨
    (getMonitorSetEntry d guid = none ∧ withoutOldSet env guid d = d) := by
  unfold withoutOldSet
  split
  · next s hs => exact .inl ⟨⟨s, hs⟩, rfl⟩
  · next hs => exact .inr ⟨hs, rfl⟩

theorem withoutOldSet_wf {d : Driver} (hw : d.WF) (env : Env) (guid : GUID) :
    (withoutOldSet env guid d).WF := by
  rcases withoutOldSet_cases env guid d with ⟨-, h⟩ | ⟨-, h⟩
  · rw [h]
    exact delMonitorSet_wf hw env guid
  · rw [h]
    exact hw

theorem msSearch_delMonitorSet {d : Driver} (hw : d.WF) (env : Env) (guid : GUID) :
    msSearch (delMonitorSet env guid d).monitorSet.rbTree guid = none := by
  refine (msSearch_eq_none_iff (delMonitorSet_wf hw env guid).sets_sorted).mpr fun s hs => ?_
  have hmem : s ∈ d.sets.filter fun s => s.guidSetId ≠ guid := sets_delMonitorSet hw env guid ▸ hs
  exact of_decide_eq_true (List.mem_filter.mp hmem).2

/-- `AddMonitorSet` keeps the set, makes a new one in place of the old one, or
refuses. -/
theorem addMonitorSet_cases (env : Env) (pSet : SetRecord) (bDelExist : Bool) {d : Driver}
    (hw : d.WF) :
    (SetAccepted env pSet.guidSetId bDelExist d ∧ bDelExist = false ∧
      (∃ s, getMonitorSetEntry d pSet.guidSetId = some s) ∧
      addMonitorSet env pSet bDelExist d = (d, -2)) ∨
    (SetAccepted env pSet.guidSetId bDelExist d ∧
      (bDelExist = true ∨ getMonitorSetEntry d pSet.guidSetId = none) ∧
      msSearch (withoutOldSet env pSet.guidSetId d).monitorSet.rbTree pSet.guidSetId = none ∧
      ∃ root, msInsert env.rb (withoutOldSet env pSet.guidSetId d).monitorSet.rbTree
          (newSetEntry pSet d.nalloc) = (root, 0) ∧
        addMonitorSet env pSet bDelExist d =
          ({ withoutOldSet env pSet.guidSetId d with
            monitorSet := ⟨(withoutOldSet env pSet.guidSetId d).monitorSet.ulCounts + 1, root⟩
            nalloc := d.nalloc + 1 }, 0)) ∨
    (¬ SetAccepted env pSet.guidSetId bDelExist d ∧ ∃ status, status < 0 ∧ status ≠ -2 ∧
      addMonitorSet env pSet bDelExist d =
        ({ withoutOldSet env pSet.guidSetId d with nalloc := d.nalloc + 1 }, status)) := by
  unfold addMonitorSet SetAccepted withoutOldSet
  cases hget : getMonitorSetEntry d pSet.guidSetId with
  | some s =>
    cases bDelExist with
    | false => exact .inl ⟨nofun, rfl, ⟨s, rfl⟩, rfl⟩
    | true =>
      have hnone := msSearch_delMonitorSet hw env pSet.guidSetId
      rcases newMonitorSet_cases env pSet (delMonitorSet env pSet.guidSetId d) with
        ⟨halloc, -, root, hroot, h⟩ | ⟨hno, status, h0, h2, h⟩
      · exact .inr (.inl ⟨fun _ => halloc, .inl rfl, hnone, root, hroot, h⟩)
      · exact .inr (.inr ⟨fun hok => hno ⟨hok rfl, hnone⟩, status, h0, h2, h⟩)
  | none =>
    rcases newMonitorSet_cases env pSet d with
      ⟨halloc, hnone, root, hroot, h⟩ | ⟨hno, status, h0, h2, h⟩
    · exact .inr (.inl ⟨⟨halloc, hnone⟩, .inr rfl, hnone, root, hroot, h⟩)
    · exact .inr (.inr ⟨hno, status, h0, h2, h⟩)

theorem afterSet_wf {d : Driver} (hw : d.WF) (env : Env) (backupData : RealtimeBackupData)
    (bDelExistSet : Bool) : (afterSet env backupData bDelExistSet d).WF :=
  (addMonitorSet_changes env backupData.requestedSet bDelExistSet d).wf hw

/-- The set of an accepted request: the one that was there, or a new one. -/
theorem afterSet_entry {env : Env} {backupData : RealtimeBackupData} {bDelExistSet : Bool}
    {d : Driver} (hw : d.WF) (h : SetAccepted env backupData.guidSetId bDelExistSet d) :
    ∃ pmse,
      msSearch (afterSet env backupData bDelExistSet d).monitorSet.rbTree backupData.guidSetId =
        some pmse ∧
      ((bDelExistSet = false ∧ getMonitorSetEntry d backupData.guidSetId = some pmse ∧
          addMonitorSet env backupData.requestedSet bDelExistSet d = (d, -2)) ∨
        ((bDelExistSet = true ∨ getMonitorSetEntry d backupData.guidSetId = none) ∧
          pmse = newSetEntry backupData.requestedSet d.nalloc ∧
          (addMonitorSet env backupData.requestedSet bDelExistSet d).2 = 0 ∧
          (afterSet env backupData bDelExistSet d).monitorFiles =
            (withoutOldSet env backupData.guidSetId d).monitorFiles)) := by
  have hwafter := afterSet_wf hw env backupData bDelExistSet
  rcases addMonitorSet_cases env backupData.requestedSet bDelExistSet hw with
    ⟨-, hdel, ⟨s, hs⟩, hadd⟩ | ⟨-, hnew, -, root, hroot, hadd⟩ | ⟨hno, -⟩
  · obtain ⟨hmem, hg⟩ := getMonitorSetEntry_sound hs
    refine ⟨s, ?_, .inl ⟨hdel, hs, hadd⟩⟩
    rw [afterSet, hadd]
    exact (msSearch_eq_some_iff hw.sets_sorted).mpr ⟨hmem, hg⟩
  · refine ⟨_, ?_, .inr ⟨hnew, rfl, by rw [hadd], by rw [afterSet, hadd]; rfl⟩⟩
    refine (msSearch_eq_some_iff hwafter.sets_sorted).mpr ⟨?_, rfl⟩
    rw [afterSet, hadd]
    exact (msInsert_added (withoutOldSet_wf hw env backupData.guidSetId).sets_sorted
      hroot).2.mem_iff.mpr List.mem_cons_self
  · exact absurd h hno

/-! ## The loop -/

theorem loopStatus_cons (env : Env) (item : FilterItem) (items : List FilterItem) (status : Int) :
    loopStatus env (item :: items) status =
      loopStatus env items (if item.known then 0 else env.mfeAddress) := by
  unfold loopStatus
  rw [List.getLast?_cons]
  cases items.getLast? with
  | none => rfl
  | some last => rfl

/-- A round with an item that is accepted. -/
theorem addFilterItems_cons (env : Env) (guid : GUID) (pmse : Nat) (items : List FilterItem)
    (status : Int) {d : Driver} {item : FilterItem} (h : ItemAccepted env d item) :
    addFilterItems env guid pmse (item :: items) status d =
      addFilterItems env guid pmse items (if item.known then 0 else env.mfeAddress)
        (itemStep env guid pmse d item) := by
  rw [addFilterItems, itemStep]
  by_cases hk : item.known
  · rw [if_pos hk, if_pos hk, if_pos hk]
    rcases addMonitorItem_cases env (requestedItem guid item) d with
      ⟨-, -, hadd⟩ | ⟨-, -, root, -, hadd⟩ | ⟨hno, -⟩
    · rw [hadd]
      rfl
    · rw [hadd]
      rfl
    · exact absurd (h hk) hno
  · rw [if_neg hk, if_neg hk, if_neg hk]

theorem addFilterItems_of_accepted (env : Env) (guid : GUID) (pmse : Nat) {items : List FilterItem}
    (status : Int) {d : Driver} (h : Along (itemStep env guid pmse) (ItemAccepted env) d items) :
    addFilterItems env guid pmse items status d =
      (run (itemStep env guid pmse) d items, loopStatus env items status, true) := by
  induction items generalizing status d with
  | nil => rfl
  | cons item items ih =>
    rw [addFilterItems_cons env guid pmse items status h.1, loopStatus_cons]
    exact ih _ h.2

/-- The loop stops at an item that is refused, and keeps what it did before. -/
theorem addFilterItems_of_refused (env : Env) (guid : GUID) (pmse : Nat) {items : List FilterItem}
    (status : Int) {d : Driver} (h : ¬ Along (itemStep env guid pmse) (ItemAccepted env) d items) :
    ∃ done item rest, items = done ++ item :: rest ∧
      Along (itemStep env guid pmse) (ItemAccepted env) d done ∧
      ¬ ItemAccepted env (run (itemStep env guid pmse) d done) item ∧
      ∃ n status', (run (itemStep env guid pmse) d done).nalloc ≤ n ∧ status' < 0 ∧
        addFilterItems env guid pmse items status d =
          ({ run (itemStep env guid pmse) d done with nalloc := n }, status', false) := by
  induction items generalizing status d with
  | nil => exact absurd trivial h
  | cons item items ih =>
    by_cases hitem : ItemAccepted env d item
    · rw [addFilterItems_cons env guid pmse items status hitem]
      obtain ⟨done, item', rest, hsplit, hdone, hno, hend⟩ := ih _ fun hrest => h ⟨hitem, hrest⟩
      exact ⟨item :: done, item', rest, congrArg (item :: ·) hsplit, ⟨hitem, hdone⟩, hno, hend⟩
    · have hk : item.known := Decidable.byContradiction fun hk => hitem fun hk' => absurd hk' hk
      have hno : ¬ Admissible env d item.wszFilterName := fun hok => hitem fun _ => hok
      rcases addMonitorItem_cases env (requestedItem guid item) d with
        ⟨hok, -⟩ | ⟨hok, -⟩ | ⟨-, n, status', hn, hstatus, hadd⟩
      · exact absurd hok hno
      · exact absurd hok hno
      · refine ⟨[], item, items, rfl, trivial, hitem, n, status', hn, hstatus, ?_⟩
        rw [addFilterItems, if_pos hk, hadd]
        exact if_pos hstatus.ne

/-! ## The request -/

theorem itemsAccepted_iff {env : Env} {backupData : RealtimeBackupData} {bDelExistSet : Bool}
    {d : Driver} {pmse : MonitorSetEntry}
    (hpmse : msSearch (afterSet env backupData bDelExistSet d).monitorSet.rbTree
      backupData.guidSetId = some pmse) :
    ItemsAccepted env backupData bDelExistSet d ↔
      Along (itemStep env backupData.guidSetId pmse.addr) (ItemAccepted env)
        (afterSet env backupData bDelExistSet d) backupData.filterItems := by
  simp [ItemsAccepted, hpmse]

/-- With an accepted set, `ConfigAddMonitorSet` gets past the test of the status. -/
theorem setAccepted_goes_on {env : Env} {backupData : RealtimeBackupData} {bDelExistSet : Bool}
    {d : Driver} (hw : d.WF) (hset : SetAccepted env backupData.guidSetId bDelExistSet d) :
    ¬ ((addMonitorSet env backupData.requestedSet bDelExistSet d).2 ≠ 0 ∧
      ¬ ((addMonitorSet env backupData.requestedSet bDelExistSet d).2 = -2 ∧
        bDelExistSet = false)) := by
  obtain ⟨-, -, ⟨hdel, -, hadd⟩ | ⟨-, -, h0, -⟩⟩ := afterSet_entry hw hset
  · exact fun hret => hret.2 ⟨by rw [hadd], hdel⟩
  · exact fun hret => hret.1 h0

/-- With an accepted set, the request is its loop. -/
theorem configAddMonitorSet_loop {env : Env} {backupData : RealtimeBackupData}
    {bDelExistSet : Bool} {d : Driver} (hw : d.WF)
    (hset : SetAccepted env backupData.guidSetId bDelExistSet d) {pmse : MonitorSetEntry}
    (hpmse : msSearch (afterSet env backupData bDelExistSet d).monitorSet.rbTree
      backupData.guidSetId = some pmse) :
    configAddMonitorSet env backupData bDelExistSet d =
      match addFilterItems env backupData.guidSetId pmse.addr backupData.filterItems
        (addMonitorSet env backupData.requestedSet bDelExistSet d).2
        (afterSet env backupData bDelExistSet d) with
      | (d, status, false) => (d, status)
      | (d, status, true) => (saveConfig d, status) := by
  have hgo := setAccepted_goes_on hw hset
  unfold configAddMonitorSet
  simp only [afterSet, RealtimeBackupData.requestedSet] at hpmse hgo ⊢
  rewrite [if_neg hgo, hpmse]
  rfl

/-- A request whose set is refused does nothing but delete the set that it was
to replace. -/
theorem configAddMonitorSet_no_set {env : Env} {backupData : RealtimeBackupData}
    {bDelExistSet : Bool} {d : Driver} (hw : d.WF)
    (hset : ¬ SetAccepted env backupData.guidSetId bDelExistSet d) :
    ∃ status, status < 0 ∧ status ≠ -2 ∧
      addMonitorSet env backupData.requestedSet bDelExistSet d =
        ({ withoutOldSet env backupData.guidSetId d with nalloc := d.nalloc + 1 }, status) ∧
      configAddMonitorSet env backupData bDelExistSet d =
        addMonitorSet env backupData.requestedSet bDelExistSet d := by
  rcases addMonitorSet_cases env backupData.requestedSet bDelExistSet hw with
    ⟨hok, -⟩ | ⟨hok, -⟩ | ⟨-, status, h0, h2, hadd⟩
  · exact absurd hok hset
  · exact absurd hok hset
  · refine ⟨status, h0, h2, hadd, ?_⟩
    unfold configAddMonitorSet
    simp only [RealtimeBackupData.requestedSet] at hadd ⊢
    simp only [hadd]
    rw [if_pos ⟨h0.ne, fun h => h2 h.1⟩]

/-- What the driver holds and answers after a request, in three cases: it goes
through and is saved, it stops in the loop, or it is refused because of its
set. -/
theorem configAddMonitorSet_cases (env : Env) (backupData : RealtimeBackupData)
    (bDelExistSet : Bool) {d : Driver} (hw : d.WF) :
    (SetAccepted env backupData.guidSetId bDelExistSet d ∧
      ItemsAccepted env backupData bDelExistSet d ∧ ∃ pmse,
      msSearch (afterSet env backupData bDelExistSet d).monitorSet.rbTree backupData.guidSetId =
        some pmse ∧
      configAddMonitorSet env backupData bDelExistSet d =
        (saveConfig (run (itemStep env backupData.guidSetId pmse.addr)
            (afterSet env backupData bDelExistSet d) backupData.filterItems),
          loopStatus env backupData.filterItems
            (addMonitorSet env backupData.requestedSet bDelExistSet d).2)) ∨
    (SetAccepted env backupData.guidSetId bDelExistSet d ∧
      ¬ ItemsAccepted env backupData bDelExistSet d ∧ ∃ pmse,
      msSearch (afterSet env backupData bDelExistSet d).monitorSet.rbTree backupData.guidSetId =
        some pmse ∧
      ∃ done item rest, backupData.filterItems = done ++ item :: rest ∧
        Along (itemStep env backupData.guidSetId pmse.addr) (ItemAccepted env)
          (afterSet env backupData bDelExistSet d) done ∧
        ¬ ItemAccepted env (run (itemStep env backupData.guidSetId pmse.addr)
          (afterSet env backupData bDelExistSet d) done) item ∧
        ∃ n status, status < 0 ∧ configAddMonitorSet env backupData bDelExistSet d =
          ({ run (itemStep env backupData.guidSetId pmse.addr)
              (afterSet env backupData bDelExistSet d) done with nalloc := n }, status)) ∨
    (¬ SetAccepted env backupData.guidSetId bDelExistSet d ∧ ∃ status, status < 0 ∧
      configAddMonitorSet env backupData bDelExistSet d =
        ({ withoutOldSet env backupData.guidSetId d with nalloc := d.nalloc + 1 }, status)) := by
  by_cases hset : SetAccepted env backupData.guidSetId bDelExistSet d
  · obtain ⟨pmse, hpmse, -⟩ := afterSet_entry hw hset
    have hitems := itemsAccepted_iff hpmse
    have heq := configAddMonitorSet_loop hw hset hpmse
    by_cases hok : ItemsAccepted env backupData bDelExistSet d
    · refine .inl ⟨hset, hok, pmse, hpmse, ?_⟩
      rw [heq, addFilterItems_of_accepted env _ _ _ (hitems.mp hok)]
    · obtain ⟨done, item, rest, hsplit, hdone, hno, n, status, -, hstatus, hadd⟩ :=
        addFilterItems_of_refused env _ _
          (addMonitorSet env backupData.requestedSet bDelExistSet d).2
          (fun halong => hok (hitems.mpr halong))
      refine .inr (.inl ⟨hset, hok, pmse, hpmse, done, item, rest, hsplit, hdone, hno, n, status,
        hstatus, ?_⟩)
      rw [heq, hadd]
  · obtain ⟨status, hstatus, -, hadd, heq⟩ := configAddMonitorSet_no_set hw hset
    exact .inr (.inr ⟨hset, status, hstatus, heq.trans hadd⟩)

theorem loopStatus_eq_zero_iff {env : Env} {backupData : RealtimeBackupData} {bDelExistSet : Bool}
    {d : Driver} (hw : d.WF) (hset : SetAccepted env backupData.guidSetId bDelExistSet d) :
    loopStatus env backupData.filterItems
        (addMonitorSet env backupData.requestedSet bDelExistSet d).2 = 0 ↔
      StatusZero env backupData bDelExistSet d := by
  unfold loopStatus StatusZero
  cases backupData.filterItems.getLast? with
  | none =>
    obtain ⟨pmse, -, ⟨hdel, hget, hadd⟩ | ⟨hnew, -, h0, -⟩⟩ := afterSet_entry hw hset
    · rw [hadd, hdel, hget]
      simp
    · exact iff_of_true h0 hnew
  | some item =>
    by_cases hk : item.known <;> simp [hk]

theorem request_answer_iff (env : Env) (backupData : RealtimeBackupData) (bDelExistSet : Bool)
    {d : Driver} (hw : d.WF) :
    (configAddMonitorSet env backupData bDelExistSet d).2 = 0 ↔
      RequestAccepted env backupData bDelExistSet d := by
  rcases configAddMonitorSet_cases env backupData bDelExistSet hw with
    ⟨hset, hitems, pmse, -, heq⟩ | ⟨-, hitems, pmse, -, done, item, rest, -, -, -, n, status, hstatus, heq⟩ |
    ⟨hset, status, hstatus, heq⟩
  · rw [heq]
    exact (loopStatus_eq_zero_iff hw hset).trans ⟨fun h => ⟨hset, hitems, h⟩, fun h => h.2.2⟩
  · rw [heq]
    exact iff_of_false hstatus.ne fun h => hitems h.2.1
  · rw [heq]
    exact iff_of_false hstatus.ne fun h => hset h.1

end RtBackup
