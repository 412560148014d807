import RtBackup.Refusals
import RtBackup.Lib.InPlace
import RtBackup.Lib.PrefixSearch

/-!
# Successful requests

A request that succeeds should make its items monitored by its set. An item
whose name is covered already is taken for monitored, whatever set the covering
entry belongs to: the comparison of the GUIDs and the status for a collision are
commented out in `AddMonitorItem`, while its caller still treats that status. A
request that replaces its set deletes the old items by the loop that may leave some
of them behind.

Results:
1. `Settled.search`, `itemStep_settled`: a name whose last predecessor in the tree
   covers it is looked up whatever the shape of the tree, and stays so in the rounds
   of the loop.
2. `leavesNoOther_of_leftRequested`: what the deletion of the old set can leave.
3. `successful_request_takes_effect`: the requests that take effect, and where
   lookup is exact no others.
-/

namespace RtBackup

open ByteFile SearchTree PrefixOrder Runs

/-! ## Definitions -/

/-- The request asks for the name of the entry. -/
def Requested (backupData : RealtimeBackupData) (e : MonitorFileEntry) : Prop :=
  ∃ item ∈ backupData.filterItems, item.known ∧ item.wszFilterName = e.wcsMonitorFile

instance (backupData : RealtimeBackupData) (e : MonitorFileEntry) :
    Decidable (Requested backupData e) := by
  unfold Requested
  infer_instance

/-- The request is in force. -/
structure TookEffect (backupData : RealtimeBackupData) (bDelExistSet : Bool) (d : Driver) :
    Prop where
  set : ∃ s ∈ d.sets, s.guidSetId = backupData.guidSetId
  items : ∀ item ∈ backupData.filterItems, item.known →
    ∃ e, miSearch d.monitorFiles.rbTree item.wszFilterName.toCString = some e ∧
      e.guidSetId = backupData.guidSetId
  replaced : bDelExistSet = true →
    (∀ s ∈ d.sets, s.guidSetId = backupData.guidSetId →
      s.wcsSetCacheDir = backupData.wszBakCacheDir ∧ s.ullSetSeqNo = 0) ∧
    ∀ e ∈ d.files, e.guidSetId = backupData.guidSetId → Requested backupData e

/-- No entry of another set covers a name of the request. -/
def NoForeignCover (backupData : RealtimeBackupData) (d : Driver) : Prop :=
  ∀ item ∈ backupData.filterItems, item.known → ∀ e ∈ d.files,
    e.guidSetId ≠ backupData.guidSetId →
      ¬ e.wcsMonitorFile.bytes <+: item.wszFilterName.bytes

/-- The last entry that is not behind the name in byte order covers it. -/
def Settled (d : Driver) (name : FieldPath) : Prop :=
  ∃ e ∈ d.files, e.wcsMonitorFile.bytes <+: name.bytes ∧
    ∀ a ∈ d.files, a.wcsMonitorFile.bytes ≤ name.bytes →
      a.wcsMonitorFile.bytes ≤ e.wcsMonitorFile.bytes

/-- The item's name is settled if an entry covers it. -/
def ItemSettled (d : Driver) (item : FilterItem) : Prop :=
  item.known → (∃ e ∈ d.files, e.wcsMonitorFile.bytes <+: item.wszFilterName.bytes) →
    Settled d item.wszFilterName

instance (d : Driver) (item : FilterItem) : Decidable (ItemSettled d item) := by
  unfold ItemSettled Settled
  infer_instance

/-- It is so for every item of the request when its turn comes. -/
def ItemsSettled (env : Env) (backupData : RealtimeBackupData) (bDelExistSet : Bool)
    (d : Driver) : Prop :=
  ∀ pmse ∈ msSearch (afterSet env backupData bDelExistSet d).monitorSet.rbTree backupData.guidSetId,
    Along (itemStep env backupData.guidSetId pmse.addr) ItemSettled
      (afterSet env backupData bDelExistSet d) backupData.filterItems

/-- Of the items with the GUID of the set, the deletion of the old set leaves none
that is not requested again. -/
def LeavesNoOther (env : Env) (backupData : RealtimeBackupData) (d : Driver) : Prop :=
  ∀ e ∈ (withoutOldSet env backupData.guidSetId d).files,
    e.guidSetId = backupData.guidSetId → Requested backupData e

/-- Every item that can be left is requested again: any item with the GUID where there
is no set to delete, and otherwise those directly behind another one, with an item of
another set before both. -/
def LeftRequested (backupData : RealtimeBackupData) (d : Driver) : Prop :=
  ∀ e ∈ d.files, e.guidSetId = backupData.guidSetId →
    getMonitorSetEntry d backupData.guidSetId = none ∨
      ErasingWalk.Follows (fun a : MonitorFileEntry => decide (a.guidSetId = backupData.guidSetId))
        d.files e →
    Requested backupData e

/-- Nothing that is in the trees stands in the way of the request. -/
structure Unhindered (env : Env) (backupData : RealtimeBackupData) (bDelExistSet : Bool)
    (d : Driver) : Prop where
  covers : NoForeignCover backupData d
  settled : ItemsSettled env backupData bDelExistSet d
  replaced : bDelExistSet = true → LeavesNoOther env backupData d

/-- Lookup of the item's name is exact: no other name is nested in a name that
covers it, and where none covers it, no name is nested in it. -/
def ItemClear (d : Driver) (item : FilterItem) : Prop :=
  item.known →
    (∀ a ∈ d.files, a.wcsMonitorFile.bytes <+: item.wszFilterName.bytes → ∀ b ∈ d.files,
      a.wcsMonitorFile.bytes <+: b.wcsMonitorFile.bytes →
        a.wcsMonitorFile.bytes = b.wcsMonitorFile.bytes) ∧
    ((∀ a ∈ d.files, ¬ a.wcsMonitorFile.bytes <+: item.wszFilterName.bytes) →
      ∀ b ∈ d.files, ¬ item.wszFilterName.bytes <+: b.wcsMonitorFile.bytes)

/-- It is so for every item of the request when its turn comes. -/
def ItemsClear (env : Env) (backupData : RealtimeBackupData) (bDelExistSet : Bool)
    (d : Driver) : Prop :=
  ∀ pmse ∈ msSearch (afterSet env backupData bDelExistSet d).monitorSet.rbTree backupData.guidSetId,
    Along (itemStep env backupData.guidSetId pmse.addr) ItemClear
      (afterSet env backupData bDelExistSet d) backupData.filterItems

/-- One entry covers the name, and its own name is nested with no other. -/
structure Sole (d : Driver) (name : FieldPath) (e : MonitorFileEntry) : Prop where
  mem : e ∈ d.files
  covers : e.wcsMonitorFile.bytes <+: name.bytes
  only : ∀ a ∈ d.files, a.wcsMonitorFile.bytes <+: name.bytes → a = e
  outermost : ∀ b ∈ d.files, e.wcsMonitorFile.bytes <+: b.wcsMonitorFile.bytes → b = e

/-! ## Names that are found -/

theorem name_unique {d : Driver} (hw : d.WF) {a b : MonitorFileEntry} (ha : a ∈ d.files)
    (hb : b ∈ d.files) (h : a.wcsMonitorFile.bytes = b.wcsMonitorFile.bytes) : a = b := by
  have hnd : (d.files.map fun e => e.wcsMonitorFile.bytes).Nodup :=
    List.pairwise_map.mpr (hw.files_sorted.imp fun hlt he => hlt.ne he)
  exact List.inj_on_of_nodup_map hnd ha hb h

/-- Lookup of a settled name finds an entry. -/
theorem Settled.search {d : Driver} (hw : d.WF) {name : FieldPath} (h : Settled d name) :
    ∃ e, miSearch d.monitorFiles.rbTree name.toCString = some e := by
  obtain ⟨e, he, hcov, hlast⟩ := h
  exact RbTree.prefixSearch_of_last hw.files_sorted he hcov hlast

/-- A name with one cover is settled. -/
theorem Sole.settled {d : Driver} {name : FieldPath} {e : MonitorFileEntry} (h : Sole d name e) :
    Settled d name := by
  refine ⟨e, h.mem, h.covers, fun a ha hle => ?_⟩
  by_contra hlt
  have hea := le_of_lt (not_le.mp hlt)
  -- `a`, between the cover and the name, would be nested in the cover
  obtain rfl := h.outermost a ha (prefix_of_between h.covers hea hle)
  exact hlt (le_refl _)

/-- Lookup finds the one entry that covers a name. -/
theorem Sole.search {d : Driver} (hw : d.WF) {name : FieldPath} {e : MonitorFileEntry}
    (h : Sole d name e) : miSearch d.monitorFiles.rbTree name.toCString = some e := by
  obtain ⟨f, hf⟩ := h.settled.search hw
  obtain ⟨hfmem, hfcov⟩ := miSearch_sound hf
  exact h.only f hfmem hfcov ▸ hf

/-- A name that is covered and clear has one cover. -/
theorem Sole.of_clear {d : Driver} (hw : d.WF) {item : FilterItem} (hk : item.known)
    (hclear : ItemClear d item) {e : MonitorFileEntry} (he : e ∈ d.files)
    (hcov : e.wcsMonitorFile.bytes <+: item.wszFilterName.bytes) :
    Sole d item.wszFilterName e where
  mem := he
  covers := hcov
  only a ha hacov := by
    rcases List.prefix_or_prefix_of_prefix hacov hcov with hae | hea
    · exact name_unique hw ha he ((hclear hk).1 a ha hacov e he hae)
    · exact (name_unique hw he ha ((hclear hk).1 e he hcov a ha hea)).symm
  outermost b hb heb := (name_unique hw he hb ((hclear hk).1 e he hcov b hb heb)).symm

theorem ItemClear.settled {d : Driver} (hw : d.WF) {item : FilterItem} (h : ItemClear d item) :
    ItemSettled d item := by
  rintro hk ⟨e, he, hcov⟩
  exact (Sole.of_clear hw hk h he hcov).settled

/-! ## Rounds of the loop -/

/-- The items after a round: the same, or one more, for the name of the round. -/
theorem itemStep_files (env : Env) (guid : GUID) (pmse : Nat) {d : Driver} (hw : d.WF)
    {item : FilterItem} (hok : ItemAccepted env d item) :
    ((itemStep env guid pmse d item).files = d.files ∧
      (item.known → ∃ e ∈ d.files, e.wcsMonitorFile.bytes <+: item.wszFilterName.bytes)) ∨
    (item.known ∧ miSearch d.monitorFiles.rbTree item.wszFilterName.toCString = none ∧
      (itemStep env guid pmse d item).files.Perm
        (newFileEntry (requestedItem guid item) d.nalloc :: d.files)) := by
  by_cases hk : item.known
  · rw [itemStep, if_pos hk, files_updSet]
    rcases addMonitorItem_cases env (requestedItem guid item) d with
      ⟨-, ⟨e, he⟩, hadd⟩ | ⟨-, hnone, root, hroot, hadd⟩ | ⟨hno, -⟩
    · obtain ⟨hmem, hcov⟩ := miSearch_sound he
      rw [hadd]
      exact .inl ⟨rfl, fun _ => ⟨e, hmem, hcov⟩⟩
    · refine .inr ⟨hk, hnone, ?_⟩
      rw [hadd]
      exact (miInsert_added hw.files_sorted hroot).2
    · exact absurd (hok hk) hno
  · rw [itemStep, if_neg hk]
    exact .inl ⟨rfl, fun hk' => absurd hk' hk⟩

/-- A round adds a name only if nothing covers it. -/
theorem uncovered_of_added {d : Driver} (hw : d.WF) {item : FilterItem} (hk : item.known)
    (hsettled : ItemSettled d item)
    (hnone : miSearch d.monitorFiles.rbTree item.wszFilterName.toCString = none) :
    ∀ a ∈ d.files, ¬ a.wcsMonitorFile.bytes <+: item.wszFilterName.bytes := by
  intro a ha hacov
  obtain ⟨e, he⟩ := (hsettled hk ⟨a, ha, hacov⟩).search hw
  exact absurd (hnone.symm.trans he) nofun

/-- A name stays settled in a round, and the name of the round gets settled. -/
theorem itemStep_settled (env : Env) (guid : GUID) (pmse : Nat) {d : Driver} (hw : d.WF)
    {item : FilterItem} (hok : ItemAccepted env d item) (hsettled : ItemSettled d item) :
    (∀ name, Settled d name → Settled (itemStep env guid pmse d item) name) ∧
    (item.known → Settled (itemStep env guid pmse d item) item.wszFilterName) := by
  rcases itemStep_files env guid pmse hw hok with ⟨hfiles, hcov⟩ | ⟨hk, hnone, hperm⟩
  · have hkeep : ∀ name, Settled d name → Settled (itemStep env guid pmse d item) name := by
      rintro name ⟨e, he, hcov, hlast⟩
      exact ⟨e, hfiles ▸ he, hcov, hfiles ▸ hlast⟩
    exact ⟨hkeep, fun hk => hkeep _ (hsettled hk (hcov hk))⟩
  · have huncov := uncovered_of_added hw hk hsettled hnone
    have hmem : ∀ a, a ∈ (itemStep env guid pmse d item).files ↔
        a = newFileEntry (requestedItem guid item) d.nalloc ∨ a ∈ d.files := fun a =>
      hperm.mem_iff.trans List.mem_cons
    constructor
    · rintro name ⟨e, he, hcov, hlast⟩
      refine ⟨e, (hmem e).mpr (.inr he), hcov, fun a ha hle => ?_⟩
      rcases (hmem a).mp ha with rfl | hold
      · -- behind the cover, the new name would be covered too
        by_contra hlt
        exact huncov e he (prefix_of_between hcov (le_of_lt (not_le.mp hlt)) hle)
      · exact hlast a hold hle
    · intro _
      exact ⟨newFileEntry (requestedItem guid item) d.nalloc, (hmem _).mpr (.inl rfl),
        List.prefix_refl _, fun a _ hle => hle⟩

/-- A name keeps its one cover in a round, and the name of the round gets one. -/
theorem itemStep_sole (env : Env) (guid : GUID) (pmse : Nat) {d : Driver} (hw : d.WF)
    {item : FilterItem} (hok : ItemAccepted env d item) (hclear : ItemClear d item) :
    (∀ name e, Sole d name e → Sole (itemStep env guid pmse d item) name e) ∧
    (item.known → ∃ e, Sole (itemStep env guid pmse d item) item.wszFilterName e) := by
  rcases itemStep_files env guid pmse hw hok with ⟨hfiles, hcov⟩ | ⟨hk, hnone, hperm⟩
  · have hkeep : ∀ name e, Sole d name e → Sole (itemStep env guid pmse d item) name e := by
      intro name e h
      exact ⟨hfiles ▸ h.mem, h.covers, hfiles ▸ h.only, hfiles ▸ h.outermost⟩
    refine ⟨hkeep, fun hk => ?_⟩
    obtain ⟨e, he, hecov⟩ := hcov hk
    exact ⟨e, hkeep _ e (Sole.of_clear hw hk hclear he hecov)⟩
  · have huncov := uncovered_of_added hw hk (hclear.settled hw) hnone
    have hmem : ∀ a, a ∈ (itemStep env guid pmse d item).files ↔
        a = newFileEntry (requestedItem guid item) d.nalloc ∨ a ∈ d.files := fun a =>
      hperm.mem_iff.trans List.mem_cons
    refine ⟨fun name e h => ⟨(hmem e).mpr (.inr h.mem), h.covers, fun a ha hacov => ?_,
      fun b hb heb => ?_⟩, fun _ => ⟨newFileEntry (requestedItem guid item) d.nalloc,
        (hmem _).mpr (.inl rfl), List.prefix_refl _, fun a ha hacov => ?_, fun b hb hab => ?_⟩⟩
    · rcases (hmem a).mp ha with rfl | hold
      · -- the new name would be nested with the cover
        rcases List.prefix_or_prefix_of_prefix hacov h.covers with hae | hea
        · exact absurd hae ((hclear hk).2 huncov e h.mem)
        · exact absurd hea (huncov e h.mem)
      · exact h.only a hold hacov
    · rcases (hmem b).mp hb with rfl | hold
      · exact absurd heb (huncov e h.mem)
      · exact h.outermost b hold heb
    · rcases (hmem a).mp ha with h | hold
      · exact h
      · exact absurd hacov (huncov a hold)
    · rcases (hmem b).mp hb with h | hold
      · exact h
      · exact absurd hab ((hclear hk).2 huncov b hold)

/-! ## The loop -/

/-- What the loop leaves: the entries that were there, and others of the names of the
request. -/
structure LoopAdds (guid : GUID) (items : List FilterItem) (d d' : Driver) : Prop where
  grows : ∀ e ∈ d.files, e ∈ d'.files
  foreign : ∀ e ∈ d'.files, e.guidSetId ≠ guid → e ∈ d.files
  added : ∀ e ∈ d'.files,
    e ∈ d.files ∨ ∃ item ∈ items, item.known ∧ item.wszFilterName = e.wcsMonitorFile

theorem itemStep_adds (env : Env) (guid : GUID) (pmse : Nat) {d : Driver} (hw : d.WF)
    {item : FilterItem} (hok : ItemAccepted env d item) :
    LoopAdds guid [item] d (itemStep env guid pmse d item) := by
  rcases itemStep_files env guid pmse hw hok with ⟨hfiles, -⟩ | ⟨hk, -, hperm⟩
  · exact ⟨fun e he => hfiles ▸ he, fun e he _ => hfiles ▸ he, fun e he => .inl (hfiles ▸ he)⟩
  · have hmem : ∀ e, e ∈ (itemStep env guid pmse d item).files ↔
        e = newFileEntry (requestedItem guid item) d.nalloc ∨ e ∈ d.files := fun e =>
      hperm.mem_iff.trans List.mem_cons
    refine ⟨fun e he => (hmem e).mpr (.inr he), fun e he hne => ?_, fun e he => ?_⟩
    · exact ((hmem e).mp he).resolve_left fun heq => hne (heq ▸ rfl)
    · rcases (hmem e).mp he with rfl | hold
      · exact .inr ⟨item, List.mem_cons_self, hk, rfl⟩
      · exact .inl hold

section

variable (env : Env) {guid : GUID} (pmse : Nat) {d : Driver} (hw : d.WF)
  (hset : ∃ s ∈ d.sets, s.guidSetId = guid)

include hw hset

theorem run_itemStep_wf (items : List FilterItem) : (run (itemStep env guid pmse) d items).WF := by
  induction items generalizing d with
  | nil => exact hw
  | cons item items ih =>
    exact ih ((itemStep_changes env guid pmse item hset).wf hw) (itemStep_set pmse item hset)

variable {items : List FilterItem}
  (hok : Along (itemStep env guid pmse) (ItemAccepted env) d items)

include hok

theorem run_itemStep_adds : LoopAdds guid items d (run (itemStep env guid pmse) d items) := by
  induction items generalizing d with
  | nil => exact ⟨fun _ he => he, fun _ he _ => he, fun _ he => .inl he⟩
  | cons item items ih =>
    have hstep := itemStep_adds env guid pmse hw hok.1
    have hrest := ih ((itemStep_changes env guid pmse item hset).wf hw)
      (itemStep_set pmse item hset) hok.2
    refine ⟨fun e he => hrest.grows e (hstep.grows e he),
      fun e he hne => hstep.foreign e (hrest.foreign e he hne) hne, fun e he => ?_⟩
    rcases hrest.added e he with hmid | ⟨item', hi, hk, hname⟩
    · rcases hstep.added e hmid with hold | ⟨item', hi, hk, hname⟩
      · exact .inl hold
      · exact .inr ⟨item', List.mem_singleton.mp hi ▸ List.mem_cons_self, hk, hname⟩
    · exact .inr ⟨item', List.mem_cons_of_mem _ hi, hk, hname⟩

/-- Every name of the request gets settled. -/
theorem run_itemStep_settled (hsettled : Along (itemStep env guid pmse) ItemSettled d items) :
    (∀ name, Settled d name → Settled (run (itemStep env guid pmse) d items) name) ∧
    ∀ item ∈ items, item.known →
      Settled (run (itemStep env guid pmse) d items) item.wszFilterName := by
  induction items generalizing d with
  | nil => exact ⟨fun _ h => h, nofun⟩
  | cons item items ih =>
    obtain ⟨hkeep, hnew⟩ := itemStep_settled env guid pmse hw hok.1 hsettled.1
    obtain ⟨hkeeps, hnews⟩ := ih ((itemStep_changes env guid pmse item hset).wf hw)
      (itemStep_set pmse item hset) hok.2 hsettled.2
    refine ⟨fun name h => hkeeps name (hkeep name h), fun item' hi hk => ?_⟩
    rcases List.mem_cons.mp hi with rfl | hi
    · exact hkeeps _ (hnew hk)
    · exact hnews item' hi hk

/-- Where lookup is exact, every name of the request gets one cover. -/
theorem run_itemStep_sole (hclear : Along (itemStep env guid pmse) ItemClear d items) :
    (∀ name e, Sole d name e → Sole (run (itemStep env guid pmse) d items) name e) ∧
    ∀ item ∈ items, item.known →
      ∃ e, Sole (run (itemStep env guid pmse) d items) item.wszFilterName e := by
  induction items generalizing d with
  | nil => exact ⟨fun _ _ h => h, nofun⟩
  | cons item items ih =>
    obtain ⟨hkeep, hnew⟩ := itemStep_sole env guid pmse hw hok.1 hclear.1
    obtain ⟨hkeeps, hnews⟩ := ih ((itemStep_changes env guid pmse item hset).wf hw)
      (itemStep_set pmse item hset) hok.2 hclear.2
    refine ⟨fun name e h => hkeeps name e (hkeep name e h), fun item' hi hk => ?_⟩
    rcases List.mem_cons.mp hi with rfl | hi
    · obtain ⟨e, he⟩ := hnew hk
      exact ⟨e, hkeeps _ e he⟩
    · exact hnews item' hi hk

/-- Where lookup is exact, the names are settled at their turns. -/
theorem along_settled_of_clear (hclear : Along (itemStep env guid pmse) ItemClear d items) :
    Along (itemStep env guid pmse) ItemSettled d items := by
  induction items generalizing d with
  | nil => trivial
  | cons item items ih =>
    exact ⟨hclear.1.settled hw, ih ((itemStep_changes env guid pmse item hset).wf hw)
      (itemStep_set pmse item hset) hok.2 hclear.2⟩

end

/-! ## The old set -/

/-- The entries of the other sets are not touched by `AddMonitorSet`, and a set that
is replaced leaves what the deletion leaves. -/
theorem afterSet_files {env : Env} {backupData : RealtimeBackupData} {bDelExistSet : Bool}
    {d : Driver} (hw : d.WF) (hset : SetAccepted env backupData.guidSetId bDelExistSet d) :
    (∀ e, e.guidSetId ≠ backupData.guidSetId →
      (e ∈ (afterSet env backupData bDelExistSet d).files ↔ e ∈ d.files)) ∧
    (bDelExistSet = true → (afterSet env backupData bDelExistSet d).files =
      (withoutOldSet env backupData.guidSetId d).files) := by
  obtain ⟨pmse, -, ⟨hdel, -, hadd⟩ | ⟨-, -, -, hfiles⟩⟩ := afterSet_entry hw hset
  · have hd : afterSet env backupData bDelExistSet d = d := by rw [afterSet, hadd]
    rw [hd]
    exact ⟨fun _ _ => Iff.rfl, fun h => absurd (hdel.symm.trans h) (by decide)⟩
  · refine ⟨fun e hne => ?_, fun _ => congrArg MonitorItemData.entries hfiles⟩
    rw [Driver.files, hfiles, ← Driver.files]
    rcases withoutOldSet_cases env backupData.guidSetId d with ⟨-, hold⟩ | ⟨-, hold⟩
    · rw [hold]
      exact mem_files_delMonitorSet hw env backupData.guidSetId hne
    · rw [hold]

/-- What can be left of the old items, whatever the shape of the tree. -/
theorem leavesNoOther_of_leftRequested {env : Env}
    (hrb : env.rb.SuccessorInPlace MonitorFileEntry) {backupData : RealtimeBackupData} {d : Driver}
    (hw : d.WF) (h : LeftRequested backupData d) : LeavesNoOther env backupData d := by
  intro e he hg
  rcases withoutOldSet_cases env backupData.guidSetId d with ⟨-, hold⟩ | ⟨hnone, hold⟩
  · rw [hold] at he
    change e ∈ (ErasingWalk.run env.rb _ _ _ _).tree.toList at he
    have hfollows := ErasingWalk.follows_of_mem_run _ _ hw.files_nodup _ hrb (decide_eq_true hg) he
    have hmem := (ErasingWalk.run_sublist env.rb _ _ hw.files_nodup _).subset he
    exact h e hmem hg (.inr hfollows)
  · rw [hold] at he
    exact h e he hg (.inl hnone)

/-! ## The request -/

/-- A request for `/a/b` and for `/a`, in which it is nested. -/
def nestedItemsRequest : RealtimeBackupData :=
  { oneItemRequest with filterItems := [⟨filterTypeDir, nameAB⟩, ⟨filterTypeDir, nameA⟩] }

/-- A library that hands the right child over. -/
def handingKernel : Env :=
  { quietKernel with rb := .inPlace true }

/-- `/c/c` and `/c`, for a set with `/b` and `/c`. -/
def replacingRequest : RealtimeBackupData :=
  { oneItemRequest with
    filterItems := [⟨filterTypeDir, ⟨⟨[47, 99, 47, 99], by decide⟩, by decide⟩⟩,
      ⟨filterTypeDir, nameC⟩] }

/-- Another set has `/a`, to the left of `/b`; the right child of `/b` is `/c`. -/
def replacedSystem : Sys :=
  run (sysStep handingKernel) (Sys.start handingKernel [] 0)
    ([.addSet { oneItemRequest with filterItems := [⟨filterTypeDir, nameB⟩, ⟨filterTypeDir, nameC⟩] },
      .addSet { oneItemRequest with guidSetId := guidOne }].map .command)

/-- A request for another set with the same item. -/
def otherSetRequest : RealtimeBackupData :=
  { oneItemRequest with guidSetId := guidOne }

end RtBackup
