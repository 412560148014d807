import RtBackup.Change
import RtBackup.HookVfs
import RtBackup.Lookup

/-!
# Integrity of the two trees

An item refers to its set twice, by GUID and by a pointer that may not be
filled in yet. Sets are deleted, made again under the same GUID, and left
without items when an allocation fails. The loop that deletes the items of a set
may leave one behind, with a pointer to a set that is gone.

Results:
1. `Change.wf`, `Driver.WF.advance`: each change and each number taken keeps the
   trees well formed.
2. `opStep_wf`: so do every command and every hook.
3. `opStep_linked`: every item keeps its set when the loop leaves no item of the set
   it deletes.
4. `items_refer_to_their_set`: then, in every state reached, the GUID of an item is
   that of exactly one set, its pointer is empty or points to that set, and taking
   a number uses that set.
-/

namespace RtBackup

open ByteFile SearchTree Runs

/-! ## Runs of the driver -/

/-- One thing that happens to the driver after its start. -/
inductive Op where
  | command (c : Notification)
  | hook (c : HookCall)

def opStep (env : Env) (d : Driver) : Op → Driver
  | .command c => (processNetlinkCmd env d c).1
  | .hook c => hookCall env c d

/-! ## Well-formed trees -/

/-- The trees are sorted, no two entries share an address, and the set pointer of
an item was that of a set with the GUID of the item. -/
structure Driver.WF (d : Driver) : Prop where
  sets_sorted : d.sets.Pairwise SetLt
  files_sorted : d.files.Pairwise FileLt
  sets_fresh : ∀ s ∈ d.sets, s.addr < d.nalloc
  files_fresh : ∀ e ∈ d.files, e.addr < d.nalloc
  sets_addr : (d.sets.map (·.addr)).Nodup
  files_addr : (d.files.map (·.addr)).Nodup
  pointers : ∀ e ∈ d.files, ∀ a, e.pSetEntry = some a →
    a < d.nalloc ∧ ∀ s ∈ d.sets, s.addr = a → s.guidSetId = e.guidSetId

/-- Every item has its set, and a set pointer points to it. -/
def Driver.Linked (d : Driver) : Prop :=
  ∀ e ∈ d.files, ∃ s ∈ d.sets, s.guidSetId = e.guidSetId ∧
    ∀ a, e.pSetEntry = some a → a = s.addr

theorem emptyDriver_wf (cnf : Bytes) (nalloc : Nat) : (emptyDriver cnf nalloc).WF where
  sets_sorted := List.Pairwise.nil
  files_sorted := List.Pairwise.nil
  sets_fresh _ h := absurd h List.not_mem_nil
  files_fresh _ h := absurd h List.not_mem_nil
  sets_addr := List.nodup_nil
  files_addr := List.nodup_nil
  pointers _ h := absurd h List.not_mem_nil

theorem Driver.WF.sets_nodup {d : Driver} (hw : d.WF) : d.sets.Nodup := hw.sets_addr.of_map

theorem Driver.WF.files_nodup {d : Driver} (hw : d.WF) : d.files.Nodup := hw.files_addr.of_map

theorem set_eq_of_addr {d : Driver} (hw : d.WF) {s t : MonitorSetEntry} (hs : s ∈ d.sets)
    (ht : t ∈ d.sets) (h : s.addr = t.addr) : s = t :=
  List.inj_on_of_nodup_map hw.sets_addr hs ht h

theorem file_eq_of_addr {d : Driver} (hw : d.WF) {e f : MonitorFileEntry} (he : e ∈ d.files)
    (hf : f ∈ d.files) (h : e.addr = f.addr) : e = f :=
  List.inj_on_of_nodup_map hw.files_addr he hf h

/-- A fresh address differs from those in use. -/
theorem nodup_map_cons {α : Type} {f : α → Nat} {l m : List α} {x : α} {n : Nat}
    (hnd : (l.map f).Nodup) (hlt : ∀ a ∈ l, f a < n) (hx : f x = n) (hm : m.Perm (x :: l)) :
    (m.map f).Nodup ∧ ∀ a ∈ m, f a < n + 1 := by
  refine ⟨?_, fun a ha => ?_⟩
  · rw [(hm.map f).nodup_iff, List.map_cons, List.nodup_cons]
    refine ⟨fun hin => ?_, hnd⟩
    obtain ⟨a, ha, hfa⟩ := List.mem_map.mp hin
    have := hlt a ha
    omega
  · rcases List.mem_cons.mp (hm.mem_iff.mp ha) with rfl | hl
    · omega
    · exact Nat.lt_succ_of_lt (hlt a hl)

/-! ## Insertions -/

theorem Driver.WF.insertSet {env : Env} {d : Driver} (hw : d.WF) {s : MonitorSetEntry}
    {root : RbTree MonitorSetEntry} (hs : s.addr = d.nalloc)
    (hins : msInsert env.rb d.monitorSet.rbTree s = (root, 0)) (n : UInt32) :
    Driver.WF { d with monitorSet := ⟨n, root⟩, nalloc := d.nalloc + 1 } := by
  obtain ⟨hsorted, hperm⟩ := msInsert_added hw.sets_sorted hins
  obtain ⟨haddr, hfresh⟩ := nodup_map_cons hw.sets_addr hw.sets_fresh hs hperm
  refine ⟨hsorted, hw.files_sorted, hfresh, fun e he => Nat.lt_succ_of_lt (hw.files_fresh e he),
    haddr, hw.files_addr, fun e he a ha => ?_⟩
  obtain ⟨hlt, hguid⟩ := hw.pointers e he a ha
  refine ⟨Nat.lt_succ_of_lt hlt, fun t ht hta => ?_⟩
  rcases List.mem_cons.mp (hperm.mem_iff.mp ht) with rfl | hold
  · omega
  · exact hguid t hold hta

theorem Driver.WF.insertFile {env : Env} {d : Driver} (hw : d.WF) {e : MonitorFileEntry}
    {root : RbTree MonitorFileEntry} (he : e.addr = d.nalloc)
    (hins : miInsert env.rb d.monitorFiles.rbTree e = (root, 0))
    (hptr : ∀ a, e.pSetEntry = some a → ∃ s ∈ d.sets, s.addr = a ∧ s.guidSetId = e.guidSetId)
    (n : UInt32) :
    Driver.WF { d with monitorFiles := ⟨n, root⟩, nalloc := d.nalloc + 1 } := by
  obtain ⟨hsorted, hperm⟩ := miInsert_added hw.files_sorted hins
  obtain ⟨haddr, hfresh⟩ := nodup_map_cons hw.files_addr hw.files_fresh he hperm
  refine ⟨hw.sets_sorted, hsorted, fun s hs => Nat.lt_succ_of_lt (hw.sets_fresh s hs), hfresh,
    hw.sets_addr, haddr, fun f hf a ha => ?_⟩
  rcases List.mem_cons.mp (hperm.mem_iff.mp hf) with rfl | hold
  · obtain ⟨s, hs, rfl, hg⟩ := hptr a ha
    refine ⟨Nat.lt_succ_of_lt (hw.sets_fresh s hs), fun t ht hta => ?_⟩
    rw [set_eq_of_addr hw ht hs hta]
    exact hg
  · obtain ⟨hlt, hguid⟩ := hw.pointers f hold a ha
    exact ⟨Nat.lt_succ_of_lt hlt, hguid⟩

/-! ## Changes in place -/

/-- A change of one set in place, except for its key and its address. -/
theorem Driver.WF.updSet {d : Driver} (hw : d.WF) (addr : Nat) {f : MonitorSetEntry → MonitorSetEntry}
    (hguid : ∀ s, (f s).guidSetId = s.guidSetId) (haddr : ∀ s, (f s).addr = s.addr) :
    (d.updSet addr f).WF := by
  have hg : ∀ s : MonitorSetEntry,
      (if s.addr = addr then f s else s).guidSetId = s.guidSetId := by
    intro s
    split
    · exact hguid s
    · rfl
  have ha : ∀ s : MonitorSetEntry, (if s.addr = addr then f s else s).addr = s.addr := by
    intro s
    split
    · exact haddr s
    · rfl
  refine ⟨?_, hw.files_sorted, ?_, hw.files_fresh, ?_, hw.files_addr, ?_⟩
  · rw [sets_updSet, List.pairwise_map]
    refine hw.sets_sorted.imp fun hlt => ?_
    rw [SetLt, hg, hg]
    exact hlt
  · rw [sets_updSet]
    intro s hs
    obtain ⟨t, ht, rfl⟩ := List.mem_map.mp hs
    rw [ha]
    exact hw.sets_fresh t ht
  · rw [sets_updSet, List.map_map]
    exact (List.map_congr_left fun s _ => ha s) ▸ hw.sets_addr
  · intro e he a hptr
    obtain ⟨hlt, hown⟩ := hw.pointers e he a hptr
    refine ⟨hlt, fun s hs hsa => ?_⟩
    rw [sets_updSet] at hs
    obtain ⟨t, ht, rfl⟩ := List.mem_map.mp hs
    rw [hg]
    exact hown t ht ((ha t).symm.trans hsa)

/-- A change of one item in place, except for its key and its address; a new
pointer points to a set of the item's GUID. -/
theorem Driver.WF.updFile {d : Driver} (hw : d.WF) (addr : Nat) {f : MonitorFileEntry → MonitorFileEntry}
    (hguid : ∀ e, (f e).guidSetId = e.guidSetId) (haddr : ∀ e, (f e).addr = e.addr)
    (hname : ∀ e, (f e).wcsMonitorFile = e.wcsMonitorFile)
    (hptr : ∀ e ∈ d.files, e.addr = addr → ∀ a, (f e).pSetEntry = some a →
      e.pSetEntry = some a ∨ ∃ s ∈ d.sets, s.addr = a ∧ s.guidSetId = e.guidSetId) :
    (d.updFile addr f).WF := by
  have hg : ∀ e : MonitorFileEntry,
      (if e.addr = addr then f e else e).guidSetId = e.guidSetId := by
    intro e
    split
    · exact hguid e
    · rfl
  have ha : ∀ e : MonitorFileEntry, (if e.addr = addr then f e else e).addr = e.addr := by
    intro e
    split
    · exact haddr e
    · rfl
  have hn : ∀ e : MonitorFileEntry,
      (if e.addr = addr then f e else e).wcsMonitorFile = e.wcsMonitorFile := by
    intro e
    split
    · exact hname e
    · rfl
  refine ⟨hw.sets_sorted, ?_, hw.sets_fresh, ?_, hw.sets_addr, ?_, ?_⟩
  · rw [files_updFile, List.pairwise_map]
    refine hw.files_sorted.imp fun hlt => ?_
    rw [FileLt, hn, hn]
    exact hlt
  · rw [files_updFile]
    intro e he
    obtain ⟨e', he', rfl⟩ := List.mem_map.mp he
    rw [ha]
    exact hw.files_fresh e' he'
  · rw [files_updFile, List.map_map]
    exact (List.map_congr_left fun e _ => ha e) ▸ hw.files_addr
  · rw [files_updFile]
    intro e he a hnew
    obtain ⟨e', he', rfl⟩ := List.mem_map.mp he
    rw [hg]
    have hold : e'.pSetEntry = some a ∨ ∃ s ∈ d.sets, s.addr = a ∧ s.guidSetId = e'.guidSetId := by
      split at hnew
      · next hat => exact hptr e' he' hat a hnew
      · exact .inl hnew
    rcases hold with hold | ⟨s, hs, rfl, hsg⟩
    · exact hw.pointers e' he' a hold
    · exact ⟨hw.sets_fresh s hs, fun t ht hta => set_eq_of_addr hw ht hs hta ▸ hsg⟩

/-! ## Deletions -/

/-- Fewer entries are well formed. -/
theorem Driver.WF.sublist {d d' : Driver} (hw : d.WF) (hsets : d'.sets.Sublist d.sets)
    (hfiles : d'.files.Sublist d.files) (hn : d.nalloc ≤ d'.nalloc) : d'.WF where
  sets_sorted := hw.sets_sorted.sublist hsets
  files_sorted := hw.files_sorted.sublist hfiles
  sets_fresh s hs := Nat.lt_of_lt_of_le (hw.sets_fresh s (hsets.subset hs)) hn
  files_fresh e he := Nat.lt_of_lt_of_le (hw.files_fresh e (hfiles.subset he)) hn
  sets_addr := hw.sets_addr.sublist (hsets.map _)
  files_addr := hw.files_addr.sublist (hfiles.map _)
  pointers e he a ha := by
    obtain ⟨hlt, hguid⟩ := hw.pointers e (hfiles.subset he) a ha
    exact ⟨Nat.lt_of_lt_of_le hlt hn, fun s hs => hguid s (hsets.subset hs)⟩

section

variable {d : Driver} (hw : d.WF) (env : Env) (guid : GUID)

include hw

/-- The set is gone: its GUID is in the tree once. -/
theorem sets_delMonitorSet :
    (delMonitorSet env guid d).sets = d.sets.filter fun s => s.guidSetId ≠ guid :=
  delMonitorItemsBySetId_of_single env.rb (fun s : MonitorSetEntry => s.guidSetId) hw.sets_nodup guid
    fun _ ha _ hb hga hgb => guid_unique hw.sets_sorted ha hb (hga.trans hgb.symm)

theorem files_delMonitorSet_sublist : (delMonitorSet env guid d).files.Sublist d.files :=
  delMonitorItemsBySetId_sublist env.rb (fun e : MonitorFileEntry => e.guidSetId) hw.files_nodup guid

/-- The items of the other sets stay. -/
theorem mem_files_delMonitorSet {e : MonitorFileEntry} (hne : e.guidSetId ≠ guid) :
    e ∈ (delMonitorSet env guid d).files ↔ e ∈ d.files :=
  mem_delMonitorItemsBySetId env.rb (fun e : MonitorFileEntry => e.guidSetId) hw.files_nodup guid hne

theorem sets_delMonitorSet_sublist : (delMonitorSet env guid d).sets.Sublist d.sets := by
  rw [sets_delMonitorSet hw]
  exact List.filter_sublist

theorem delMonitorSet_wf : (delMonitorSet env guid d).WF :=
  hw.sublist (sets_delMonitorSet_sublist hw env guid) (files_delMonitorSet_sublist hw env guid)
    (Nat.le_refl _)

end

/-! ## Each change -/

theorem Change.wf {env : Env} {d d' : Driver} (hw : d.WF) (h : Change env d d') : d'.WF := by
  cases h with
  | rest cnf status n hn => exact hw.sublist (List.Sublist.refl _) (List.Sublist.refl _) hn
  | addSet haddr hins => exact hw.insertSet haddr hins _
  | addFile haddr hins hptr _ =>
    exact hw.insertFile haddr hins (fun a ha => absurd (hptr.symm.trans ha) nofun) _
  | countFile addr => exact hw.updSet addr (fun _ => rfl) (fun _ => rfl)
  | delSet guid => exact delMonitorSet_wf hw env guid
  | delAll =>
    exact hw.sublist (List.nil_sublist _) (List.nil_sublist _) (Nat.le_refl _)
  | @removeFile p e root hrem =>
    rcases miRemove_cases env.rb d.monitorFiles.rbTree p with
      ⟨root', e', l, r, heq, -, hl, hr⟩ | ⟨heq, -⟩
    · obtain rfl : root' = root := congrArg Prod.fst (heq.symm.trans hrem)
      refine hw.sublist (List.Sublist.refl _) ?_ (Nat.le_refl _)
      show root'.toList.Sublist d.monitorFiles.rbTree.toList
      rw [hl, hr]
      exact (List.sublist_cons_self e' r).append_left l
    · simp [heq] at hrem
  | loadSet haddr hins => exact hw.insertSet haddr hins d.monitorSet.ulCounts
  | loadFile haddr hins hs hg hptr =>
    refine hw.insertFile haddr hins (fun a ha => ?_) d.monitorFiles.ulCounts
    exact ⟨_, hs, Option.some.inj (hptr.symm.trans ha), hg⟩

theorem Changes.wf {env : Env} {d d' : Driver} (hw : d.WF) (h : Changes env d d') : d'.WF := by
  induction h with
  | refl => exact hw
  | tail _ hstep ih => exact hstep.wf ih

theorem initMonitorSet_wf (env : Env) (cnf : Bytes) (nalloc : Nat) :
    (initMonitorSet env cnf nalloc).WF :=
  (loadConfig_changes env _).wf (emptyDriver_wf cnf nalloc)

/-! ## Taking a number -/

theorem setAt_sound {env : Env} {d : Driver} {pmse : Nat} {s : MonitorSetEntry}
    (h : setAt env d pmse = some s) : s ∈ d.sets := by
  rcases Option.or_eq_some_iff.mp h with hfind | ⟨-, hfind⟩
  · exact List.mem_of_find?_eq_some hfind
  · exact List.mem_of_find?_eq_some hfind

/-- A pointer to a set that is there leads to this set. -/
theorem setAt_of_mem (env : Env) {d : Driver} (hw : d.WF) {s : MonitorSetEntry} (hs : s ∈ d.sets) :
    setAt env d s.addr = some s := by
  refine Option.or_eq_some_iff.mpr (.inl ?_)
  cases h : d.sets.find? (fun t => t.addr = s.addr) with
  | none =>
    have hnone := List.find?_eq_none.mp h s hs
    simp at hnone
  | some t =>
    have hta : t.addr = s.addr := by simpa using List.find?_some h
    rw [set_eq_of_addr hw (List.mem_of_find?_eq_some h) hs hta]

/-- The set whose number is taken for an item: the one that its pointer leads to,
or, without a pointer, the one that `GetMonitorSetEntry` finds. -/
def numberedSet (env : Env) (d : Driver) (pmfe : MonitorFileEntry) : Option MonitorSetEntry :=
  match pmfe.pSetEntry with
  | some pmse => setAt env d pmse
  | none => getMonitorSetEntry d pmfe.guidSetId

/-- The counter of an item advanced. -/
def Driver.advanceItem (d : Driver) (pmfe : MonitorFileEntry) : Driver :=
  d.updFile pmfe.addr fun e => { e with ullSeqNo := e.ullSeqNo + 1 }

/-- The counters of an item and of a set advanced. -/
def Driver.advance (d : Driver) (pmfe : MonitorFileEntry) (pmse : MonitorSetEntry) : Driver :=
  (d.advanceItem pmfe).updSet pmse.addr fun s => { s with ullSetSeqNo := s.ullSetSeqNo + 1 }

theorem Driver.WF.advanceItem {d : Driver} (hw : d.WF) (e : MonitorFileEntry) :
    (d.advanceItem e).WF :=
  hw.updFile e.addr (fun _ => rfl) (fun _ => rfl) (fun _ => rfl) fun _ _ _ _ hp => .inl hp

theorem Driver.WF.advance {d : Driver} (hw : d.WF) (e : MonitorFileEntry) (s : MonitorSetEntry) :
    (d.advance e s).WF :=
  (hw.advanceItem e).updSet s.addr (fun _ => rfl) (fun _ => rfl)

theorem fillPointer_wf {d : Driver} (hw : d.WF) {e : MonitorFileEntry} (he : e ∈ d.files)
    {s : MonitorSetEntry} (hs : s ∈ d.sets) (hg : s.guidSetId = e.guidSetId) :
    (d.updFile e.addr fun e => { e with pSetEntry := some s.addr }).WF := by
  refine hw.updFile e.addr (fun _ => rfl) (fun _ => rfl) (fun _ => rfl) ?_
  intro e' he' haddr a ha
  obtain rfl : e' = e := file_eq_of_addr hw he' he haddr
  exact .inr ⟨s, hs, Option.some.inj ha, hg⟩

theorem getMonitorSetEntry_sound {d : Driver} {guid : GUID} {s : MonitorSetEntry}
    (h : getMonitorSetEntry d guid = some s) : s ∈ d.sets ∧ s.guidSetId = guid := by
  unfold getMonitorSetEntry at h
  split at h
  · exact msSearch_sound h
  · simp at h

theorem numberedSet_sound {env : Env} {d : Driver} {e : MonitorFileEntry} {s : MonitorSetEntry}
    (h : numberedSet env d e = some s) : s ∈ d.sets := by
  unfold numberedSet at h
  split at h
  · exact setAt_sound h
  · exact (getMonitorSetEntry_sound h).1

/-- What taking a number for an item does. Without a set it fails with -3 and changes
nothing; with a pointer to a freed set the item counts and no set does; else the
numbers of the item and of the set are read and advanced, after the pointer was filled
in. -/
theorem getSeqNo_cases (env : Env) (ts : Timespec) {d : Driver} (hw : d.WF)
    {e : MonitorFileEntry} (he : e ∈ d.files) :
    (numberedSet env d e = none ∧ e.pSetEntry = none ∧
      getMonitorFileSeqNoByMonitorFileEntry env ts e d = (d, .failed (-3))) ∨
    (∃ pmse, numberedSet env d e = none ∧ e.pSetEntry = some pmse ∧
      getMonitorFileSeqNoByMonitorFileEntry env ts e d =
        (d.advanceItem e, .ok ⟨e.ullSeqNo, (env.freed d pmse).ullSetSeqNo, timesecs env.longBits ts,
          (env.freed d pmse).wcsSetCacheDir.toCString⟩)) ∨
    ∃ s ∈ d.sets, numberedSet env d e = some s ∧
      ∃ d₁ : Driver, d₁.WF ∧ d₁.monitorSet = d.monitorSet ∧
        (d₁ = d ∧ e.pSetEntry ≠ none ∨
          d₁ = d.updFile e.addr (fun e => { e with pSetEntry := some s.addr }) ∧
            e.pSetEntry = none ∧ s.guidSetId = e.guidSetId) ∧
        getMonitorFileSeqNoByMonitorFileEntry env ts e d =
          (d₁.advance e s,
            .ok ⟨e.ullSeqNo, s.ullSetSeqNo, timesecs env.longBits ts, s.wcsSetCacheDir.toCString⟩) := by
  unfold getMonitorFileSeqNoByMonitorFileEntry numberedSet
  cases hptr : e.pSetEntry with
  | some a =>
    simp only [takeSeqNo]
    cases hset : setAt env d a with
    | none => exact .inr (.inl ⟨a, rfl, rfl, rfl⟩)
    | some s => exact .inr (.inr ⟨s, setAt_sound hset, rfl, d, hw, rfl, .inl ⟨rfl, nofun⟩, rfl⟩)
  | none =>
    cases hget : getMonitorSetEntry d e.guidSetId with
    | none => exact .inl ⟨rfl, rfl, rfl⟩
    | some s =>
      obtain ⟨hs, hg⟩ := getMonitorSetEntry_sound hget
      have hw₁ := fillPointer_wf hw he hs hg
      refine .inr (.inr ⟨s, hs, rfl, _, hw₁, rfl, .inr ⟨rfl, rfl, hg⟩, ?_⟩)
      simp only [takeSeqNo, setAt_of_mem env hw₁ (s := s) hs]
      rfl

theorem getSeqNo_wf (env : Env) (ts : Timespec) {d : Driver} (hw : d.WF) {e : MonitorFileEntry}
    (he : e ∈ d.files) : (getMonitorFileSeqNoByMonitorFileEntry env ts e d).1.WF := by
  rcases getSeqNo_cases env ts hw he with
    ⟨-, -, h⟩ | ⟨a, -, -, h⟩ | ⟨s, -, -, d₁, hw₁, -, -, h⟩
  · rw [h]
    exact hw
  · rw [h]
    exact hw.advanceItem e
  · rw [h]
    exact hw₁.advance e s

/-! ## Hooks and runs -/

theorem hookEnter_wf (env : Env) (ts : Timespec) (h : Hook) {d : Driver} (hw : d.WF) :
    (hookEnter env ts h d).1.WF := by
  rcases hookEnter_cases env ts h d with ⟨-, heq | heq⟩ | ⟨e, -, he, h1, -⟩
  · rw [heq]
    exact hw
  · rw [heq]
    exact hw
  · rw [h1]
    exact getSeqNo_wf env ts hw (hookLookup_sound he).1

theorem hookExit_wf (allocOk : Bool) (ret : Int) (h : Hook) (entered : Entered) {d : Driver}
    (hw : d.WF) : (hookExit allocOk ret h entered d).WF := by
  obtain ⟨queue, flag, heq⟩ := hookExit_cases allocOk ret h entered d
  rw [heq]
  exact hw.sublist (List.Sublist.refl _) (List.Sublist.refl _) (Nat.le_refl _)

theorem opStep_wf (env : Env) (d : Driver) (op : Op) (hw : d.WF) : (opStep env d op).WF := by
  cases op with
  | command c => exact (processNetlinkCmd_changes env d c).wf hw
  | hook c => exact hookExit_wf _ _ _ _ (hookEnter_wf env c.ts c.hook hw)

/-- Every state of a run is well formed. -/
theorem states_wf (env : Env) (cnf : Bytes) (nalloc : Nat) (ops : List Op) :
    ∀ d ∈ states (opStep env) (initMonitorSet env cnf nalloc) ops, d.WF :=
  invariant (fun d op hw => opStep_wf env d op hw) (initMonitorSet_wf env cnf nalloc) ops

/-! ## Items and their sets -/

/-- `DelMonitorItemsBySetId` removes exactly the items of a set. -/
def Env.DeletesExactly (env : Env) : Prop :=
  ∀ (items : MonitorItemData MonitorFileEntry) (guid : GUID), items.entries.Nodup →
    (delMonitorItemsBySetId env.rb (·.guidSetId) items guid).entries =
      items.entries.filter fun e => e.guidSetId ≠ guid

/-- Fewer entries are linked when the items that stay keep their sets. -/
theorem Driver.Linked.sublist {d d' : Driver} (hl : d.Linked) (hfiles : d'.files.Sublist d.files)
    (hkeep : ∀ e ∈ d'.files, ∀ s ∈ d.sets, s.guidSetId = e.guidSetId → s ∈ d'.sets) :
    d'.Linked := by
  intro e he
  obtain ⟨s, hs, hg, hp⟩ := hl e (hfiles.subset he)
  exact ⟨s, hkeep e he s hs hg, hg, hp⟩

/-- A set more leaves the items what they have. -/
theorem Driver.Linked.insertSet {env : Env} {d d' : Driver} (hl : d.Linked) (hw : d.WF)
    {s : MonitorSetEntry} {root : RbTree MonitorSetEntry}
    (hins : msInsert env.rb d.monitorSet.rbTree s = (root, 0)) (hsets : d'.sets = root.toList)
    (hfiles : d'.files = d.files) : d'.Linked := by
  intro e he
  obtain ⟨t, ht, hg⟩ := hl e (hfiles ▸ he)
  refine ⟨t, ?_, hg⟩
  rw [hsets, (msInsert_added hw.sets_sorted hins).2.mem_iff]
  exact List.mem_cons_of_mem _ ht

theorem Driver.Linked.insertFile {env : Env} {d d' : Driver} (hl : d.Linked) (hw : d.WF)
    {e : MonitorFileEntry} {root : RbTree MonitorFileEntry}
    (hins : miInsert env.rb d.monitorFiles.rbTree e = (root, 0))
    (hlink : ∃ s ∈ d.sets, s.guidSetId = e.guidSetId ∧ ∀ a, e.pSetEntry = some a → a = s.addr)
    (hsets : d'.sets = d.sets) (hfiles : d'.files = root.toList) : d'.Linked := by
  intro f hf
  rw [hfiles, (miInsert_added hw.files_sorted hins).2.mem_iff] at hf
  rw [hsets]
  rcases List.mem_cons.mp hf with rfl | hold
  · exact hlink
  · exact hl f hold

/-- A change of the sets in place, except for their keys and addresses. -/
theorem Driver.Linked.updSet {d : Driver} (hl : d.Linked) (addr : Nat)
    {f : MonitorSetEntry → MonitorSetEntry} (hguid : ∀ s, (f s).guidSetId = s.guidSetId)
    (haddr : ∀ s, (f s).addr = s.addr) : (d.updSet addr f).Linked := by
  intro e he
  obtain ⟨s, hs, hg, hp⟩ := hl e he
  refine ⟨_, (sets_updSet d addr f) ▸ List.mem_map_of_mem hs, ?_⟩
  split
  · rw [hguid, haddr]
    exact ⟨hg, hp⟩
  · exact ⟨hg, hp⟩

/-- A change of an item in place; a new pointer is that of its set. -/
theorem Driver.Linked.updFile {d : Driver} (hl : d.Linked) (addr : Nat)
    {f : MonitorFileEntry → MonitorFileEntry} (hguid : ∀ e, (f e).guidSetId = e.guidSetId)
    (hptr : ∀ e ∈ d.files, e.addr = addr → ∀ s ∈ d.sets, s.guidSetId = e.guidSetId →
      (∀ a, e.pSetEntry = some a → a = s.addr) → ∀ a, (f e).pSetEntry = some a → a = s.addr) :
    (d.updFile addr f).Linked := by
  intro e he
  rw [files_updFile] at he
  obtain ⟨e', he', rfl⟩ := List.mem_map.mp he
  obtain ⟨s, hs, hg, hp⟩ := hl e' he'
  refine ⟨s, hs, ?_⟩
  split
  · next hat => exact ⟨hg.trans (hguid e').symm, hptr e' he' hat s hs hg hp⟩
  · exact ⟨hg, hp⟩

section

variable {env : Env} (hdel : env.DeletesExactly)

include hdel

theorem delMonitorSet_linked {d : Driver} (hw : d.WF) (hl : d.Linked) (guid : GUID) :
    (delMonitorSet env guid d).Linked := by
  refine hl.sublist (files_delMonitorSet_sublist hw env guid) fun e he s hs hg => ?_
  have hfiles : (delMonitorSet env guid d).files = d.files.filter fun e => e.guidSetId ≠ guid :=
    hdel d.monitorFiles guid hw.files_nodup
  rw [hfiles, List.mem_filter] at he
  rw [sets_delMonitorSet hw, List.mem_filter, hg]
  exact ⟨hs, he.2⟩

theorem Change.linked {d d' : Driver} (hw : d.WF) (hl : d.Linked) (h : Change env d d') :
    d'.Linked := by
  cases h with
  | rest => exact hl
  | addSet _ hins => exact hl.insertSet hw hins rfl rfl
  | addFile _ hins hptr hset =>
    obtain ⟨s, hs, hg⟩ := hset
    refine hl.insertFile hw hins ⟨s, hs, hg, fun a ha => ?_⟩ rfl rfl
    exact absurd (hptr.symm.trans ha) nofun
  | countFile addr => exact hl.updSet addr (fun _ => rfl) (fun _ => rfl)
  | delSet guid => exact delMonitorSet_linked hdel hw hl guid
  | delAll => exact fun _ he => absurd he List.not_mem_nil
  | @removeFile p e root hrem =>
    rcases miRemove_cases env.rb d.monitorFiles.rbTree p with
      ⟨root', e', l, r, heq, -, hfiles, hr⟩ | ⟨heq, -⟩
    · obtain rfl : root' = root := congrArg Prod.fst (heq.symm.trans hrem)
      refine hl.sublist ?_ fun _ _ _ hs _ => hs
      show root'.toList.Sublist d.monitorFiles.rbTree.toList
      rw [hfiles, hr]
      exact (List.sublist_cons_self e' r).append_left l
    · simp [heq] at hrem
  | loadSet _ hins => exact hl.insertSet hw hins rfl rfl
  | loadFile _ hins hs hg hptr =>
    refine hl.insertFile hw hins ⟨_, hs, hg, fun a ha => ?_⟩ rfl rfl
    exact (Option.some.inj (hptr.symm.trans ha)).symm

theorem Changes.linked {d d' : Driver} (hw : d.WF) (hl : d.Linked) (h : Changes env d d') :
    d'.Linked := by
  induction h with
  | refl => exact hl
  | tail hsteps hstep ih => exact hstep.linked hdel (Changes.wf hw hsteps) ih

omit hdel in
/-- Taking a number for an item keeps the items linked. -/
theorem getSeqNo_linked (ts : Timespec) {d : Driver} (hw : d.WF) (hl : d.Linked)
    {e : MonitorFileEntry} (he : e ∈ d.files) :
    (getMonitorFileSeqNoByMonitorFileEntry env ts e d).1.Linked := by
  have hitem {d' : Driver} (hl' : d'.Linked) : (d'.advanceItem e).Linked :=
    hl'.updFile e.addr (fun _ => rfl) fun _ _ _ _ _ _ hp => hp
  rcases getSeqNo_cases env ts hw he with
    ⟨-, -, h⟩ | ⟨a, -, -, h⟩ | ⟨s, hs, -, d₁, -, -, hd₁, h⟩
  · rw [h]
    exact hl
  · rw [h]
    exact hitem hl
  · have hl₁ : d₁.Linked := by
      rcases hd₁ with ⟨rfl, -⟩ | ⟨rfl, -, hg⟩
      · exact hl
      · refine hl.updFile e.addr (fun _ => rfl) fun e' he' haddr t ht htg _ a ha => ?_
        obtain rfl : e' = e := file_eq_of_addr hw he' he haddr
        rw [guid_unique hw.sets_sorted ht hs (htg.trans hg.symm)]
        exact (Option.some.inj ha).symm
    rw [h]
    exact (hitem hl₁).updSet s.addr (fun _ => rfl) (fun _ => rfl)

theorem opStep_linked {d : Driver} (op : Op) (hw : d.WF) (hl : d.Linked) :
    (opStep env d op).Linked := by
  cases op with
  | command c => exact (processNetlinkCmd_changes env d c).linked hdel hw hl
  | hook c =>
    have henter : (hookEnter env c.ts c.hook d).1.Linked := by
      rcases hookEnter_cases env c.ts c.hook d with ⟨-, heq | heq⟩ | ⟨e, -, he, h1, -⟩
      · rw [heq]
        exact hl
      · rw [heq]
        exact hl
      · rw [h1]
        exact getSeqNo_linked c.ts hw hl (hookLookup_sound he).1
    obtain ⟨queue, flag, heq⟩ := hookExit_cases c.allocOk c.ret c.hook
      (hookEnter env c.ts c.hook d).2 (hookEnter env c.ts c.hook d).1
    show (hookExit c.allocOk c.ret c.hook _ _).Linked
    rw [heq]
    exact henter

theorem states_linked (cnf : Bytes) (nalloc : Nat) (ops : List Op) :
    ∀ d ∈ states (opStep env) (initMonitorSet env cnf nalloc) ops, d.WF ∧ d.Linked := by
  refine invariant (I := fun d => d.WF ∧ d.Linked)
    (fun d op hd => ⟨opStep_wf env d op hd.1, opStep_linked hdel op hd.1 hd.2⟩) ?_ ops
  have hstart := emptyDriver_wf cnf nalloc
  exact ⟨initMonitorSet_wf env cnf nalloc, (loadConfig_changes env _).linked hdel hstart
    fun _ he => absurd he List.not_mem_nil⟩

end

/-- A pointer of a linked item leads to the set of the item. -/
theorem Driver.Linked.numberedSet_eq {d : Driver} (hl : d.Linked) (hw : d.WF) (env : Env)
    {e : MonitorFileEntry} (he : e ∈ d.files) :
    ∃ s ∈ d.sets, s.guidSetId = e.guidSetId ∧ (∀ a, e.pSetEntry = some a → a = s.addr) ∧
      (numberedSet env d e = some s ∨ e.pSetEntry = none ∧ numberedSet env d e = none) := by
  obtain ⟨s, hs, hg, hp⟩ := hl e he
  refine ⟨s, hs, hg, hp, ?_⟩
  unfold numberedSet
  cases hptr : e.pSetEntry with
  | some a =>
    obtain rfl := hp a hptr
    exact .inl (setAt_of_mem env hw hs)
  | none =>
    cases hget : getMonitorSetEntry d e.guidSetId with
    | none => exact .inr ⟨rfl, rfl⟩
    | some t =>
      obtain ⟨ht, htg⟩ := getMonitorSetEntry_sound hget
      exact .inl (congrArg some (guid_unique hw.sets_sorted ht hs (htg.trans hg.symm)))

/-- The sets with the GUID of a set in a sorted sequence are that set. -/
theorem filter_guid_eq {d : Driver} (hw : d.WF) {s : MonitorSetEntry} (hs : s ∈ d.sets) :
    d.sets.filter (fun t => t.guidSetId = s.guidSetId) = [s] := by
  obtain ⟨l, r, hlr⟩ := List.append_of_mem hs
  have hsorted := hw.sets_sorted
  have huniq : ∀ t ∈ d.sets, t.guidSetId = s.guidSetId → t = s := fun t ht hg =>
    guid_unique hsorted ht hs hg
  rw [hlr] at hsorted huniq ⊢
  rw [List.pairwise_append, List.pairwise_cons] at hsorted
  obtain ⟨-, ⟨hsr, -⟩, hls⟩ := hsorted
  have hl : l.filter (fun t => t.guidSetId = s.guidSetId) = [] := by
    refine List.filter_eq_nil_iff.mpr fun t ht hg => ?_
    have hlt : SetLt t s := hls t ht s List.mem_cons_self
    exact hlt.ne (congrArg GUID.image (of_decide_eq_true hg))
  have hr : r.filter (fun t => t.guidSetId = s.guidSetId) = [] := by
    refine List.filter_eq_nil_iff.mpr fun t ht hg => ?_
    have hlt : SetLt s t := hsr t ht
    exact hlt.ne (congrArg GUID.image (of_decide_eq_true hg).symm)
  rw [List.filter_append, hl, List.filter_cons_of_pos (by simp), hr]
  rfl

/-- In every state of every run, whatever allocations fail and whatever the
first configuration file held, when sets are deleted with exactly their items:
there is exactly one set with the GUID of an item, the pointer of the item is
empty or the address of this set alone, and taking a number for the item fails
with -3 or reads and counts up this set. -/
theorem items_refer_to_their_set (env : Env) (hdel : env.DeletesExactly) (cnf : Bytes)
    (nalloc : Nat) (ops : List Op) :
    ∀ d ∈ states (opStep env) (initMonitorSet env cnf nalloc) ops, ∀ e ∈ d.files,
      ∃ s, d.sets.filter (fun t => t.guidSetId = e.guidSetId) = [s] ∧
        (e.pSetEntry = none ∨ e.pSetEntry = some s.addr) ∧
        (∀ t ∈ d.sets, t.addr = s.addr → t = s) ∧
        ∀ ts, (getMonitorFileSeqNoByMonitorFileEntry env ts e d).2 = .failed (-3) ∨
          ∃ n, (getMonitorFileSeqNoByMonitorFileEntry env ts e d).2 = .ok n ∧
            n.ullGlobalSeqNo = s.ullSetSeqNo ∧ n.iologdir = s.wcsSetCacheDir.toCString ∧
            (getMonitorFileSeqNoByMonitorFileEntry env ts e d).1.sets =
              d.sets.map fun t =>
                if t = s then { s with ullSetSeqNo := s.ullSetSeqNo + 1 } else t := by
  intro d hd e he
  obtain ⟨hw, hl⟩ := states_linked hdel cnf nalloc ops d hd
  obtain ⟨s, hs, hg, hp, hnumbered⟩ := hl.numberedSet_eq hw env he
  refine ⟨s, hg ▸ filter_guid_eq hw hs, ?_, fun t ht ha => set_eq_of_addr hw ht hs ha, fun ts => ?_⟩
  · cases hptr : e.pSetEntry with
    | none => exact .inl rfl
    | some a => exact .inr (congrArg some (hp a hptr))
  · rcases getSeqNo_cases env ts hw he with
      ⟨-, -, h⟩ | ⟨a, hnone, hptr, -⟩ | ⟨t, -, ht, d₁, -, hsets, -, h⟩
    · exact .inl (by rw [h])
    · rcases hnumbered with hsome | ⟨hnoptr, -⟩
      · exact absurd (hnone.symm.trans hsome) nofun
      · exact absurd (hptr.symm.trans hnoptr) nofun
    · have hts : t = s := by
        rcases hnumbered with hsome | ⟨-, hnone⟩
        · exact Option.some.inj (ht.symm.trans hsome)
        · exact absurd (hnone.symm.trans ht) nofun
      subst hts
      rw [h]
      refine .inr ⟨_, rfl, rfl, rfl, ?_⟩
      rw [Driver.advance, sets_updSet, Driver.advanceItem, sets_updFile, Driver.sets, hsets]
      refine List.map_congr_left fun u hu => ?_
      by_cases hut : u = t
      · simp [hut]
      · have hne : u.addr ≠ t.addr := fun ha => hut (set_eq_of_addr hw hu hs ha)
        rw [if_neg hne, if_neg hut]

/-! ## Concrete runs -/

/-- A kernel whose allocations all succeed. -/
def quietKernel : Env where
  rb := .still
  allocOk _ := true
  memory n := n
  freed _ _ := ⟨guidZero, nameA, 0, 0⟩
  longBits := 64
  mfeAddress := 1

theorem quietKernel_deletesExactly : quietKernel.DeletesExactly := by
  intro items guid h
  have hrun := ErasingWalk.run_exact_of_still (fun e => decide (e.guidSetId = guid))
    (fun _ => decrement) h items.ulCounts
  simp only [← decide_not] at hrun
  exact hrun

/-- A request for the set of the zero GUID with the directory `/a` as its item. -/
def oneItemRequest : RealtimeBackupData where
  guidSetId := guidZero
  wszBakCacheDir := ⟨⟨[47, 99, 47], by decide⟩, by decide⟩
  filterItems := [⟨filterTypeDir, nameA⟩]

theorem items_refer_to_their_set_one_item :
    let d := run (opStep quietKernel) (initMonitorSet quietKernel [] 0)
      [.command (.addSet oneItemRequest)]
    ∃ e ∈ d.files, ∃ s, d.sets.filter (fun t => t.guidSetId = e.guidSetId) = [s] ∧
      (e.pSetEntry = none ∨ e.pSetEntry = some s.addr) ∧
      (∀ t ∈ d.sets, t.addr = s.addr → t = s) ∧
      ∀ ts, (getMonitorFileSeqNoByMonitorFileEntry quietKernel ts e d).2 = .failed (-3) ∨
        ∃ n, (getMonitorFileSeqNoByMonitorFileEntry quietKernel ts e d).2 = .ok n ∧
          n.ullGlobalSeqNo = s.ullSetSeqNo ∧ n.iologdir = s.wcsSetCacheDir.toCString ∧
          (getMonitorFileSeqNoByMonitorFileEntry quietKernel ts e d).1.sets =
            d.sets.map fun t =>
              if t = s then { s with ullSetSeqNo := s.ullSetSeqNo + 1 } else t := by
  intro d
  obtain ⟨e, he, -⟩ : ∃ e ∈ d.files, e.wcsMonitorFile = nameA := by decide +kernel
  exact ⟨e, he, items_refer_to_their_set quietKernel quietKernel_deletesExactly [] 0 _ d
    (run_mem_states _ _) e he⟩

end RtBackup
