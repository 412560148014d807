import Mathlib.Logic.Relation
import RtBackup.MonitorSet

/-!
# What a command can do to the driver

Every command, and loading, is a sequence of the elementary changes of this
file. What holds of every reachable configuration is then proved for one change
at a time.

Results:
1. `addMonitorItem_cases`, `newMonitorSet_cases`: how an entry is added.
2. `loadConfig_changes`, `processNetlinkCmd_changes`: loading and every command
   are sequences of changes, with any allocation failing or not.
3. `delMonitorItemsBySetId_sublist`, `delMonitorItemsBySetId_others`: deleting by
   GUID keeps the entries of the other GUIDs in their order.
-/

namespace RtBackup

open ByteFile SearchTree

/-! ## Changes -/

/-- One elementary change. A new entry has the address that the allocator gave
out last. -/
inductive Change (env : Env) (d : Driver) : Driver → Prop
  /-- The trees stay: a save, a lost allocation, a new shutdown status. -/
  | rest (cnf : Bytes) (status : UInt32) (n : Nat) : d.nalloc ≤ n →
      Change env d { d with cnf := cnf, dwLastNormalShutdown := status, nalloc := n }
  | addSet {s : MonitorSetEntry} {root : RbTree MonitorSetEntry} : s.addr = d.nalloc →
      msInsert env.rb d.monitorSet.rbTree s = (root, 0) →
      Change env d { d with
        monitorSet := ⟨d.monitorSet.ulCounts + 1, root⟩, nalloc := d.nalloc + 1 }
  | addFile {e : MonitorFileEntry} {root : RbTree MonitorFileEntry} : e.addr = d.nalloc →
      miInsert env.rb d.monitorFiles.rbTree e = (root, 0) → e.pSetEntry = none →
      (∃ s ∈ d.sets, s.guidSetId = e.guidSetId) →
      Change env d { d with
        monitorFiles := ⟨d.monitorFiles.ulCounts + 1, root⟩, nalloc := d.nalloc + 1 }
  | countFile (addr : Nat) :
      Change env d (d.updSet addr fun s => { s with ulFileCount := s.ulFileCount + 1 })
  | delSet (guid : GUID) : Change env d (delMonitorSet env guid d)
  | delAll : Change env d (delAllMonitorSet d)
  /-- `ConfigDelMonitorItem` found an entry for a name. -/
  | removeFile {p : CString} {e : MonitorFileEntry} {root : RbTree MonitorFileEntry} :
      miRemove env.rb d.monitorFiles.rbTree p = (root, some e) →
      Change env d { d with monitorFiles.rbTree := root }
  /-- `LoadConfig` inserted a set. -/
  | loadSet {s : MonitorSetEntry} {root : RbTree MonitorSetEntry} : s.addr = d.nalloc →
      msInsert env.rb d.monitorSet.rbTree s = (root, 0) →
      Change env d { d with monitorSet.rbTree := root, nalloc := d.nalloc + 1 }
  /-- `LoadConfig` inserted an item of a loaded set. -/
  | loadFile {e : MonitorFileEntry} {root : RbTree MonitorFileEntry} {s : MonitorSetEntry} :
      e.addr = d.nalloc → miInsert env.rb d.monitorFiles.rbTree e = (root, 0) →
      s ∈ d.sets → s.guidSetId = e.guidSetId → e.pSetEntry = some s.addr →
      Change env d { d with monitorFiles.rbTree := root, nalloc := d.nalloc + 1 }

/-- A sequence of changes. -/
abbrev Changes (env : Env) : Driver → Driver → Prop := Relation.ReflTransGen (Change env)

theorem Changes.rest {env : Env} {d : Driver} (cnf : Bytes) (status : UInt32) {n : Nat}
    (h : d.nalloc ≤ n) :
    Changes env d { d with cnf := cnf, dwLastNormalShutdown := status, nalloc := n } :=
  .single (.rest cnf status n h)

/-- An entry that was allocated and not kept. -/
theorem Changes.lost (env : Env) (d : Driver) : Changes env d { d with nalloc := d.nalloc + 1 } :=
  Changes.rest d.cnf d.dwLastNormalShutdown (Nat.le_succ _)

theorem saveConfig_changes (env : Env) (d : Driver) : Changes env d (saveConfig d) :=
  Changes.rest _ d.dwLastNormalShutdown (Nat.le_refl _)

/-! ## Allocations and insertions -/

theorem entryAlloc_cases (env : Env) (d : Driver) :
    entryAlloc env d = ({ d with nalloc := d.nalloc + 1 }, some d.nalloc) ∨
    entryAlloc env d = ({ d with nalloc := d.nalloc + 1 }, none) := by
  unfold entryAlloc
  split
  · exact .inl rfl
  · exact .inr rfl

/-- An insertion is refused exactly where a search answers. -/
theorem msInsert_answer (rb : RbLib) (root : RbTree MonitorSetEntry) (s : MonitorSetEntry) :
    (msSearch root s.guidSetId = none ∧ ∃ root', msInsert rb root s = (root', 0)) ∨
    ((∃ t, msSearch root s.guidSetId = some t) ∧ msInsert rb root s = (root, -1)) := by
  rcases rb.insertBy_answer (msCompare s.guidSetId) s root with ⟨hnone, root', h⟩ | ⟨hsome, h⟩
  · exact .inl ⟨hnone, root', by rw [msInsert, h]⟩
  · exact .inr ⟨hsome, by rw [msInsert, h]⟩

theorem miInsert_answer (rb : RbLib) (root : RbTree MonitorFileEntry) (e : MonitorFileEntry) :
    (miSearch root e.wcsMonitorFile.toCString = none ∧ ∃ root', miInsert rb root e = (root', 0)) ∨
    ((∃ f, miSearch root e.wcsMonitorFile.toCString = some f) ∧
      miInsert rb root e = (root, -1)) := by
  rcases rb.insertBy_answer (miCompare e.wcsMonitorFile.toCString) e root with
    ⟨hnone, root', h⟩ | ⟨hsome, h⟩
  · exact .inl ⟨hnone, root', by rw [miInsert, h]⟩
  · exact .inr ⟨hsome, by rw [miInsert, h]⟩

/-! ## Loading -/

theorem loadSet_changes (env : Env) (r : SetRecord) (d : Driver) :
    Changes env d (loadSet env d.nalloc r { d with nalloc := d.nalloc + 1 }) := by
  unfold loadSet
  rcases msInsert_answer env.rb d.monitorSet.rbTree { toSetRecord := r, addr := d.nalloc } with
    ⟨-, root, h⟩ | ⟨-, h⟩
  · simp only [h]
    exact .single (.loadSet rfl h)
  · simp only [h]
    exact Changes.lost env d

theorem loadFile_changes (env : Env) (r : FileRecord) (d : Driver) :
    Changes env d (loadFile env d.nalloc r { d with nalloc := d.nalloc + 1 }) := by
  unfold loadFile
  split
  · next s hs =>
    obtain ⟨hmem, hguid⟩ := msSearch_sound hs
    rcases miInsert_answer env.rb d.monitorFiles.rbTree
      { toFileRecord := r, addr := d.nalloc, pSetEntry := some s.addr } with
      ⟨-, root, h⟩ | ⟨-, h⟩
    · simp only [h]
      exact .single (.loadFile rfl h hmem hguid rfl)
    · simp only [h]
      exact Changes.lost env d
  · exact Changes.lost env d

theorem loadArea_changes {α : Type} {env : Env} (c : Codec α) (off : Nat)
    {process : Nat → α → Driver → Driver}
    (hproc : ∀ a d, Changes env d (process d.nalloc a { d with nalloc := d.nalloc + 1 }))
    (n i : Nat) (d : Driver) : Changes env d (loadArea env c off process n i d).1 := by
  induction n generalizing i d with
  | zero => exact .refl
  | succ n ih =>
    unfold loadArea
    rcases entryAlloc_cases env d with h | h
    · simp only [h]
      split
      · exact Changes.lost env d
      · exact (hproc _ d).trans (ih _ _)
    · simp only [h]
      exact Changes.lost env d

theorem loadConfig_changes (env : Env) (d : Driver) : Changes env d (loadConfig env d) := by
  unfold loadConfig
  split
  · exact .refl
  · next cfh _ =>
    have hstart : Changes env d { d with dwLastNormalShutdown := cfh.ulLastShutdownStatus } :=
      Changes.rest d.cnf _ (Nat.le_refl _)
    have hsets := hstart.trans (loadArea_changes setCodec cfh.ulOffsetSet.toNat
      (loadSet_changes env) (cfh.ulSizeSet.toNat / setCodec.size) 0 _)
    simp only
    split
    · next h =>
      rw [h] at hsets
      exact hsets
    · next h =>
      rw [h] at hsets
      exact hsets.trans (loadArea_changes fileCodec _ (loadFile_changes env) _ _ _)

/-- A loop of `LoadConfig` keeps what the allocations and its rounds keep, each
round with a record of the file, and leaves the file. -/
theorem loadArea_invariant {α : Type} {P : Driver → Prop} {env : Env} {c : Codec α} {off : Nat}
    {process : Nat → α → Driver → Driver} (hcnf : ∀ addr a d, (process addr a d).cnf = d.cnf)
    {f : Bytes} (n i : Nat)
    (hproc : ∀ addr, ∀ a ∈ (readArea c f off n i).1, ∀ d, P d → P (process addr a d))
    (halloc : ∀ d : Driver, P d → P { d with nalloc := d.nalloc + 1 }) {d : Driver}
    (hf : d.cnf = f) (hd : P d) :
    P (loadArea env c off process n i d).1 ∧ (loadArea env c off process n i d).1.cnf = f := by
  induction n generalizing i d with
  | zero => exact ⟨hd, hf⟩
  | succ n ih =>
    unfold loadArea
    rcases entryAlloc_cases env d with h | h
    · simp only [h]
      cases hr : readRecord c d.cnf (off + i * c.size) with
      | none => exact ⟨halloc d hd, hf⟩
      | some a =>
        rw [hf] at hr
        rw [readArea, hr] at hproc
        exact ih (i + 1) (fun addr b hb => hproc addr b (List.mem_cons_of_mem _ hb))
          ((hcnf _ _ _).trans hf) (hproc _ a List.mem_cons_self _ (halloc d hd))
    · simp only [h]
      exact ⟨halloc d hd, hf⟩

/-! ## Adding -/

/-- `AddMonitorItem` takes the name: it is absolute, and it is covered by an
item or the entry for it can be allocated. -/
def Admissible (env : Env) (d : Driver) (name : FieldPath) : Prop :=
  2 ≤ name.bytes.length ∧ name.bytes.head? = some 47 ∧
    ((miSearch d.monitorFiles.rbTree name.toCString).isSome ∨ env.allocOk d.nalloc = true)

instance (env : Env) (d : Driver) (name : FieldPath) : Decidable (Admissible env d name) :=
  inferInstanceAs (Decidable (_ ∧ _))

/-- The entry that `AddMonitorItem` makes. -/
def newFileEntry (mfe : FileRecord) (addr : Nat) : MonitorFileEntry :=
  { toFileRecord := { mfe with bMonitor := 1 }, addr := addr, pSetEntry := none }

/-- `AddMonitorItem` finds the name covered, inserts an entry, or refuses. -/
theorem addMonitorItem_cases (env : Env) (mfe : FileRecord) (d : Driver) :
    (Admissible env d mfe.wcsMonitorFile ∧
      (∃ e, miSearch d.monitorFiles.rbTree mfe.wcsMonitorFile.toCString = some e) ∧
      addMonitorItem env mfe d = (d, 0)) ∨
    (Admissible env d mfe.wcsMonitorFile ∧
      miSearch d.monitorFiles.rbTree mfe.wcsMonitorFile.toCString = none ∧
      ∃ root, miInsert env.rb d.monitorFiles.rbTree (newFileEntry mfe d.nalloc) = (root, 0) ∧
        addMonitorItem env mfe d =
          ({ d with
            monitorFiles := ⟨d.monitorFiles.ulCounts + 1, root⟩, nalloc := d.nalloc + 1 }, 0)) ∨
    (¬ Admissible env d mfe.wcsMonitorFile ∧ ∃ n status, d.nalloc ≤ n ∧ status < 0 ∧
      addMonitorItem env mfe d = ({ d with nalloc := n }, status)) := by
  unfold addMonitorItem entryAlloc
  split
  · next hname =>
    refine .inr (.inr ⟨fun h => ?_, d.nalloc, -1, Nat.le_refl _, by decide, rfl⟩)
    rcases hname with hlen | hhead
    · exact absurd h.1 (Nat.not_le.mpr hlen)
    · exact hhead h.2.1
  · next hname =>
    rw [not_or, not_lt, not_not] at hname
    cases hs : miSearch d.monitorFiles.rbTree mfe.wcsMonitorFile.toCString with
    | some e => exact .inl ⟨⟨hname.1, hname.2, .inl (by rw [hs]; rfl)⟩, ⟨e, rfl⟩, rfl⟩
    | none =>
      by_cases halloc : env.allocOk d.nalloc = true
      · rcases miInsert_answer env.rb d.monitorFiles.rbTree (newFileEntry mfe d.nalloc) with
          ⟨-, root, hroot⟩ | ⟨⟨e, he⟩, -⟩
        · refine .inr (.inl ⟨⟨hname.1, hname.2, .inr halloc⟩, rfl, root, hroot, ?_⟩)
          rw [newFileEntry] at hroot
          simp [halloc, hroot]
        · exact absurd (hs.symm.trans he) nofun
      · refine .inr (.inr ⟨?_, d.nalloc + 1, -3, Nat.le_succ _, by decide, ?_⟩)
        · rintro ⟨-, -, hfound | hok⟩
          · simp [hs] at hfound
          · exact halloc hok
        · simp [halloc]

/-- The entry that `AddMonitorSet` makes. -/
def newSetEntry (pSet : SetRecord) (addr : Nat) : MonitorSetEntry :=
  { toSetRecord := { pSet with ulFileCount := 0 }, addr := addr }

theorem newMonitorSet_cases (env : Env) (pSet : SetRecord) (d : Driver) :
    (env.allocOk d.nalloc = true ∧ msSearch d.monitorSet.rbTree pSet.guidSetId = none ∧
      ∃ root, msInsert env.rb d.monitorSet.rbTree (newSetEntry pSet d.nalloc) = (root, 0) ∧
        newMonitorSet env pSet d =
          ({ d with monitorSet := ⟨d.monitorSet.ulCounts + 1, root⟩, nalloc := d.nalloc + 1 }, 0)) ∨
    (¬ (env.allocOk d.nalloc = true ∧ msSearch d.monitorSet.rbTree pSet.guidSetId = none) ∧
      ∃ status, status < 0 ∧ status ≠ -2 ∧
        newMonitorSet env pSet d = ({ d with nalloc := d.nalloc + 1 }, status)) := by
  unfold newMonitorSet entryAlloc
  by_cases halloc : env.allocOk d.nalloc = true
  · rcases msInsert_answer env.rb d.monitorSet.rbTree (newSetEntry pSet d.nalloc) with
      ⟨hnone, root, hroot⟩ | ⟨⟨t, ht⟩, hroot⟩
    · refine .inl ⟨halloc, hnone, root, hroot, ?_⟩
      rw [newSetEntry] at hroot
      simp [halloc, hroot]
    · refine .inr ⟨fun h => absurd (h.2.symm.trans ht) nofun, -1, by decide, by decide, ?_⟩
      rw [newSetEntry] at hroot
      simp [halloc, hroot]
  · refine .inr ⟨fun h => halloc h.1, -3, by decide, by decide, ?_⟩
    simp [halloc]

theorem addMonitorItem_changes (env : Env) (mfe : FileRecord) (d : Driver)
    (hset : ∃ s ∈ d.sets, s.guidSetId = mfe.guidSetId) :
    Changes env d (addMonitorItem env mfe d).1 := by
  rcases addMonitorItem_cases env mfe d with
    ⟨-, -, h⟩ | ⟨-, -, root, hroot, h⟩ | ⟨-, n, status, hn, -, h⟩
  · rw [h]
  · rw [h]
    exact .single (.addFile rfl hroot rfl hset)
  · rw [h]
    exact Changes.rest d.cnf d.dwLastNormalShutdown hn

/-- `AddMonitorItem` changes neither the sets nor their counter. -/
theorem addMonitorItem_monitorSet (env : Env) (mfe : FileRecord) (d : Driver) :
    (addMonitorItem env mfe d).1.monitorSet = d.monitorSet := by
  rcases addMonitorItem_cases env mfe d with
    ⟨-, -, h⟩ | ⟨-, -, root, -, h⟩ | ⟨-, n, status, -, -, h⟩ <;> rw [h]

theorem newMonitorSet_changes (env : Env) (pSet : SetRecord) (d : Driver) :
    Changes env d (newMonitorSet env pSet d).1 := by
  rcases newMonitorSet_cases env pSet d with ⟨-, -, root, hroot, h⟩ | ⟨-, status, -, -, h⟩
  · rw [h]
    exact .single (.addSet rfl hroot)
  · rw [h]
    exact Changes.lost env d

theorem addMonitorSet_changes (env : Env) (pSet : SetRecord) (bDelExist : Bool) (d : Driver) :
    Changes env d (addMonitorSet env pSet bDelExist d).1 := by
  unfold addMonitorSet
  split
  · split
    · exact (Relation.ReflTransGen.single (.delSet pSet.guidSetId)).trans
        (newMonitorSet_changes env pSet _)
    · exact .refl
  · exact newMonitorSet_changes env pSet d

@[simp] theorem sets_updSet (d : Driver) (addr : Nat) (f : MonitorSetEntry → MonitorSetEntry) :
    (d.updSet addr f).sets = d.sets.map fun s => if s.addr = addr then f s else s :=
  RbTree.toList_map _ _

@[simp] theorem files_updSet (d : Driver) (addr : Nat) (f : MonitorSetEntry → MonitorSetEntry) :
    (d.updSet addr f).files = d.files := rfl

@[simp] theorem files_updFile (d : Driver) (addr : Nat) (f : MonitorFileEntry → MonitorFileEntry) :
    (d.updFile addr f).files = d.files.map fun e => if e.addr = addr then f e else e :=
  RbTree.toList_map _ _

@[simp] theorem sets_updFile (d : Driver) (addr : Nat) (f : MonitorFileEntry → MonitorFileEntry) :
    (d.updFile addr f).sets = d.sets := rfl

theorem addFilterItems_changes (env : Env) (guid : GUID) (pmse : Nat) (items : List FilterItem)
    (status : Int) (d : Driver) (hset : ∃ s ∈ d.sets, s.guidSetId = guid) :
    Changes env d (addFilterItems env guid pmse items status d).1 := by
  induction items generalizing status d with
  | nil => exact .refl
  | cons item items ih =>
    unfold addFilterItems
    split
    · have hadd := addMonitorItem_changes env (requestedItem guid item) d hset
      have hsets : (addMonitorItem env (requestedItem guid item) d).1.sets = d.sets :=
        congrArg MonitorItemData.entries (addMonitorItem_monitorSet env _ d)
      simp only
      split
      · exact hadd
      · refine (hadd.tail (.countFile pmse)).trans (ih _ _ ?_)
        obtain ⟨s, hs, hg⟩ := hset
        rw [sets_updSet, hsets]
        refine ⟨_, List.mem_map_of_mem hs, ?_⟩
        split
        · exact hg
        · exact hg
    · exact ih _ _ hset

theorem configAddMonitorSet_changes (env : Env) (backupData : RealtimeBackupData)
    (bDelExistSet : Bool) (d : Driver) :
    Changes env d (configAddMonitorSet env backupData bDelExistSet d).1 := by
  unfold configAddMonitorSet
  have hadd := addMonitorSet_changes env
    ⟨backupData.guidSetId, backupData.wszBakCacheDir, 0, 0⟩ bDelExistSet d
  simp only
  split
  · exact hadd
  · split
    · exact hadd
    · next pmse hpmse =>
      have hitems := hadd.trans (addFilterItems_changes env backupData.guidSetId pmse.addr
        backupData.filterItems (addMonitorSet env
          ⟨backupData.guidSetId, backupData.wszBakCacheDir, 0, 0⟩ bDelExistSet d).2 _
        ⟨pmse, msSearch_sound hpmse⟩)
      split
      · next h =>
        rw [h] at hitems
        exact hitems
      · next h =>
        rw [h] at hitems
        exact hitems.trans (saveConfig_changes env _)

/-! ## Deleting -/

theorem delFilterItems_changes (env : Env) (items : List FilterItem) (d : Driver) :
    Changes env d (delFilterItems env items d) := by
  induction items generalizing d with
  | nil => exact .refl
  | cons item items ih =>
    unfold delFilterItems
    split
    · rcases miRemove_cases env.rb d.monitorFiles.rbTree item.wszFilterName.toCString with
        ⟨root, e, l, r, h, -⟩ | ⟨h, -⟩
      · simp only [h]
        exact (Relation.ReflTransGen.single (.removeFile h)).trans (ih _)
      · simp only [h]
        exact ih d
    · exact ih d

/-- Every command is a sequence of changes. -/
theorem processNetlinkCmd_changes (env : Env) (d : Driver) (c : Notification) :
    Changes env d (processNetlinkCmd env d c).1 := by
  cases c with
  | addSet backupData => exact configAddMonitorSet_changes env backupData true d
  | addItem backupData => exact configAddMonitorSet_changes env backupData false d
  | delSet backupData =>
    exact (Relation.ReflTransGen.single (.delSet backupData.guidSetId)).trans
      (saveConfig_changes env _)
  | delItem backupData =>
    exact (delFilterItems_changes env backupData.filterItems d).trans (saveConfig_changes env _)
  | delAll => exact (Relation.ReflTransGen.single .delAll).trans (saveConfig_changes env _)
  | queryRunningStatus => exact .refl
  | queryLastShutdownStatus => exact Changes.rest d.cnf _ (Nat.le_refl _)
  | resetLastShutdownStatus => exact Changes.rest d.cnf _ (Nat.le_refl _)
  | other => exact .refl

/-! ## Deleting by GUID -/

section

variable {α : Type} [DecidableEq α] (rb : RbLib) (guidOf : α → GUID) {items : MonitorItemData α}
  (h : items.entries.Nodup) (guid : GUID)

include h

/-- `DelMonitorItemsBySetId` takes entries out. -/
theorem delMonitorItemsBySetId_sublist :
    (delMonitorItemsBySetId rb guidOf items guid).entries.Sublist items.entries :=
  ErasingWalk.run_sublist rb _ _ h _

/-- The entries of the other GUIDs stay, in their order. -/
theorem delMonitorItemsBySetId_others :
    (delMonitorItemsBySetId rb guidOf items guid).entries.filter (fun a => guidOf a ≠ guid) =
      items.entries.filter fun a => guidOf a ≠ guid := by
  have hrun := ErasingWalk.filter_run rb (fun a => decide (guidOf a = guid)) (fun _ => decrement) h
    items.ulCounts
  simp only [← decide_not] at hrun
  exact hrun

theorem mem_delMonitorItemsBySetId {a : α} (hne : guidOf a ≠ guid) :
    a ∈ (delMonitorItemsBySetId rb guidOf items guid).entries ↔ a ∈ items.entries := by
  have hothers := congrArg (a ∈ ·) (delMonitorItemsBySetId_others rb guidOf h guid)
  simpa [hne] using hothers

/-- A GUID that one entry at most has is gone. -/
theorem delMonitorItemsBySetId_of_single
    (hsingle : ∀ a ∈ items.entries, ∀ b ∈ items.entries, guidOf a = guid → guidOf b = guid → a = b) :
    (delMonitorItemsBySetId rb guidOf items guid).entries =
      items.entries.filter fun a => guidOf a ≠ guid := by
  have hrun := ErasingWalk.run_exact_of_single rb (fun a => decide (guidOf a = guid))
    (fun _ => decrement) h items.ulCounts fun a ha b hb hqa hqb =>
      hsingle a ha b hb (of_decide_eq_true hqa) (of_decide_eq_true hqb)
  simp only [← decide_not] at hrun
  exact hrun

/-- `ulCounts` goes down by what is taken out. -/
theorem delMonitorItemsBySetId_ulCounts :
    (delMonitorItemsBySetId rb guidOf items guid).ulCounts =
      decrement^[items.entries.length -
        (delMonitorItemsBySetId rb guidOf items guid).entries.length] items.ulCounts :=
  ErasingWalk.acc_run _ h _ rb decrement

end

end RtBackup
