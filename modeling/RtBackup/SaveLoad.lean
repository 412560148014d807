import RtBackup.Counters

/-!
# Saving and loading again

`SaveConfig` goes through both trees in order, `LoadConfig` inserts what it reads
one record after the other and ignores the answers of the insertions. The sets
come back whatever they are. An item comes back if its set does, unless an item
before it in byte order has a name that is a prefix of its own.

Results:
1. `loadSets_perm`, `loadFiles_perm`: ascending records are all inserted when no
   name is a prefix of a later one.
2. `Loading.run`: a load never leaves nested names.
3. `load_undoes_save_iff`: in every reachable state a save and a load give back
   the same records exactly when no item name is a proper prefix of another and
   every item has its set.
4. `cut_save_records`: what is in the file after the first `k` writes of a save.
-/

namespace RtBackup

open ByteFile SearchTree PrefixOrder Runs

/-! ## Loading the sets -/

/-- What one round of the loop over the sets does to a new set. -/
theorem loadSet_new (env : Env) {r : SetRecord} {d : Driver} (hw : d.WF)
    (hnew : ∀ s ∈ d.sets, s.guidSetId ≠ r.guidSetId) :
    (loadSet env d.nalloc r { d with nalloc := d.nalloc + 1 }).sets.Perm
      ({ toSetRecord := r, addr := d.nalloc } :: d.sets) := by
  have hnone : msSearch d.monitorSet.rbTree r.guidSetId = none :=
    (msSearch_eq_none_iff hw.sets_sorted).mpr hnew
  unfold loadSet
  rcases msInsert_cases env.rb d.monitorSet.rbTree
    { toSetRecord := r, addr := d.nalloc } hw.sets_sorted with ⟨root, h, -, -, hperm⟩ | ⟨-, s, hs⟩
  · simp only [h]
    exact hperm
  · simp [hnone] at hs

theorem loadSets_perm (env : Env) (rs : List SetRecord) {d : Driver} (hw : d.WF)
    (hrs : rs.Pairwise fun a b => a.guidSetId ≠ b.guidSetId)
    (hnew : ∀ s ∈ d.sets, ∀ r ∈ rs, s.guidSetId ≠ r.guidSetId) :
    (loadRecords (loadSet env) d rs).WF ∧
      (loadRecords (loadSet env) d rs).monitorFiles = d.monitorFiles ∧
      (loadRecords (loadSet env) d rs).setRecords.Perm (rs ++ d.setRecords) := by
  induction rs generalizing d with
  | nil => exact ⟨hw, rfl, List.Perm.refl _⟩
  | cons r rs ih =>
    rw [List.pairwise_cons] at hrs
    have hstep := loadSet_new env (r := r) hw fun s hs => hnew s hs r List.mem_cons_self
    have hrest : ∀ s ∈ (loadSet env d.nalloc r { d with nalloc := d.nalloc + 1 }).sets,
        ∀ r' ∈ rs, s.guidSetId ≠ r'.guidSetId := by
      intro s hs r' hr'
      rcases List.mem_cons.mp (hstep.mem_iff.mp hs) with rfl | hold
      · exact hrs.1 r' hr'
      · exact hnew s hold r' (List.mem_cons_of_mem _ hr')
    obtain ⟨hw', hfiles, hperm⟩ := ih ((loadSet_changes env r d).wf hw) hrs.2 hrest
    refine ⟨hw', hfiles, hperm.trans ?_⟩
    exact (List.Perm.append_left rs (hstep.map _)).trans List.perm_middle

/-! ## Loading the items -/

/-- What one round of the loop over the items does: the item is inserted, or a name
in the tree is a prefix of its name, or its set is not there. -/
theorem loadFile_cases (env : Env) (r : FileRecord) {d : Driver} (hw : d.WF) :
    (loadFile env d.nalloc r { d with nalloc := d.nalloc + 1 }).monitorSet = d.monitorSet ∧
    ((∃ s ∈ d.sets, s.guidSetId = r.guidSetId ∧
        (loadFile env d.nalloc r { d with nalloc := d.nalloc + 1 }).files.Perm
          ({ toFileRecord := r, addr := d.nalloc, pSetEntry := some s.addr } :: d.files) ∧
        miSearch d.monitorFiles.rbTree r.wcsMonitorFile.toCString = none) ∨
      (loadFile env d.nalloc r { d with nalloc := d.nalloc + 1 }).files = d.files ∧
        ((∃ e ∈ d.files, e.wcsMonitorFile.bytes <+: r.wcsMonitorFile.bytes) ∨
          ∀ s ∈ d.sets, s.guidSetId ≠ r.guidSetId)) := by
  unfold loadFile
  cases hfind : msSearch d.monitorSet.rbTree r.guidSetId with
  | none => exact ⟨rfl, .inr ⟨rfl, .inr ((msSearch_eq_none_iff hw.sets_sorted).mp hfind)⟩⟩
  | some s =>
    obtain ⟨hs, hg⟩ := msSearch_sound hfind
    rcases miInsert_cases env.rb d.monitorFiles.rbTree
      { toFileRecord := r, addr := d.nalloc, pSetEntry := some s.addr } hw.files_sorted with
      ⟨root, h, hnone, -, hperm⟩ | ⟨h, e, he⟩
    · simp only [h]
      exact ⟨trivial, .inl ⟨s, hs, hg, hperm, hnone⟩⟩
    · simp only [h]
      exact ⟨trivial, .inr ⟨rfl, .inl ⟨e, miSearch_sound he⟩⟩⟩

/-- The names of a sequence of records ascend. -/
def NamesAscend (rs : List FileRecord) : Prop :=
  rs.Pairwise fun a b => a.wcsMonitorFile.bytes < b.wcsMonitorFile.bytes

/-- What holds while ascending records are loaded, with the records to come. -/
structure Loading (rs : List FileRecord) (d : Driver) : Prop where
  wf : d.WF
  unnested : Unnested d.files
  ascend : NamesAscend rs
  above : ∀ e ∈ d.files, ∀ r ∈ rs, e.wcsMonitorFile.bytes < r.wcsMonitorFile.bytes
  linked : ∀ e ∈ d.files, ∃ s ∈ d.sets, s.guidSetId = e.guidSetId ∧ e.pSetEntry = some s.addr

/-- A record is refused when a prefix of its name is there, and its own name is above
all names there. -/
theorem Loading.step (env : Env) {r : FileRecord} {rs : List FileRecord} {d : Driver}
    (h : Loading (r :: rs) d) :
    Loading rs (loadFile env d.nalloc r { d with nalloc := d.nalloc + 1 }) ∧
      (loadFile env d.nalloc r { d with nalloc := d.nalloc + 1 }).monitorSet = d.monitorSet := by
  obtain ⟨hbelow, hascend⟩ := List.pairwise_cons.mp h.ascend
  have hw := (loadFile_changes env r d).wf h.wf
  obtain ⟨hsame, hcase⟩ := loadFile_cases env r h.wf
  have hsets : (loadFile env d.nalloc r { d with nalloc := d.nalloc + 1 }).sets = d.sets := by
    rw [Driver.sets, hsame]
    rfl
  rcases hcase with ⟨s, hs, hg, hperm, hnone⟩ | ⟨hfiles, -⟩
  · refine ⟨⟨hw, ?_, hascend, ?_, ?_⟩, hsame⟩
    · refine Unnested.subset (Unnested.cons h.unnested ?_ ?_) hperm.subset
      · intro e he hpre
        -- a prefix of a smaller name cannot be above it
        exact absurd (h.above e he r List.mem_cons_self) (not_lt.mpr (le_of_isPrefix hpre))
      · intro e he hpre
        obtain ⟨f, hf⟩ := miSearch_complete (p := r.wcsMonitorFile.toCString) h.wf.files_sorted
          h.unnested he hpre
        simp [hnone] at hf
    · intro e he r' hr'
      rcases List.mem_cons.mp (hperm.mem_iff.mp he) with rfl | hold
      · exact hbelow r' hr'
      · exact h.above e hold r' (List.mem_cons_of_mem _ hr')
    · rw [hsets]
      intro e he
      rcases List.mem_cons.mp (hperm.mem_iff.mp he) with rfl | hold
      · exact ⟨s, hs, hg, rfl⟩
      · exact h.linked e hold
  · refine ⟨⟨hw, ?_, hascend, ?_, ?_⟩, hsame⟩
    · rw [hfiles]
      exact h.unnested
    · rw [hfiles]
      exact fun e he r' hr' => h.above e he r' (List.mem_cons_of_mem _ hr')
    · rw [hfiles, hsets]
      exact h.linked

/-- Loading ascending records never nests names, and every item loaded points to its
set. -/
theorem Loading.run (env : Env) {rs : List FileRecord} {d : Driver} (h : Loading rs d) :
    Loading [] (loadRecords (loadFile env) d rs) ∧
      (loadRecords (loadFile env) d rs).monitorSet = d.monitorSet := by
  induction rs generalizing d with
  | nil => exact ⟨h, rfl⟩
  | cons r rs ih =>
    obtain ⟨hstep, hsame⟩ := h.step env
    obtain ⟨hrun, hsame'⟩ := ih hstep
    exact ⟨hrun, hsame'.trans hsame⟩

/-- Records none of whose names is a prefix of a later one are all inserted. -/
theorem loadFiles_perm (env : Env) (rs : List FileRecord) {d : Driver} (hw : d.WF)
    (hrs : rs.Pairwise fun a b => ¬ a.wcsMonitorFile.bytes <+: b.wcsMonitorFile.bytes)
    (hnew : ∀ e ∈ d.files, ∀ r ∈ rs, ¬ e.wcsMonitorFile.bytes <+: r.wcsMonitorFile.bytes)
    (hset : ∀ r ∈ rs, ∃ s ∈ d.sets, s.guidSetId = r.guidSetId) :
    (loadRecords (loadFile env) d rs).fileRecords.Perm (rs ++ d.fileRecords) := by
  induction rs generalizing d with
  | nil => exact List.Perm.refl _
  | cons r rs ih =>
    rw [List.pairwise_cons] at hrs
    obtain ⟨hsets, ⟨s, -, -, hperm, -⟩ | ⟨-, ⟨e, he, hpre⟩ | hnoset⟩⟩ := loadFile_cases env r hw
    · have hrest : ∀ e ∈ (loadFile env d.nalloc r { d with nalloc := d.nalloc + 1 }).files,
          ∀ r' ∈ rs, ¬ e.wcsMonitorFile.bytes <+: r'.wcsMonitorFile.bytes := by
        intro e he r' hr'
        rcases List.mem_cons.mp (hperm.mem_iff.mp he) with rfl | hold
        · exact hrs.1 r' hr'
        · exact hnew e hold r' (List.mem_cons_of_mem _ hr')
      have hset' : ∀ r' ∈ rs,
          ∃ s ∈ (loadFile env d.nalloc r { d with nalloc := d.nalloc + 1 }).sets,
            s.guidSetId = r'.guidSetId := by
        rw [Driver.sets, hsets]
        exact fun r' hr' => hset r' (List.mem_cons_of_mem _ hr')
      refine (ih ((loadFile_changes env r d).wf hw) hrs.2 hrest hset').trans ?_
      exact (List.Perm.append_left rs (hperm.map _)).trans List.perm_middle
    · exact absurd hpre (hnew e he r List.mem_cons_self)
    · obtain ⟨s, hs, hg⟩ := hset r List.mem_cons_self
      exact absurd hg (hnoset s hs)

/-! ## A save and a load -/

/-- The kernel when no allocation fails. -/
def Env.reliable (env : Env) : Env := { env with allocOk := fun _ => true }

/-- `l` has the records of `d`, and every item of `l` points to its set. -/
structure RestoredBy (d l : Driver) : Prop where
  sets : l.setRecords.Perm d.setRecords
  files : l.fileRecords.Perm d.fileRecords
  linked : ∀ e ∈ l.files, ∃ s ∈ l.sets, s.guidSetId = e.guidSetId ∧ e.pSetEntry = some s.addr

/-- Every item has a set of its GUID. -/
def HaveSets (d : Driver) : Prop :=
  ∀ e ∈ d.files, ∃ s ∈ d.sets, s.guidSetId = e.guidSetId

instance (d : Driver) : Decidable (HaveSets d) :=
  inferInstanceAs (Decidable (∀ e ∈ d.files, ∃ s ∈ d.sets, _))

theorem setRecords_pairwise {d : Driver} (hw : d.WF) :
    d.setRecords.Pairwise fun a b => a.guidSetId ≠ b.guidSetId :=
  List.pairwise_map.mpr (hw.sets_sorted.imp fun hlt he => hlt.ne (congrArg GUID.image he))

theorem fileRecords_ascend {d : Driver} (hw : d.WF) : NamesAscend d.fileRecords :=
  List.pairwise_map.mpr hw.files_sorted

/-- Whether names are nested is a matter of the records. -/
theorem unnested_of_records {l m : List MonitorFileEntry} (hu : Unnested l)
    (h : ∀ e ∈ m, e.toFileRecord ∈ l.map (·.toFileRecord)) : Unnested m := by
  intro a ha b hb hpre
  obtain ⟨a', ha', hra⟩ := List.mem_map.mp (h a ha)
  obtain ⟨b', hb', hrb⟩ := List.mem_map.mp (h b hb)
  rw [← hra, ← hrb] at hpre ⊢
  exact hu a' ha' b' hb' hpre

/-- What a load of a saved configuration does, loop by loop. -/
theorem initMonitorSet_saveConfig (env : Env) {d : Driver} (hw : d.WF) (hfit : ConfigFits d)
    (nalloc : Nat) :
    ∃ sets : Driver, sets.WF ∧ sets.files = [] ∧ sets.setRecords.Perm d.setRecords ∧
      (initMonitorSet env.reliable (saveConfig d).cnf nalloc).sets =
        (loadRecords (loadFile env.reliable) sets d.fileRecords).sets ∧
      (initMonitorSet env.reliable (saveConfig d).cnf nalloc).files =
        (loadRecords (loadFile env.reliable) sets d.fileRecords).files := by
  obtain ⟨status, lost, hload⟩ := loadConfig_eq env.reliable (fun _ => rfl)
    (emptyDriver (saveConfig d).cnf nalloc)
  have hrecords : configRecords (emptyDriver (saveConfig d).cnf nalloc).cnf =
      (d.setRecords, d.fileRecords) := configRecords_saveConfig hfit
  rw [hrecords] at hload
  have hw₀ : Driver.WF { emptyDriver (saveConfig d).cnf nalloc with
      dwLastNormalShutdown := status } :=
    (emptyDriver_wf (saveConfig d).cnf nalloc).sublist (List.Sublist.refl _) (List.Sublist.refl _)
      (Nat.le_refl _)
  obtain ⟨hws, hfiles, hperm⟩ := loadSets_perm env.reliable d.setRecords hw₀
    (setRecords_pairwise hw) fun _ hs => absurd hs List.not_mem_nil
  have hperm' := hperm.trans (List.append_nil _ ▸ List.Perm.refl _ :
    (d.setRecords ++ []).Perm d.setRecords)
  refine ⟨_, hws, congrArg MonitorItemData.entries hfiles, hperm', ?_, ?_⟩
  · rw [initMonitorSet, hload]
    rfl
  · rw [initMonitorSet, hload]
    rfl

/-- A set with a GUID is among records of the same sets. -/
theorem exists_set_of_perm {d l : Driver} (hperm : l.setRecords.Perm d.setRecords) {guid : GUID}
    (h : ∃ s ∈ d.sets, s.guidSetId = guid) : ∃ s ∈ l.sets, s.guidSetId = guid := by
  obtain ⟨s, hs, hg⟩ := h
  obtain ⟨t, ht, htr⟩ := List.mem_map.mp (hperm.mem_iff.mpr (List.mem_map_of_mem hs))
  exact ⟨t, ht, (congrArg SetRecord.guidSetId htr).trans hg⟩

/-- Without nested names and with all sets there everything comes back, else not. -/
theorem restoredBy_iff (env : Env) {d : Driver} (hw : d.WF) (hfit : ConfigFits d) (nalloc : Nat) :
    RestoredBy d (initMonitorSet env.reliable (saveConfig d).cnf nalloc) ↔
      Unnested d.files ∧ HaveSets d := by
  obtain ⟨sets, hws, hnil, hperm, hls, hlf⟩ := initMonitorSet_saveConfig env hw hfit nalloc
  have hempty : ∀ e, e ∉ sets.files := fun e he => by simp [hnil] at he
  have hstart : Loading d.fileRecords sets :=
    ⟨hws, fun a ha => absurd ha (hempty a), fileRecords_ascend hw,
      fun e he => absurd he (hempty e), fun e he => absurd he (hempty e)⟩
  obtain ⟨hloaded, hsame⟩ := hstart.run env.reliable
  constructor
  · intro h
    refine ⟨unnested_of_records hloaded.unnested fun e he => ?_, fun e he => ?_⟩
    · have hmem : e.toFileRecord ∈ d.fileRecords := List.mem_map_of_mem he
      rw [← hlf]
      exact h.files.mem_iff.mpr hmem
    · obtain ⟨f, hf, hrec⟩ := List.mem_map.mp (h.files.mem_iff.mpr (List.mem_map_of_mem he))
      obtain ⟨s, hs, hg, -⟩ := h.linked f hf
      exact exists_set_of_perm h.sets.symm ⟨s, hs, hg.trans (congrArg FileRecord.guidSetId hrec)⟩
  · rintro ⟨hunnested, hhave⟩
    have hnest : d.fileRecords.Pairwise fun a b =>
        ¬ a.wcsMonitorFile.bytes <+: b.wcsMonitorFile.bytes := by
      refine List.pairwise_map.mpr (hw.files_sorted.imp_of_mem fun {a b} ha hb hlt hpre => ?_)
      exact hlt.ne (hunnested a ha b hb hpre)
    have hset : ∀ r ∈ d.fileRecords, ∃ s ∈ sets.sets, s.guidSetId = r.guidSetId := by
      intro r hr
      obtain ⟨e, he, rfl⟩ := List.mem_map.mp hr
      exact exists_set_of_perm hperm (hhave e he)
    have hfiles := loadFiles_perm env.reliable d.fileRecords hws hnest
      (fun e he => absurd he (hempty e)) hset
    have hnone : sets.fileRecords = [] := by
      rw [Driver.fileRecords, hnil, List.map_nil]
    rw [hnone, List.append_nil] at hfiles
    refine ⟨?_, ?_, ?_⟩
    · rw [Driver.setRecords, hls, Driver.sets, hsame]
      exact hperm
    · rw [Driver.fileRecords, hlf]
      exact hfiles
    · rw [hlf, hls]
      exact hloaded.linked

/-- In every state of every run: saving and loading into empty trees, with all
reads, writes and allocations succeeding, gives the same records back with every
item pointing to its set, exactly when no item name is a proper prefix of
another and every item has its set. -/
theorem load_undoes_save_iff (env : Env) (cnf : Bytes) (nalloc : Nat) (ops : List Op) :
    ∀ d ∈ states (opStep env) (initMonitorSet env cnf nalloc) ops, ConfigFits d →
      (RestoredBy d (initMonitorSet env.reliable (saveConfig d).cnf d.nalloc) ↔
        Unnested d.files ∧ HaveSets d) :=
  fun d hd hfit => restoredBy_iff env (states_wf env cnf nalloc ops d hd) hfit d.nalloc

/-- A request with the items `/a/b` and `/a`, in this order. -/
def nestedRequest : RealtimeBackupData where
  guidSetId := guidZero
  wszBakCacheDir := oneItemRequest.wszBakCacheDir
  filterItems := [⟨filterTypeDir, nameAB⟩, ⟨filterTypeDir, nameA⟩]

theorem load_undoes_save_iff_one_item :
    let d := opStep quietKernel (initMonitorSet quietKernel [] 0) (.command (.addSet oneItemRequest))
    RestoredBy d (initMonitorSet quietKernel.reliable (saveConfig d).cnf d.nalloc) ↔
      Unnested d.files ∧ HaveSets d :=
  load_undoes_save_iff quietKernel [] 0 [.command (.addSet oneItemRequest)] _
    (List.mem_cons_of_mem _ List.mem_cons_self) (by decide +kernel)

/-- After `/a/b` and `/a` were added a load brings back `/a` alone. -/
theorem nested_item_not_restored :
    let d := opStep quietKernel (initMonitorSet quietKernel [] 0) (.command (.addSet nestedRequest))
    let l := initMonitorSet quietKernel.reliable (saveConfig d).cnf d.nalloc
    d.files.map (·.wcsMonitorFile) = [nameA, nameAB] ∧ l.files.map (·.wcsMonitorFile) = [nameA] ∧
      ¬ l.fileRecords.Perm d.fileRecords := by
  decide +kernel

/-! ## Cut saves -/

/-- A save over a file left by an earlier save, of which the first `k` writes
reach the file: no write leaves the old records, all writes leave the new ones,
and anything in between leaves none. -/
theorem cut_save_records (old new : Driver) (hold : ConfigFits old) (hnew : ConfigFits new)
    (hcnf : new.cnf = (saveConfig old).cnf) (k : Nat) :
    (k = 0 → configRecords (saveConfigUpTo k new).cnf = (old.setRecords, old.fileRecords)) ∧
    (0 < k → k < (saveWrites new).length → configRecords (saveConfigUpTo k new).cnf = ([], [])) ∧
    ((saveWrites new).length ≤ k →
      configRecords (saveConfigUpTo k new).cnf = (new.setRecords, new.fileRecords)) := by
  refine ⟨fun hk => ?_, fun hk hlt => configRecords_saveConfigUpTo hnew hk hlt, fun hk => ?_⟩
  · subst hk
    have hfile : (saveConfigUpTo 0 new).cnf = (saveConfig old).cnf := hcnf
    rw [hfile]
    exact configRecords_saveConfig hold
  · have hfile : saveConfigUpTo k new = saveConfig new := by
      rw [saveConfigUpTo, List.take_of_length_le hk, saveConfig]
    rw [hfile]
    exact configRecords_saveConfig hnew

/-- The state after an ADDSET of one item. -/
def firstSaved : Driver :=
  opStep quietKernel (initMonitorSet quietKernel [] 0) (.command (.addSet oneItemRequest))

theorem cut_save_records_one_item :
    (1 = 0 → configRecords (saveConfigUpTo 1 (saveConfig firstSaved)).cnf =
      (firstSaved.setRecords, firstSaved.fileRecords)) ∧
    (0 < 1 → 1 < (saveWrites (saveConfig firstSaved)).length →
      configRecords (saveConfigUpTo 1 (saveConfig firstSaved)).cnf = ([], [])) ∧
    ((saveWrites (saveConfig firstSaved)).length ≤ 1 →
      configRecords (saveConfigUpTo 1 (saveConfig firstSaved)).cnf =
        ((saveConfig firstSaved).setRecords, (saveConfig firstSaved).fileRecords)) :=
  cut_save_records firstSaved (saveConfig firstSaved) (by decide +kernel) (by decide +kernel) rfl 1

/-- After the first write of a save neither the old records nor the new ones are
in the file. -/
theorem cut_save_loses_records :
    let old := saveConfig firstSaved
    let new := (processNetlinkCmd quietKernel old (.delItem oneItemRequest)).1
    let cut := saveConfigUpTo 1 { new with cnf := old.cnf }
    configRecords cut.cnf ≠ (old.setRecords, old.fileRecords) ∧
      configRecords cut.cnf ≠ (new.setRecords, new.fileRecords) := by
  decide +kernel

end RtBackup
