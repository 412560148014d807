import RtBackup.Capture

/-!
# Deleting items (`ConfigDelMonitorItem`)

For each name of the request the entry goes that `mi_search` finds. The GUID is
copied into a `MONITOR_FILE_ENTRY` of which only the name is used afterwards, and
the search is the one for paths: it ends on an entry of any set whose name is a
prefix of the one asked for.

Results:
1. `delFilterItems_exact_iff`: for which requests exactly the entries asked for
   go, along the rounds of the loop.
2. `roundsExact_of_own_names`: a request that no name interferes with.
3. `del_item_exact_iff`: in every reachable configuration.
4. `item_of_prefix_deleted`: deleting `/a/b` deletes `/a`.
-/

namespace RtBackup

open ByteFile SearchTree PrefixOrder Runs

/-! ## Definitions -/

/-- The entry is one that the request asks to delete. -/
def AskedFor (backupData : RealtimeBackupData) (e : MonitorFileEntry) : Prop :=
  e.guidSetId = backupData.guidSetId ∧
    ∃ item ∈ backupData.filterItems, item.known ∧ e.wcsMonitorFile = item.wszFilterName

instance (backupData : RealtimeBackupData) (e : MonitorFileEntry) :
    Decidable (AskedFor backupData e) :=
  inferInstanceAs (Decidable (_ ∧ ∃ item ∈ backupData.filterItems, _))

/-- The search for an item ends on an entry asked for, if on any; and it ends on
those that no later item of the request can end on. -/
def FindsAsked (backupData : RealtimeBackupData) (item : FilterItem) (rest : List FilterItem)
    (root : RbTree MonitorFileEntry) : Prop :=
  (∀ e, miSearch root item.wszFilterName.toCString = some e → AskedFor backupData e) ∧
  ∀ e ∈ root.toList, AskedFor backupData e →
    e.wcsMonitorFile.bytes <+: item.wszFilterName.bytes →
    (∀ later ∈ rest, later.known → ¬ e.wcsMonitorFile.bytes <+: later.wszFilterName.bytes) →
    miSearch root item.wszFilterName.toCString = some e

/-- Every round of the loop that searches finds what it should. -/
def RoundsExact (env : Env) (backupData : RealtimeBackupData) : List FilterItem → Driver → Prop
  | [], _ => True
  | item :: rest, d =>
    (item.known → FindsAsked backupData item rest d.monitorFiles.rbTree) ∧
      RoundsExact env backupData rest (delFilterItems env [item] d)

/-- What is asked for and still there can be found by one of the items. -/
def Pending (backupData : RealtimeBackupData) (items : List FilterItem) (d : Driver) : Prop :=
  ∀ e ∈ d.files, AskedFor backupData e →
    ∃ item ∈ items, item.known ∧ e.wcsMonitorFile.bytes <+: item.wszFilterName.bytes

/-! ## One round -/

section

variable {env : Env} {item : FilterItem} {d : Driver}

theorem delFilterItems_cons (env : Env) (item : FilterItem) (items : List FilterItem)
    (d : Driver) :
    delFilterItems env (item :: items) d =
      delFilterItems env items (delFilterItems env [item] d) := by
  simp only [delFilterItems]
  split <;> rfl

theorem delFilterItems_unknown (h : ¬ item.known) : delFilterItems env [item] d = d :=
  if_neg h

/-- A round takes out the entry that the search finds. -/
theorem delFilterItems_round (env : Env) (h : item.known) (d : Driver) :
    (∃ e l r, miSearch d.monitorFiles.rbTree item.wszFilterName.toCString = some e ∧
      d.files = l ++ e :: r ∧ (delFilterItems env [item] d).files = l ++ r) ∨
    (miSearch d.monitorFiles.rbTree item.wszFilterName.toCString = none ∧
      (delFilterItems env [item] d).files = d.files) := by
  simp only [delFilterItems, if_pos h]
  rcases miRemove_cases env.rb d.monitorFiles.rbTree item.wszFilterName.toCString with
    ⟨root, e, l, r, heq, hfound, hl, hr⟩ | ⟨heq, hnone⟩
  · rw [heq]
    exact .inl ⟨e, l, r, hfound, hl, hr⟩
  · rw [heq]
    exact .inr ⟨hnone, rfl⟩

theorem delFilterItems_sublist (env : Env) (items : List FilterItem) (d : Driver) :
    (delFilterItems env items d).files.Sublist d.files := by
  induction items generalizing d with
  | nil => exact List.Sublist.refl _
  | cons item items ih =>
    rw [delFilterItems_cons]
    refine (ih _).trans ?_
    by_cases hk : item.known
    · rcases delFilterItems_round env hk d with ⟨e, l, r, -, hl, hr⟩ | ⟨-, heq⟩
      · rw [hl, hr]
        exact (List.sublist_cons_self e r).append_left l
      · rw [heq]
    · rw [delFilterItems_unknown hk]

/-- The entry found is there once only. -/
theorem delFilterItems_gone (hk : item.known) (hs : d.files.Pairwise FileLt)
    {e : MonitorFileEntry}
    (he : miSearch d.monitorFiles.rbTree item.wszFilterName.toCString = some e) :
    e ∉ (delFilterItems env [item] d).files := by
  rcases delFilterItems_round env hk d with ⟨f, l, r, hf, hl, hr⟩ | ⟨hnone, -⟩
  · obtain rfl : f = e := Option.some.inj (hf.symm.trans he)
    have hnd : d.files.Nodup :=
      hs.imp fun hlt => ne_of_apply_ne (·.wcsMonitorFile.bytes) (ne_of_lt hlt)
    rw [hl, List.nodup_middle, List.nodup_cons] at hnd
    rw [hr]
    exact hnd.1
  · exact absurd (hnone.symm.trans he) nofun

theorem delFilterItems_stays (env : Env) {e : MonitorFileEntry} (he : e ∈ d.files)
    (hne : item.known → miSearch d.monitorFiles.rbTree item.wszFilterName.toCString ≠ some e) :
    e ∈ (delFilterItems env [item] d).files := by
  by_cases hk : item.known
  · rcases delFilterItems_round env hk d with ⟨f, l, r, hf, hl, hr⟩ | ⟨-, heq⟩
    · rw [hl, List.mem_append, List.mem_cons] at he
      rw [hr, List.mem_append]
      exact he.imp_right fun h => h.resolve_left fun hef => hne hk (hef ▸ hf)
    · rw [heq]
      exact he
  · rw [delFilterItems_unknown hk]
    exact he

/-- An entry stays if its name is a prefix of no name of the request. -/
theorem delFilterItems_keeps (env : Env) {items : List FilterItem} {e : MonitorFileEntry}
    (hnone : ∀ item ∈ items, item.known →
      ¬ e.wcsMonitorFile.bytes <+: item.wszFilterName.bytes) (he : e ∈ d.files) :
    e ∈ (delFilterItems env items d).files := by
  induction items generalizing d with
  | nil => exact he
  | cons item items ih =>
    rw [delFilterItems_cons]
    refine ih (fun later hl => hnone later (List.mem_cons_of_mem _ hl)) ?_
    exact delFilterItems_stays env he fun hk hf =>
      hnone item List.mem_cons_self hk (miSearch_sound hf).2

end

/-! ## The loop -/

section

variable {env : Env} {backupData : RealtimeBackupData} {item : FilterItem}
  {items : List FilterItem} {d : Driver}

/-- After a round that is right, what is left to do is what was asked for, without
the entry that is gone. -/
theorem FindsAsked.round (env : Env) (h : FindsAsked backupData item items d.monitorFiles.rbTree)
    (hk : item.known) (hs : d.files.Pairwise FileLt)
    (hp : Pending backupData (item :: items) d) :
    Pending backupData items (delFilterItems env [item] d) ∧
    (delFilterItems env [item] d).files.filter (fun e => ¬ AskedFor backupData e) =
      d.files.filter fun e => ¬ AskedFor backupData e := by
  constructor
  · intro e he hasked
    have hold := (delFilterItems_sublist env [item] d).subset he
    by_contra hlater
    push Not at hlater
    obtain ⟨i, hi, hik, hpre⟩ := hp e hold hasked
    rcases List.mem_cons.mp hi with rfl | hmem
    · exact delFilterItems_gone hk hs (h.2 e hold hasked hpre hlater) he
    · exact absurd hpre (hlater i hmem hik)
  · rcases delFilterItems_round env hk d with ⟨f, l, r, hf, hl, hr⟩ | ⟨-, heq⟩
    · rw [hl, hr, List.filter_append, List.filter_append,
        List.filter_cons_of_neg (by simp [h.1 f hf])]
    · rw [heq]

/-- A loop that takes out exactly what was asked for starts with a round that is
right: what it finds does not come back, and what it misses stays. -/
theorem findsAsked_of_exact (hk : item.known) (hs : d.files.Pairwise FileLt)
    (hexact : (delFilterItems env (item :: items) d).files =
      d.files.filter fun e => ¬ AskedFor backupData e) :
    FindsAsked backupData item items d.monitorFiles.rbTree := by
  rw [delFilterItems_cons] at hexact
  refine ⟨fun e he => ?_, fun e he hasked hpre hlater => ?_⟩
  · by_contra hnot
    have hmem : e ∈ d.files.filter fun e => ¬ AskedFor backupData e :=
      List.mem_filter.mpr ⟨(miSearch_sound he).1, by simpa using hnot⟩
    rw [← hexact] at hmem
    exact delFilterItems_gone hk hs he ((delFilterItems_sublist env items _).subset hmem)
  · by_contra hmiss
    have hstays := delFilterItems_stays env he fun _ => hmiss
    have hend := delFilterItems_keeps env hlater hstays
    rw [hexact, List.mem_filter] at hend
    simp [hasked] at hend

/-- Exactly what is asked for goes if and only if every round finds what it
should. -/
theorem delFilterItems_exact_iff (hs : d.files.Pairwise FileLt)
    (hp : Pending backupData items d) :
    (delFilterItems env items d).files = d.files.filter (fun e => ¬ AskedFor backupData e) ↔
      RoundsExact env backupData items d := by
  induction items generalizing d with
  | nil =>
    refine iff_of_true (List.filter_eq_self.mpr fun e he => ?_).symm trivial
    simp only [decide_not, Bool.not_eq_true', decide_eq_false_iff_not]
    intro hasked
    obtain ⟨item, hi, -⟩ := hp e he hasked
    exact absurd hi List.not_mem_nil
  | cons item items ih =>
    rw [RoundsExact]
    have hs' : (delFilterItems env [item] d).files.Pairwise FileLt :=
      hs.sublist (delFilterItems_sublist env [item] d)
    by_cases hk : item.known
    · by_cases hfinds : FindsAsked backupData item items d.monitorFiles.rbTree
      · obtain ⟨hpending, hfilter⟩ := hfinds.round env hk hs hp
        rw [delFilterItems_cons, ← hfilter, ih hs' hpending, and_iff_right fun _ => hfinds]
      · exact iff_of_false (fun hexact => hfinds (findsAsked_of_exact hk hs hexact))
          fun h => hfinds (h.1 hk)
    · have hpending : Pending backupData items d := by
        intro e he hasked
        obtain ⟨i, hi, hik, hpre⟩ := hp e he hasked
        rcases List.mem_cons.mp hi with rfl | hmem
        · exact absurd hik hk
        · exact ⟨i, hmem, hik, hpre⟩
      rw [delFilterItems_cons, delFilterItems_unknown hk, ih hs hpending]
      exact (and_iff_right fun h => absurd h hk).symm

/-- No name interferes: the names in the tree that are prefixes of requested ones
are these names themselves, and belong to the set of the request. -/
theorem roundsExact_of_own_names (hs : d.files.Pairwise FileLt)
    (hitems : ∀ item ∈ items, item ∈ backupData.filterItems)
    (hown : ∀ item ∈ items, item.known → ∀ e ∈ d.files,
      e.wcsMonitorFile.bytes <+: item.wszFilterName.bytes →
      e.wcsMonitorFile = item.wszFilterName ∧ e.guidSetId = backupData.guidSetId) :
    RoundsExact env backupData items d := by
  induction items generalizing d with
  | nil => trivial
  | cons item items ih =>
    have hsub := (delFilterItems_sublist env [item] d).subset
    refine ⟨fun hk => ⟨fun e he => ?_, fun e he _ hpre _ => ?_⟩, ?_⟩
    · obtain ⟨hmem, hpre⟩ := miSearch_sound he
      obtain ⟨hname, hg⟩ := hown item List.mem_cons_self hk e hmem hpre
      exact ⟨hg, item, hitems item List.mem_cons_self, hk, hname⟩
    · obtain ⟨hname, -⟩ := hown item List.mem_cons_self hk e he hpre
      rw [← hname]
      refine RbTree.prefixSearch_eq_of_mem hs he fun f hf hfe => ?_
      rw [(hown item List.mem_cons_self hk f hf (hname ▸ hfe)).1, hname]
    · refine ih (hs.sublist (delFilterItems_sublist env [item] d))
        (fun i hi => hitems i (List.mem_cons_of_mem _ hi)) fun i hi hk e he => ?_
      exact hown i (List.mem_cons_of_mem _ hi) hk e (hsub he)

end

/-! ## Reachable configurations -/

/-- In every reachable configuration `ConfigDelMonitorItem` takes out exactly the
entries asked for if and only if every round finds what it should. -/
theorem del_item_exact_iff (env : Env) (cnf : Bytes) (nalloc : Nat) (events : List Event) (s : Sys)
    (hs : s ∈ states (sysStep env) (Sys.start env cnf nalloc) events)
    (backupData : RealtimeBackupData) :
    (configDelMonitorItem env backupData s.driver).1.files =
        s.driver.files.filter (fun e => ¬ AskedFor backupData e) ↔
      RoundsExact env backupData backupData.filterItems s.driver := by
  have hw := (invariant (fun s ev => sysStep_sound env s ev) (start_sound env cnf nalloc)
    events s hs).wf
  refine delFilterItems_exact_iff hw.files_sorted fun e _ hasked => ?_
  obtain ⟨-, item, hi, hk, hname⟩ := hasked
  exact ⟨item, hi, hk, hname ▸ List.prefix_refl _⟩

/-! ## Names side by side, and a name below the one that goes -/

/-- The items `/a` and `/c` of one set and `/b` of another. -/
def threeItemCommands : List Event :=
  [.command (.addSet { oneItemRequest with
      filterItems := [⟨filterTypeDir, nameA⟩, ⟨filterTypeDir, nameC⟩] }),
    .command (.addSet { oneItemRequest with
      guidSetId := guidOne, filterItems := [⟨filterTypeDir, nameB⟩] })]

def threeItems : Sys :=
  run (sysStep quietKernel) (Sys.start quietKernel [] 0) threeItemCommands

/-- Deleting `/c` leaves `/a` and `/b`. -/
theorem del_item_exact_iff_three_items :
    let request := { oneItemRequest with filterItems := [⟨filterTypeDir, nameC⟩] }
    threeItems.driver.files.map (·.wcsMonitorFile) = [nameA, nameB, nameC] ∧
      (configDelMonitorItem quietKernel request threeItems.driver).1.files =
        threeItems.driver.files.filter fun e => ¬ AskedFor request e := by
  intro request
  have hw : threeItems.driver.WF := (invariant (fun s ev => sysStep_sound quietKernel s ev)
    (start_sound quietKernel [] 0) threeItemCommands threeItems (run_mem_states _ _)).wf
  refine ⟨by decide +kernel, ?_⟩
  exact (del_item_exact_iff quietKernel [] 0 threeItemCommands threeItems (run_mem_states _ _)
    request).mpr (roundsExact_of_own_names hw.files_sorted (fun _ hi => hi) (by decide +kernel))

/-- A request for the name `/a/b`. -/
def requestAB : RealtimeBackupData :=
  { oneItemRequest with filterItems := [⟨filterTypeDir, nameAB⟩] }

/-- Only `/a` is monitored, and the request to delete `/a/b` deletes it. -/
theorem item_of_prefix_deleted :
    dirA ∈ states (sysStep quietKernel) (Sys.start quietKernel [] 0)
      [.command (.addSet oneItemRequest)] ∧
    (∃ e ∈ dirA.driver.files, ¬ AskedFor requestAB e ∧
      e ∉ (configDelMonitorItem quietKernel requestAB dirA.driver).1.files) ∧
    (configDelMonitorItem quietKernel requestAB dirA.driver).1.files ≠
      dirA.driver.files.filter fun e => ¬ AskedFor requestAB e :=
  ⟨run_mem_states _ _, by decide +kernel, by decide +kernel⟩

end RtBackup
