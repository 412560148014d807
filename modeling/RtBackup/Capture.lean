import RtBackup.NameTree
import RtBackup.Restore
import RtBackup.Threads

/-!
# Paths that an item captures (`GetMonitorFileEntryByabspath`)

An item is found for every path that its name is a prefix of, byte by byte. The
search looks neither for a separator behind the name nor at `bDirectory`, so that
`/a` captures `/ab`, and a file whatever path its name begins.

Results:
1. `exists_captured`: a name that the search finds, and that does not end in a
   separator, captures a path that does not lie in it.
2. `lookups_lie_in_iff`: for which trees every path found lies in its item.
3. `component_wise_iff`: in every reachable configuration.
4. `sibling_captured`: `/a` captures `/ab`.
-/

namespace RtBackup

open ByteFile SearchTree PrefixOrder Runs

/-! ## Definitions -/

/-- A name without the separator at its end. -/
def stem (name : Bytes) : Bytes := if name.getLast? = some slash then name.dropLast else name

/-- The path is that of the item, or the item is a directory and the path goes on
behind it with a separator. -/
def LiesIn (p : CString) (e : MonitorFileEntry) : Prop :=
  p.bytes = e.wcsMonitorFile.bytes ∨ p.bytes = stem e.wcsMonitorFile.bytes ∨
    e.bDirectory ≠ 0 ∧ ∃ rest, p.bytes = stem e.wcsMonitorFile.bytes ++ slash :: rest

def Absolute (p : CString) : Prop := p.bytes.head? = some slash

instance (p : CString) : Decidable (Absolute p) := inferInstanceAs (Decidable (_ = _))

/-- The shortest absolute path that begins with the name of an item, if there is
one; the empty name is that of the root. -/
def MonitorFileEntry.firstPath (e : MonitorFileEntry) : CString :=
  if e.wcsMonitorFile.bytes = [] then ⟨[slash], slash_noNul⟩ else e.wcsMonitorFile.toCString

/-- The item is a directory, and its name ends where a component does. -/
def Closed (e : MonitorFileEntry) : Prop :=
  e.bDirectory ≠ 0 ∧
    (e.wcsMonitorFile.bytes = [] ∨ e.wcsMonitorFile.bytes.getLast? = some slash)

instance (e : MonitorFileEntry) : Decidable (Closed e) := inferInstanceAs (Decidable (_ ∧ _))

/-! ## Components -/

theorem stem_append {name : Bytes} (h : name.getLast? = some slash) :
    stem name ++ [slash] = name := by
  obtain ⟨front, rfl⟩ := List.getLast?_eq_some_iff.mp h
  rw [stem, if_pos h, List.dropLast_concat]

theorem length_stem_le (name : Bytes) : (stem name).length ≤ name.length := by
  unfold stem
  split
  · rw [List.length_dropLast]
    exact Nat.sub_le _ _
  · exact Nat.le_refl _

/-- Whatever absolute path begins with a closed name lies in it. -/
theorem liesIn_of_closed {p : CString} {e : MonitorFileEntry} (hp : Absolute p) (h : Closed e)
    (hpre : e.wcsMonitorFile.bytes <+: p.bytes) : LiesIn p e := by
  obtain ⟨hdir, hempty | hlast⟩ := h
  · obtain ⟨rest, hrest⟩ := List.head?_eq_some_iff.mp hp
    refine .inr (.inr ⟨hdir, rest, ?_⟩)
    rw [hempty]
    exact hrest
  · obtain ⟨rest, hrest⟩ := hpre
    refine .inr (.inr ⟨hdir, rest, ?_⟩)
    rw [← hrest, List.append_cons, stem_append hlast]

/-- A path with one byte more than an open name does not lie in it. -/
theorem not_liesIn_of_not_closed {p : CString} {e : MonitorFileEntry} (h : ¬ Closed e)
    (hp : p.bytes = e.wcsMonitorFile.bytes ++ [1]) : ¬ LiesIn p e := by
  rintro (heq | heq | ⟨hdir, rest, heq⟩)
  · have hlen := congrArg List.length (hp.symm.trans heq)
    simp at hlen
  · have hlen := congrArg List.length (hp.symm.trans heq)
    have hle := length_stem_le e.wcsMonitorFile.bytes
    simp only [List.length_append, List.length_singleton] at hlen
    omega
  · have hopen : e.wcsMonitorFile.bytes.getLast? ≠ some slash := fun hl => h ⟨hdir, .inr hl⟩
    rw [hp, stem, if_neg hopen, List.append_cancel_left_eq] at heq
    exact absurd (List.cons.inj heq).1 (by decide)

/-! ## The next path -/

/-- The path with the least byte there is behind a name. -/
def nextPath (name : CString) : CString where
  bytes := name.bytes ++ [1]
  noNul h := by
    rcases List.mem_append.mp h with h | h
    · exact name.noNul h
    · exact absurd (List.mem_singleton.mp h) (by decide)

/-- No string without NUL lies between a name and the next path. -/
theorem nextPath_le {name s : CString} (h : name.bytes < s.bytes)
    (hne : s.bytes ≠ (nextPath name).bytes) : (nextPath name).bytes < s.bytes := by
  by_contra hle
  have hpre : name.bytes <+: s.bytes :=
    prefix_of_between (List.prefix_append _ [1]) h.le (not_lt.mp hle)
  obtain ⟨rest, hrest⟩ := hpre
  cases rest with
  | nil =>
    rw [List.append_nil] at hrest
    exact absurd h (hrest ▸ lt_irrefl _)
  | cons c rest =>
    have hnul : c ≠ 0 := fun hc => s.noNul (hrest ▸ by simp [hc])
    have hc : ¬ (1 < c ∨ 1 = c ∧ [] < rest) := by
      rw [← List.cons_lt_cons_iff]
      intro hlt
      exact hle (hrest ▸ List.append_left_lt hlt)
    rw [not_or, not_and] at hc
    obtain rfl : (1 : UInt8) = c := by
      have h1 := UInt8.not_lt.mp hc.1
      rw [UInt8.le_iff_toNat_le] at h1
      refine UInt8.toNat_inj.mp (le_antisymm ?_ h1)
      exact Nat.one_le_iff_ne_zero.mpr fun h0 => hnul (UInt8.toNat_inj.mp h0)
    have hrest0 : rest = [] := by
      cases rest with
      | nil => rfl
      | cons d rest => exact absurd (List.nil_lt_cons d rest) (hc.2 rfl)
    exact hne (by rw [← hrest, hrest0]; rfl)

variable {root : RbTree MonitorFileEntry}

/-- An entry that the search finds for its own name is found for the next path too,
or the entry of this path is. -/
theorem nextPath_search (hs : root.toList.Pairwise FileLt) {e : MonitorFileEntry}
    (h : miSearch root e.wcsMonitorFile.toCString = some e) :
    ∃ f, miSearch root (nextPath e.wcsMonitorFile.toCString) = some f ∧
      (f = e ∨ f.wcsMonitorFile.bytes = (nextPath e.wcsMonitorFile.toCString).bytes) := by
  have hpre : e.wcsMonitorFile.bytes <+: (nextPath e.wcsMonitorFile.toCString).bytes :=
    List.prefix_append _ [1]
  by_cases hm : ∃ m ∈ root.toList,
      m.wcsMonitorFile.bytes = (nextPath e.wcsMonitorFile.toCString).bytes
  · obtain ⟨m, hm, hname⟩ := hm
    obtain ⟨f, hf⟩ := RbTree.prefixSearch_of_mem hs hm
    rw [hname] at hf
    refine ⟨f, hf, ?_⟩
    obtain ⟨-, hfpre⟩ := RbTree.prefixSearch_sound hf
    rcases List.prefix_concat_iff.mp hfpre with heq | hshort
    · exact .inr heq
    · -- a shorter name is found for the name of `e` as well
      have hfe := RbTree.prefixSearch_between hs hf hshort (le_of_isPrefix hpre)
      exact .inl (Option.some.inj (hfe.symm.trans h))
  · refine ⟨e, RbTree.prefixSearch_extend hs h hpre (le_of_isPrefix hpre) ?_, .inl rfl⟩
    exact fun m hmem hlt => nextPath_le hlt fun heq => hm ⟨m, hmem, heq⟩

/-- Names have at most 260 bytes, so that one of those that begin with the name of
`e` is found for the path next to it. -/
theorem exists_captured (hs : root.toList.Pairwise FileLt) (e : MonitorFileEntry)
    (h : miSearch root e.wcsMonitorFile.toCString = some e) :
    ∃ f, miSearch root (nextPath f.wcsMonitorFile.toCString) = some f ∧
      (f = e ∨ f.wcsMonitorFile.bytes.getLast? = some 1 ∧
        e.wcsMonitorFile.bytes <+: f.wcsMonitorFile.bytes) := by
  obtain ⟨f, hf, rfl | hname⟩ := nextPath_search hs h
  · exact ⟨f, hf, .inl rfl⟩
  · have hlen : f.wcsMonitorFile.bytes.length = e.wcsMonitorFile.bytes.length + 1 := by
      rw [hname]
      exact List.length_append
    have hfits : f.wcsMonitorFile.bytes.length ≤ 260 := f.wcsMonitorFile.fits
    have hpre : e.wcsMonitorFile.bytes <+: f.wcsMonitorFile.bytes := hname ▸ List.prefix_append _ [1]
    have hself := RbTree.prefixSearch_self hs hf
    obtain ⟨g, hg, rfl | ⟨hlast, hgpre⟩⟩ := exists_captured hs f hself
    · refine ⟨g, hg, .inr ⟨?_, hpre⟩⟩
      rw [hname]
      exact List.getLast?_concat
    · exact ⟨g, hg, .inr ⟨hlast, hpre.trans hgpre⟩⟩
termination_by 260 - e.wcsMonitorFile.bytes.length

/-! ## The trees whose lookups respect components -/

theorem absolute_prefix_iff {name p : CString} (hne : name.bytes ≠ []) (h : name.bytes <+: p.bytes) :
    Absolute p ↔ Absolute name := by
  obtain ⟨rest, hrest⟩ := h
  rw [Absolute, Absolute, ← hrest, List.head?_append_of_ne_nil _ hne]

/-- An entry that is found for an absolute path is found for the first one that
begins with its name. -/
theorem firstPath_search (hs : root.toList.Pairwise FileLt) {p : CString} (hp : Absolute p)
    {e : MonitorFileEntry} (h : miSearch root p = some e) :
    Absolute e.firstPath ∧ miSearch root e.firstPath = some e := by
  have hpre := (miSearch_sound h).2
  unfold MonitorFileEntry.firstPath
  split
  · next hempty =>
    obtain ⟨rest, hrest⟩ := List.head?_eq_some_iff.mp hp
    have hle : [slash] <+: p.bytes := ⟨rest, hrest.symm⟩
    refine ⟨rfl, RbTree.prefixSearch_between hs h ?_ (le_of_isPrefix hle)⟩
    rw [hempty]
    exact List.nil_prefix
  · next hne => exact ⟨(absolute_prefix_iff hne hpre).mp hp, RbTree.prefixSearch_self hs h⟩

/-- Every absolute path lies in the item found for it, if and only if each item that
is found for its own name is a directory whose name ends in a separator. -/
theorem lookups_lie_in_iff (hs : root.toList.Pairwise FileLt) :
    (∀ p, Absolute p → ∀ e, miSearch root p = some e → LiesIn p e) ↔
      ∀ e ∈ root.toList, Absolute e.firstPath → miSearch root e.firstPath = some e → Closed e := by
  constructor
  · intro hall e he habs hfound
    by_contra hopen
    by_cases hempty : e.wcsMonitorFile.bytes = []
    · -- the path of the root itself
      have hslash : e.firstPath.bytes = [slash] := by rw [MonitorFileEntry.firstPath, if_pos hempty]
      rcases hall _ habs e hfound with heq | heq | ⟨hdir, -⟩
      · exact absurd (hslash.symm.trans (heq.trans hempty)) nofun
      · rw [hempty] at heq
        exact absurd (hslash.symm.trans heq) nofun
      · exact hopen ⟨hdir, .inl hempty⟩
    · have hfirst : e.firstPath = e.wcsMonitorFile.toCString := if_neg hempty
      rw [hfirst] at habs hfound
      obtain ⟨f, hf, hfe⟩ := exists_captured hs e hfound
      have hfne : f.wcsMonitorFile.bytes ≠ [] ∧ ¬ Closed f ∧
          Absolute f.wcsMonitorFile.toCString := by
        rcases hfe with rfl | ⟨hlast, hpre⟩
        · exact ⟨hempty, hopen, habs⟩
        · refine ⟨fun h0 => by simp [h0] at hlast, ?_, (absolute_prefix_iff hempty hpre).mpr habs⟩
          rintro ⟨-, h0 | hslash⟩
          · simp [h0] at hlast
          · exact absurd (hlast.symm.trans hslash) (by decide)
      have hnext : Absolute (nextPath f.wcsMonitorFile.toCString) :=
        (absolute_prefix_iff hfne.1 (List.prefix_append _ [1])).mpr hfne.2.2
      exact not_liesIn_of_not_closed hfne.2.1 rfl (hall _ hnext f hf)
  · intro hall p hp e he
    obtain ⟨hmem, hpre⟩ := miSearch_sound he
    obtain ⟨habs, hfirst⟩ := firstPath_search hs hp he
    exact liesIn_of_closed hp (hall e hmem habs hfirst) hpre

/-- In every reachable configuration. -/
theorem component_wise_iff (env : Env) (cnf : Bytes) (nalloc : Nat) (events : List Event) (s : Sys)
    (hs : s ∈ states (sysStep env) (Sys.start env cnf nalloc) events) :
    (∀ p, Absolute p → ∀ e, getMonitorFileEntryByabspath s.driver p = some e → LiesIn p e) ↔
      ∀ e ∈ s.driver.files, Absolute e.firstPath →
        getMonitorFileEntryByabspath s.driver e.firstPath = some e → Closed e := by
  have hw := (invariant (fun s ev => sysStep_sound env s ev) (start_sound env cnf nalloc)
    events s hs).wf
  exact lookups_lie_in_iff hw.files_sorted

/-! ## Directories with and without a separator -/

/-- The directories `/b/c/` and `/e/`. -/
def closedRequest : RealtimeBackupData :=
  { oneItemRequest with filterItems :=
      [⟨filterTypeDir, ⟨⟨[47, 98, 47, 99, 47], by decide⟩, by decide⟩⟩,
        ⟨filterTypeDir, ⟨⟨[47, 101, 47], by decide⟩, by decide⟩⟩] }

/-- The driver with these two items. -/
def dirsClosed : Sys :=
  run (sysStep quietKernel) (Sys.start quietKernel [] 0) [.command (.addSet closedRequest)]

theorem component_wise_iff_two_dirs :
    dirsClosed.driver.files.length = 2 ∧
      ∀ p, Absolute p → ∀ e, getMonitorFileEntryByabspath dirsClosed.driver p = some e →
        LiesIn p e :=
  ⟨by decide +kernel,
    (component_wise_iff quietKernel [] 0 [.command (.addSet closedRequest)] dirsClosed
      (run_mem_states _ _)).mpr (by decide +kernel)⟩

/-- `/ab`. -/
def pathSiblingOfA : CString := ⟨[47, 97, 98], by decide⟩

/-- The driver with the directory `/a` as its only item. -/
def dirA : Sys :=
  run (sysStep quietKernel) (Sys.start quietKernel [] 0) [.command (.addSet oneItemRequest)]

/-- The directory `/a` is monitored, and `/ab` is found in it. -/
theorem sibling_captured :
    dirA ∈ states (sysStep quietKernel) (Sys.start quietKernel [] 0)
      [.command (.addSet oneItemRequest)] ∧
    Absolute pathSiblingOfA ∧
    ∃ e, getMonitorFileEntryByabspath dirA.driver pathSiblingOfA = some e ∧
      ¬ LiesIn pathSiblingOfA e := by
  refine ⟨run_mem_states _ _, by decide, ?_⟩
  obtain ⟨e, he, hname⟩ : ∃ e, getMonitorFileEntryByabspath dirA.driver pathSiblingOfA = some e ∧
      e.wcsMonitorFile = nameA := by
    have hsome : ((getMonitorFileEntryByabspath dirA.driver pathSiblingOfA).map
        (·.wcsMonitorFile)) = some nameA := by
      decide +kernel
    exact Option.map_eq_some_iff.mp hsome
  refine ⟨e, he, ?_⟩
  rw [LiesIn, hname]
  rintro (heq | heq | ⟨-, rest, heq⟩)
  · exact absurd heq (by decide)
  · exact absurd heq (by decide)
  · exact absurd (List.cons.inj (List.cons.inj (List.cons.inj heq).2).2).1 (by decide)

end RtBackup
