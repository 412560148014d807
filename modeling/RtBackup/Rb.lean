import RtBackup.Fruk
import RtBackup.Lib.Runs

/-!
# The two trees of the driver (`rb.c`)

`MonitorSet` is a tree of backup sets compared by `memcmp` of their GUIDs,
`MonitorFiles` a tree of monitored names compared by `strncmp` up to the length
of the name in the tree. The six functions are one walk with two comparisons.

Results:
1. `msInsert_cases`, `msRemove_cases`, `miInsert_cases`, `miRemove_cases`: what
   each function does to the sequence of entries.
2. `msSearch_eq_some_iff`: on a sorted tree the GUID search is exact.
-/

namespace RtBackup

open ByteFile SearchTree PrefixOrder

/-! ## Definitions -/

/-- `memcmp(&guid, &data->hdr.guidSetId, sizeof(GUID))`. -/
def msCompare (guid : GUID) (data : MonitorSetEntry) : Ordering :=
  cmpUpTo guid.image data.guidSetId.image 16

def msSearch (root : RbTree MonitorSetEntry) (guid : GUID) : Option MonitorSetEntry :=
  (root.descend (msCompare guid)).2

def msInsert (rb : RbLib) (root : RbTree MonitorSetEntry) (data : MonitorSetEntry) :
    RbTree MonitorSetEntry × Int :=
  match rb.insertBy (msCompare data.guidSetId) data root with
  | some root' => (root', 0)
  | none => (root, -1)

def msRemove (rb : RbLib) (root : RbTree MonitorSetEntry) (guid : GUID) :
    RbTree MonitorSetEntry × Option MonitorSetEntry :=
  match rb.removeBy (msCompare guid) root with
  | some (pmse, root') => (root', some pmse)
  | none => (root, none)

/-- `strncmp(pathname, data->wcsMonitorFile, strlen(data->wcsMonitorFile))`. -/
def miCompare (pathname : CString) (data : MonitorFileEntry) : Ordering :=
  cmpUpTo pathname.bytes data.wcsMonitorFile.bytes data.wcsMonitorFile.bytes.length

def miSearch (root : RbTree MonitorFileEntry) (pathname : CString) : Option MonitorFileEntry :=
  (root.descend (miCompare pathname)).2

def miRemove (rb : RbLib) (root : RbTree MonitorFileEntry) (pathname : CString) :
    RbTree MonitorFileEntry × Option MonitorFileEntry :=
  match rb.removeBy (miCompare pathname) root with
  | some (pmfe, root') => (root', some pmfe)
  | none => (root, none)

def miInsert (rb : RbLib) (root : RbTree MonitorFileEntry) (data : MonitorFileEntry) :
    RbTree MonitorFileEntry × Int :=
  match rb.insertBy (miCompare data.wcsMonitorFile.toCString) data root with
  | some root' => (root', 0)
  | none => (root, -1)

/-- Sets are kept in the order of their GUIDs. -/
def SetLt (a b : MonitorSetEntry) : Prop := a.guidSetId.image < b.guidSetId.image

/-- Items are kept in the byte order of their names. -/
def FileLt (a b : MonitorFileEntry) : Prop := a.wcsMonitorFile.bytes < b.wcsMonitorFile.bytes

/-! ## The comparisons -/

theorem SetLt.trans (a b c : MonitorSetEntry) (hab : SetLt a b) (hbc : SetLt b c) : SetLt a c :=
  lt_trans hab hbc

theorem FileLt.trans (a b c : MonitorFileEntry) (hab : FileLt a b) (hbc : FileLt b c) :
    FileLt a c :=
  lt_trans hab hbc

theorem msCompare_eq (guid : GUID) (data : MonitorSetEntry) :
    msCompare guid data = cmpPrefix guid.image data.guidSetId.image := by
  rw [cmpPrefix, data.guidSetId.size_eq]
  rfl

theorem msCompare_eq_iff {guid : GUID} {data : MonitorSetEntry} :
    msCompare guid data = .eq ↔ guid = data.guidSetId := by
  rw [msCompare_eq, cmpPrefix_eq_iff_of_length (guid.size_eq.trans data.guidSetId.size_eq.symm)]
  exact ⟨GUID.ext, fun h => h ▸ rfl⟩

theorem msCompare_lt_iff {guid : GUID} {data : MonitorSetEntry} :
    msCompare guid data = .lt ↔ guid.image < data.guidSetId.image := by
  rw [msCompare_eq, cmpPrefix_lt_iff]

theorem msCompare_gt_iff {guid : GUID} {data : MonitorSetEntry} :
    msCompare guid data = .gt ↔ data.guidSetId.image < guid.image := by
  rw [msCompare_eq, cmpPrefix_gt_iff_of_length (guid.size_eq.trans data.guidSetId.size_eq.symm)]

theorem miCompare_eq_iff {p : CString} {data : MonitorFileEntry} :
    miCompare p data = .eq ↔ data.wcsMonitorFile.bytes <+: p.bytes :=
  cmpPrefix_eq_iff

theorem miCompare_lt_iff {p : CString} {data : MonitorFileEntry} :
    miCompare p data = .lt ↔ p.bytes < data.wcsMonitorFile.bytes :=
  cmpPrefix_lt_iff

theorem miCompare_gt_iff {p : CString} {data : MonitorFileEntry} :
    miCompare p data = .gt ↔
      data.wcsMonitorFile.bytes < p.bytes ∧ ¬ data.wcsMonitorFile.bytes <+: p.bytes :=
  cmpPrefix_gt_iff

/-! ## The tree of sets -/

theorem msSearch_sound {root : RbTree MonitorSetEntry} {guid : GUID} {s : MonitorSetEntry}
    (h : msSearch root guid = some s) : s ∈ root.toList ∧ s.guidSetId = guid := by
  obtain ⟨hmem, heq⟩ := RbTree.descend_sound h
  exact ⟨hmem, (msCompare_eq_iff.mp heq).symm⟩

theorem guid_unique {l : List MonitorSetEntry} (hs : l.Pairwise SetLt) {a b : MonitorSetEntry}
    (ha : a ∈ l) (hb : b ∈ l) (h : a.guidSetId = b.guidSetId) : a = b := by
  have hnd : (l.map fun s => s.guidSetId).Nodup :=
    List.pairwise_map.mpr (hs.imp fun hlt he => hlt.ne (congrArg GUID.image he))
  exact List.inj_on_of_nodup_map hnd ha hb h

theorem msCompare_monotone {l : List MonitorSetEntry} (hs : l.Pairwise SetLt) (guid : GUID) :
    RbTree.Monotone (msCompare guid) l := by
  refine hs.imp fun hab => ⟨fun ha => ?_, fun hb => ?_⟩
  · rw [msCompare_lt_iff] at ha ⊢
    exact lt_trans ha hab
  · rw [msCompare_gt_iff] at hb ⊢
    exact lt_trans hab hb

/-- On a sorted tree the GUID search is exact. -/
theorem msSearch_eq_some_iff {root : RbTree MonitorSetEntry} (hs : root.toList.Pairwise SetLt)
    {guid : GUID} {s : MonitorSetEntry} :
    msSearch root guid = some s ↔ s ∈ root.toList ∧ s.guidSetId = guid := by
  refine ⟨msSearch_sound, fun ⟨hmem, hg⟩ => ?_⟩
  obtain ⟨b, hb⟩ := RbTree.descend_complete (msCompare_monotone hs guid) hmem
    (msCompare_eq_iff.mpr hg.symm)
  obtain ⟨hbmem, hbg⟩ := msSearch_sound hb
  have hbs : b = s := guid_unique hs hbmem hmem (hbg.trans hg.symm)
  exact hbs ▸ hb

theorem msSearch_eq_none_iff {root : RbTree MonitorSetEntry} (hs : root.toList.Pairwise SetLt)
    {guid : GUID} : msSearch root guid = none ↔ ∀ s ∈ root.toList, s.guidSetId ≠ guid := by
  rw [Option.eq_none_iff_forall_not_mem]
  exact ⟨fun h s hs' hg => h s ((msSearch_eq_some_iff hs).mpr ⟨hs', hg⟩),
    fun h s hs' => h s (msSearch_sound hs').1 (msSearch_sound hs').2⟩

/-- `ms_insert` adds the entry, or refuses it because its GUID is there. -/
theorem msInsert_cases (rb : RbLib) (root : RbTree MonitorSetEntry) (data : MonitorSetEntry)
    (hs : root.toList.Pairwise SetLt) :
    (∃ root', msInsert rb root data = (root', 0) ∧ msSearch root data.guidSetId = none ∧
      root'.toList.Pairwise SetLt ∧ root'.toList.Perm (data :: root.toList)) ∨
    (msInsert rb root data = (root, -1) ∧ ∃ s, msSearch root data.guidSetId = some s) := by
  unfold msInsert
  cases h : rb.insertBy (msCompare data.guidSetId) data root with
  | some root' =>
    exact .inl ⟨root', rfl, RbLib.insertBy_some SetLt.trans hs
      (fun _ _ => msCompare_lt_iff.mp) (fun _ _ => msCompare_gt_iff.mp) h⟩
  | none => exact .inr ⟨rfl, RbLib.insertBy_eq_none.mp h⟩

theorem msInsert_added {rb : RbLib} {root root' : RbTree MonitorSetEntry} {data : MonitorSetEntry}
    (hs : root.toList.Pairwise SetLt) (h : msInsert rb root data = (root', 0)) :
    root'.toList.Pairwise SetLt ∧ root'.toList.Perm (data :: root.toList) := by
  rcases msInsert_cases rb root data hs with ⟨root'', heq, -, hsorted, hperm⟩ | ⟨heq, -⟩
  · obtain rfl : root'' = root' := congrArg Prod.fst (heq.symm.trans h)
    exact ⟨hsorted, hperm⟩
  · exact absurd (congrArg Prod.snd (h.symm.trans heq)) (by decide : (0 : Int) ≠ -1)

/-- `ms_remove` takes out the entry that `ms_search` finds. -/
theorem msRemove_cases (rb : RbLib) (root : RbTree MonitorSetEntry) (guid : GUID) :
    (∃ root' s l r, msRemove rb root guid = (root', some s) ∧ msSearch root guid = some s ∧
      root.toList = l ++ s :: r ∧ root'.toList = l ++ r) ∨
    (msRemove rb root guid = (root, none) ∧ msSearch root guid = none) := by
  unfold msRemove
  cases h : rb.removeBy (msCompare guid) root with
  | some p =>
    obtain ⟨s, root'⟩ := p
    obtain ⟨hfound, l, r, hl, hr⟩ := RbLib.removeBy_some h
    exact .inl ⟨root', s, l, r, rfl, hfound, hl, hr⟩
  | none => exact .inr ⟨rfl, RbLib.removeBy_eq_none.mp h⟩

/-! ## The tree of names -/

theorem miSearch_sound {root : RbTree MonitorFileEntry} {p : CString} {e : MonitorFileEntry}
    (h : miSearch root p = some e) :
    e ∈ root.toList ∧ e.wcsMonitorFile.bytes <+: p.bytes := by
  obtain ⟨hmem, heq⟩ := RbTree.descend_sound h
  exact ⟨hmem, miCompare_eq_iff.mp heq⟩

/-- `mi_insert` adds the entry, or refuses it because a search for its name
answers. -/
theorem miInsert_cases (rb : RbLib) (root : RbTree MonitorFileEntry) (data : MonitorFileEntry)
    (hs : root.toList.Pairwise FileLt) :
    (∃ root', miInsert rb root data = (root', 0) ∧
      miSearch root data.wcsMonitorFile.toCString = none ∧
      root'.toList.Pairwise FileLt ∧ root'.toList.Perm (data :: root.toList)) ∨
    (miInsert rb root data = (root, -1) ∧
      ∃ e, miSearch root data.wcsMonitorFile.toCString = some e) := by
  unfold miInsert
  cases h : rb.insertBy (miCompare data.wcsMonitorFile.toCString) data root with
  | some root' =>
    exact .inl ⟨root', rfl, RbLib.insertBy_some FileLt.trans hs
      (fun _ _ => miCompare_lt_iff.mp) (fun _ _ hgt => (miCompare_gt_iff.mp hgt).1) h⟩
  | none => exact .inr ⟨rfl, RbLib.insertBy_eq_none.mp h⟩

theorem miInsert_added {rb : RbLib} {root root' : RbTree MonitorFileEntry}
    {data : MonitorFileEntry} (hs : root.toList.Pairwise FileLt)
    (h : miInsert rb root data = (root', 0)) :
    root'.toList.Pairwise FileLt ∧ root'.toList.Perm (data :: root.toList) := by
  rcases miInsert_cases rb root data hs with ⟨root'', heq, -, hsorted, hperm⟩ | ⟨heq, -⟩
  · obtain rfl : root'' = root' := congrArg Prod.fst (heq.symm.trans h)
    exact ⟨hsorted, hperm⟩
  · exact absurd (congrArg Prod.snd (h.symm.trans heq)) (by decide : (0 : Int) ≠ -1)

/-- `mi_remove` takes out the entry that `mi_search` finds. -/
theorem miRemove_cases (rb : RbLib) (root : RbTree MonitorFileEntry) (p : CString) :
    (∃ root' e l r, miRemove rb root p = (root', some e) ∧ miSearch root p = some e ∧
      root.toList = l ++ e :: r ∧ root'.toList = l ++ r) ∨
    (miRemove rb root p = (root, none) ∧ miSearch root p = none) := by
  unfold miRemove
  cases h : rb.removeBy (miCompare p) root with
  | some q =>
    obtain ⟨e, root'⟩ := q
    obtain ⟨hfound, l, r, hl, hr⟩ := RbLib.removeBy_some h
    exact .inl ⟨root', e, l, r, rfl, hfound, hl, hr⟩
  | none => exact .inr ⟨rfl, RbLib.removeBy_eq_none.mp h⟩

end RtBackup
