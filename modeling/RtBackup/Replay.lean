import RtBackup.Numbers
import RtBackup.Restore

/-!
# Replaying the log on a copy of the monitored tree

Operations run one after another through the hooks, on a tree whose monitored
part has a copy under a target directory. The records that they leave in the
queue are then applied to the copy in the order of their numbers.

A record of two paths has them the other way round than `restore` reads them:
`restore` renames the new path to the old one, and makes a link to the new path
at the old one. The hook of a new file has its path from `d_path`, which gives a
file directly under the root two separators: no item of that name covers it.

Results:
1. `mkdir_mirrored`, `create_mirrored`, `unlink_mirrored`, `rmdir_mirrored`: the
   record of an operation on one path carries it over to the copy.
2. `siteStep_synced`: so does an operation on two paths that are one.
3. `replay_mirrors`: in every state of every run of such operations that are all
   logged, the replayed log gives a copy of the tree.
4. `rename_not_replayed`: a rename that the replay undoes.
-/

namespace RtBackup

open ByteFile Namespace PathName Runs

/-! ## Operations -/

/-- A dentry by the names from below the root to its own. -/
structure Dentry where
  names : List Bytes
  ne_nil : names ≠ []
  isName : ∀ w ∈ names, IsName slash w
  noNul : ∀ w ∈ names, 0 ∉ w
deriving DecidableEq

def getabsfullpathfromdentry (dentry : Dentry) : CString where
  bytes := render slash dentry.names
  noNul h := by
    obtain ⟨w, hw, h0⟩ := List.mem_flatMap.mp h
    rcases List.mem_cons.mp h0 with h0 | h0
    · exact absurd h0 (by decide)
    · exact dentry.noNul w hw h0

/-- The path of a directory by the names from below the root. -/
def dPath (names : List Bytes) : Bytes := if names = [] then [slash] else render slash names

/-- The path of the directory, and the name. Without `nd`, or without the page for
`d_path`, the buffer stays empty. -/
def getabsfullpathfromnd (page : Bool) (dentry : Dentry) : CString where
  bytes :=
    if page then dPath dentry.names.dropLast ++ slash :: dentry.names.getLast dentry.ne_nil else []
  noNul h := by
    have hrender : ∀ names ⊆ dentry.names, 0 ∉ render slash names := by
      intro names hsub h
      obtain ⟨w, hw, h0⟩ := List.mem_flatMap.mp h
      exact (getabsfullpathfromdentry dentry).noNul (List.mem_flatMap.mpr ⟨w, hsub hw, h0⟩)
    cases page with
    | false => exact absurd h List.not_mem_nil
    | true =>
      rcases List.mem_append.mp h with hdir | hname
      · unfold dPath at hdir
        split at hdir
        · exact absurd hdir (by decide)
        · exact hrender _ (List.dropLast_subset _) hdir
      · rcases List.mem_cons.mp hname with h0 | h0
        · exact absurd h0 (by decide)
        · exact dentry.noNul _ (List.getLast_mem _) h0

/-- `parentpath` is what `getabsparentpath` finds for a relative name. -/
def getabsfullpath (parentpath pathname : CString) : CString :=
  if pathname.bytes.head? = some slash then pathname
  else (parentpath.append ⟨[slash], by decide⟩).append pathname

/-- A call of a hooked function of the virtual file system. -/
inductive VfsOp where
  | create (page : Bool) (dentry : Dentry)
  | mkdir (dentry : Dentry)
  | unlink (dentry : Dentry)
  | rmdir (dentry : Dentry)
  | rename (oldDentry newDentry : Dentry)
  | link (oldDentry newDentry : Dentry)
  | symlink (oldname parentpath : CString) (dentry : Dentry)

/-- The hook that runs for it. A file is created where there is no inode. -/
def VfsOp.hook : VfsOp → Hook
  | .create page dentry => rtbVfsCreate false (getabsfullpathfromnd page dentry)
  | .mkdir dentry => rtbVfsMkdir (getabsfullpathfromdentry dentry)
  | .unlink dentry => rtbVfsUnlink (getabsfullpathfromdentry dentry)
  | .rmdir dentry => rtbVfsRmdir (getabsfullpathfromdentry dentry)
  | .rename oldDentry newDentry =>
    rtbVfsRename (getabsfullpathfromdentry oldDentry) (getabsfullpathfromdentry newDentry)
  | .link oldDentry newDentry =>
    rtbVfsLink (getabsfullpathfromdentry oldDentry) (getabsfullpathfromdentry newDentry)
  | .symlink oldname parentpath dentry =>
    rtbVfsSymlink (getabsfullpath parentpath oldname) (getabsfullpathfromdentry dentry)

/-- The original function. -/
def VfsOp.run (fs : Files) : VfsOp → Except Errno Files
  | .create _ dentry => fs.create dentry.names []
  | .mkdir dentry => fs.mkdir dentry.names
  | .unlink dentry => fs.unlink dentry.names
  | .rmdir dentry => fs.rmdir dentry.names
  | .rename oldDentry newDentry => fs.rename oldDentry.names newDentry.names
  | .link oldDentry newDentry => fs.link oldDentry.names newDentry.names
  | .symlink oldname _ dentry => fs.symlink oldname dentry.names

/-- The paths of an operation. -/
def VfsOp.paths : VfsOp → List CString
  | .create _ dentry | .mkdir dentry | .unlink dentry | .rmdir dentry =>
    [getabsfullpathfromdentry dentry]
  | .rename oldDentry newDentry | .link oldDentry newDentry =>
    [getabsfullpathfromdentry oldDentry, getabsfullpathfromdentry newDentry]
  | .symlink oldname parentpath dentry =>
    [getabsfullpath parentpath oldname, getabsfullpathfromdentry dentry]

/-- The path lies under an item of the set. -/
def Monitored (d : Driver) (guid : GUID) (p : List Bytes) : Prop :=
  ∃ e ∈ d.files, e.guidSetId = guid ∧ pathNames e.wcsMonitorFile.bytes <+: p

/-- The text of a copied link: an absolute path leads to the copy. -/
def targetText (targetdir text : CString) : CString :=
  if text.bytes.head? = some slash then targetdir.append text else text

/-! ## One record -/

theorem pathNames_abspath (dentry : Dentry) :
    pathNames (getabsfullpathfromdentry dentry).bytes = dentry.names :=
  components_render [] dentry.isName

theorem pathNames_dentry (targetdir : CString) (dentry : Dentry) :
    pathNames (targetdir.append (getabsfullpathfromdentry dentry)).bytes =
      pathNames targetdir.bytes ++ dentry.names :=
  components_render targetdir.bytes dentry.isName

theorem pathNames_dPath (targetdir : CString) (dentry : Dentry) :
    pathNames (targetdir.bytes ++ dPath dentry.names.dropLast) =
      pathNames targetdir.bytes ++ dentry.names.dropLast := by
  unfold dPath
  split
  · next hroot => rw [pathNames, components_trailing_sep, hroot, List.append_nil, pathNames]
  · exact components_render _ fun w hw => dentry.isName w (List.dropLast_subset _ hw)

/-- Two separators in a row are read as one. -/
theorem pathNames_nd (targetdir : CString) (dentry : Dentry) :
    pathNames (targetdir.append (getabsfullpathfromnd true dentry)).bytes =
      pathNames targetdir.bytes ++ dentry.names := by
  show pathNames (targetdir.bytes ++ (dPath dentry.names.dropLast ++ slash :: _)) = _
  rw [← List.append_assoc, pathNames, components_append_sep, ← pathNames, pathNames_dPath,
    components_word (dentry.isName _ (List.getLast_mem dentry.ne_nil)), List.append_assoc,
    List.dropLast_append_getLast]

theorem pathNames_dirParent_nd (targetdir : CString) (dentry : Dentry) :
    pathNames (dirParent (targetdir.append (getabsfullpathfromnd true dentry)).bytes) =
      pathNames targetdir.bytes ++ dentry.names.dropLast := by
  show pathNames (parent slash (targetdir.bytes ++ (dPath dentry.names.dropLast ++ slash :: _))) = _
  rw [← List.append_assoc,
    parent_append_name _ (dentry.isName _ (List.getLast_mem dentry.ne_nil)).2, pathNames,
    components_trailing_sep, ← pathNames, pathNames_dPath]

theorem Dentry.head?_abspath (dentry : Dentry) :
    (getabsfullpathfromdentry dentry).bytes.head? = some slash := by
  obtain ⟨names, hne, hname, hnul⟩ := dentry
  cases names with
  | nil => exact absurd rfl hne
  | cons w names => rfl

/-- The path of the create hook is that of the other hooks or has one separator more. -/
theorem create_mirrored {part : List Bytes → Prop} {targetdir : CString}
    {here here' there : Files} {dentry : Dentry}
    (h : FS.Mirrors part (pathNames targetdir.bytes) (targetText targetdir) here there)
    (hp : part dentry.names)
    (hlen : (getabsfullpathfromnd true dentry).bytes.length ≤ filereplMaxPath)
    (hfit : (targetdir.append (getabsfullpathfromnd true dentry)).bytes.length < targetpathSize)
    (seqNo : SeqNo) (hrun : here.create dentry.names [] = .ok here') :
    ∃ there', restore targetdir there
        (createiologforcreatefile seqNo (getabsfullpathfromnd true dentry)).logfile = some there' ∧
      FS.Mirrors part (pathNames targetdir.bytes) (targetText targetdir) here' there' := by
  obtain ⟨hadds, hempty⟩ := FS.create_adds hrun
  have hdirs : ∀ q, q <+: dentry.names.dropLast → here.node q = some .dir := fun q hq =>
    hadds.dir_above (hq.trans (List.dropLast_prefix _)) fun heq =>
      FS.dropLast_ne dentry.ne_nil ((List.dropLast_prefix _).eq_of_length_le (heq ▸ hq).length_le)
  -- the directory of the file
  have hclear := h.clear hp (List.dropLast_prefix _) fun q hq => .inr (hdirs q hq)
  rw [← pathNames_dirParent_nd] at hclear
  obtain ⟨there₁, hmkdir, hfills⟩ := mkdirP_fills _ hclear
  rw [pathNames_dirParent_nd] at hfills
  have h₁ : FS.Mirrors part (pathNames targetdir.bytes) (targetText targetdir) here there₁ := by
    refine h.fill hfills (fun q _ => ?_) fun _ _ => rfl
    split
    · next hq => exact hdirs q hq
    · rfl
  -- the file
  have habsent := (h₁.node_eq_none hp).mpr hadds.absent
  have hparent : there₁.node (pathNames targetdir.bytes ++ dentry.names).dropLast = some .dir := by
    rw [List.dropLast_append_of_ne_nil dentry.ne_nil, hfills.node, if_pos (List.prefix_refl _)]
  obtain ⟨there', hcreate⟩ := FS.create_ok habsent hparent []
  obtain ⟨hadds', hempty'⟩ := FS.create_adds hcreate
  refine ⟨there', ?_, h₁.add hp hadds hadds' (hempty.trans hempty'.symm)⟩
  rw [restore_create hlen hfit, hmkdir, openCreat_of_absent (by rw [pathNames_nd]; exact habsent),
    pathNames_nd, hcreate]
  rfl

section

variable {part : List Bytes → Prop} {targetdir : CString} {here here' there : Files}
  {dentry : Dentry}
  (h : FS.Mirrors part (pathNames targetdir.bytes) (targetText targetdir) here there)
  (hp : part dentry.names)
  (hlen : (getabsfullpathfromdentry dentry).bytes.length ≤ filereplMaxPath)
  (hfit : (targetdir.append (getabsfullpathfromdentry dentry)).bytes.length < targetpathSize)
  (seqNo : SeqNo)

include h hp hlen hfit

theorem mkdir_mirrored (hrun : here.mkdir dentry.names = .ok here') :
    ∃ there', restore targetdir there
        (createiologformkdir seqNo (getabsfullpathfromdentry dentry)).logfile = some there' ∧
      FS.Mirrors part (pathNames targetdir.bytes) (targetText targetdir) here' there' := by
  have hadds := FS.mkdir_adds hrun
  have hclear := h.clear hp (List.prefix_refl _) fun q hq => by
    by_cases hne : q = dentry.names
    · exact .inl (hne ▸ hadds.absent)
    · exact .inr (hadds.dir_above hq hne)
  rw [← pathNames_dentry] at hclear
  obtain ⟨there', hmkdir, hfills⟩ := mkdirP_fills _ hclear
  rw [pathNames_dentry] at hfills
  refine ⟨there', by rw [restore_mkdir hlen hfit, hmkdir], ?_⟩
  refine h.fill hfills (fun q _ => ?_) hadds.data
  rw [hadds.node]
  by_cases hne : q = dentry.names
  · rw [if_pos hne, if_pos (hne ▸ List.prefix_refl _)]
  · rw [if_neg hne]
    split
    · next hq => exact hadds.dir_above hq hne
    · rfl

theorem unlink_mirrored (hrun : here.unlink dentry.names = .ok here') :
    ∃ there', restore targetdir there
        (createiologforrmfile seqNo (getabsfullpathfromdentry dentry)).logfile = some there' ∧
      FS.Mirrors part (pathNames targetdir.bytes) (targetText targetdir) here' there' := by
  obtain ⟨hsome, hdir, hremoves⟩ := FS.unlink_removes hrun
  obtain ⟨there', hunlink⟩ := FS.unlink_ok (mt (h.node_eq_none hp).mp hsome)
    (mt (h.node_eq_dir hp).mp hdir)
  refine ⟨there', ?_, h.remove hp dentry.ne_nil hremoves (FS.unlink_removes hunlink).2.2⟩
  rw [restore_unlink hlen hfit, pathNames_dentry, hunlink]
  rfl

theorem rmdir_mirrored (hpart : ∀ x, part (dentry.names ++ [x]))
    (hrun : here.rmdir dentry.names = .ok here') :
    ∃ there', restore targetdir there
        (createiologforrmdir seqNo (getabsfullpathfromdentry dentry)).logfile = some there' ∧
      FS.Mirrors part (pathNames targetdir.bytes) (targetText targetdir) here' there' := by
  obtain ⟨-, hdir, hleaf, hremoves⟩ := FS.rmdir_removes hrun
  obtain ⟨there', hrmdir⟩ := FS.rmdir_ok (by simp [dentry.ne_nil]) ((h.node_eq_dir hp).mpr hdir)
    (h.isLeaf hpart hleaf)
  refine ⟨there', ?_, h.remove hp dentry.ne_nil hremoves (FS.rmdir_removes hrmdir).2.2.2⟩
  rw [restore_rmdir hlen hfit, pathNames_dentry, hrmdir]
  rfl

/-- A link to its own path. -/
theorem symlink_mirrored (hparent : part dentry.names.dropLast)
    (hrun : here.symlink (getabsfullpathfromdentry dentry) dentry.names = .ok here') :
    ∃ there', restore targetdir there
        (createiologforcreatesymlink seqNo (getabsfullpathfromdentry dentry)
          (getabsfullpathfromdentry dentry)).logfile = some there' ∧
      FS.Mirrors part (pathNames targetdir.bytes) (targetText targetdir) here' there' := by
  have hadds := FS.symlink_adds hrun
  have habsent := (h.node_eq_none hp).mpr hadds.absent
  have hdir : there.node (pathNames targetdir.bytes ++ dentry.names).dropLast = some .dir := by
    rw [List.dropLast_append_of_ne_nil dentry.ne_nil]
    exact (h.node_eq_dir hparent).mpr hadds.parent
  obtain ⟨there', hsymlink⟩ := FS.symlink_ok habsent hdir
    (targetdir.append (getabsfullpathfromdentry dentry))
  refine ⟨there', ?_, h.add hp hadds (FS.symlink_adds hsymlink) (if_pos dentry.head?_abspath).symm⟩
  rw [restore_symlink hlen hfit _ _ hlen hfit, pathNames_dentry, hsymlink]
  rfl

/-- A rename between two names of one file. -/
theorem rename_mirrored {newDentry : Dentry} (hnew : part newDentry.names)
    (hnewlen : (getabsfullpathfromdentry newDentry).bytes.length ≤ filereplMaxPath)
    (hnewfit : (targetdir.append (getabsfullpathfromdentry newDentry)).bytes.length <
      targetpathSize)
    (hsame : here.SameFile dentry.names newDentry.names)
    (hrun : here.rename dentry.names newDentry.names = .ok here') :
    ∃ there', restore targetdir there
        (createiologforrename seqNo (getabsfullpathfromdentry dentry)
          (getabsfullpathfromdentry newDentry)).logfile = some there' ∧
      FS.Mirrors part (pathNames targetdir.bytes) (targetText targetdir) here' there' := by
  have hsource := FS.rename_source hrun
  obtain rfl : here = here' := Except.ok.inj ((FS.rename_same_file hsource hsame).symm.trans hrun)
  have hsame' := ((h.same_file _ _ hp hnew).mp hsame).symm
  have hsource' := mt (h.node_eq_none hnew).mp (hsame.node_ne_none hsource)
  refine ⟨there, ?_, h⟩
  rw [restore_rename hlen hfit _ _ hnewlen hnewfit, pathNames_dentry, pathNames_dentry,
    FS.rename_same_file hsource' hsame']
  rfl

end

/-! ## Runs -/

/-- The monitored machine. -/
structure Site where
  driver : Driver
  live : Files

structure VfsCall where
  op : VfsOp
  ts : Timespec
  allocOk : Bool

/-- What a call returns: 0 or a negative `errno`. -/
def callRet : Except Errno Files → Int
  | .ok _ => 0
  | .error .perm => -1
  | .error .noent => -2
  | .error .exist => -17
  | .error .notdir => -20
  | .error .isdir => -21
  | .error .inval => -22
  | .error .notempty => -39

/-- An operation with its hook. -/
def siteStep (env : Env) (s : Site) (c : VfsCall) : Site where
  driver := hookCall env ⟨c.op.hook, c.ts, callRet (c.op.run s.live), c.allocOk⟩ s.driver
  live := ignoring (c.op.run s.live) s.live

/-- The records that were appended since the driver was in the state `d`. -/
def produced (d : Driver) (s : Site) : List LogFile :=
  (s.driver.iowritequeue.drop d.iowritequeue.length).map (·.logfile)

def replay (targetdir : CString) (there : Files) (log : List LogFile) : Option Files :=
  log.foldlM (restore targetdir) there

/-- The operation succeeds, and its paths lie under items of the set and are
shorter than 260 bytes. -/
def InScope (d : Driver) (guid : GUID) (s : Site) (c : VfsCall) : Prop :=
  (c.op.run s.live).isOk = true ∧
  ∀ p ∈ c.op.paths, Monitored d guid (pathNames p.bytes) ∧ p.bytes.length < filereplMaxPath

/-- The hook finds an item of the set, has the set at hand and can allocate its
record. -/
def Logged (env : Env) (guid : GUID) (s : Site) (c : VfsCall) : Prop :=
  c.allocOk = true ∧ ∃ e ∈ hookTarget s.driver c.op.hook, e.guidSetId = guid ∧
    ∃ p ∈ s.driver.sets, SetAtHand env s.driver e p

/-- The two paths of the operation are names of one file, a new link leads to
itself, and the hook of a new file has a path that is short enough. -/
def OnePath (d : Driver) (guid : GUID) (s : Site) : VfsOp → Prop
  | .create page dentry =>
    page = true ∧ (getabsfullpathfromnd page dentry).bytes.length < filereplMaxPath
  | .mkdir _ | .unlink _ | .rmdir _ => True
  | .rename oldDentry newDentry => s.live.SameFile oldDentry.names newDentry.names
  | .link _ _ => False
  | .symlink oldname _ dentry =>
    oldname = getabsfullpathfromdentry dentry ∧ Monitored d guid dentry.names.dropLast

/-- The operations that the replay carries over. -/
def Replayable (env : Env) (d : Driver) (guid : GUID) (s : Site) (c : VfsCall) : Prop :=
  InScope d guid s c ∧ Logged env guid s c ∧ OnePath d guid s c.op

/-- The copy after the replay of what was logged, and the numbers of the log. -/
structure Synced (d : Driver) (guid : GUID) (targetdir : CString) (there : Files) (m : Nat)
    (s : Site) : Prop where
  wf : s.driver.WF
  counter : ∀ p ∈ s.driver.sets, p.guidSetId = guid → p.ullSetSeqNo = UInt64.ofNat m
  log : ∃ log, s.driver.iowritequeue = d.iowritequeue ++ log ∧
    log.Pairwise (fun a b => a.logfile.hdr.ullGolbalSeqNo.toNat < b.logfile.hdr.ullGolbalSeqNo.toNat) ∧
    (∀ r ∈ log, r.logfile.hdr.ullGolbalSeqNo.toNat < m) ∧
    ∃ there', replay targetdir there (log.map (·.logfile)) = some there' ∧
      FS.Mirrors (Monitored d guid) (pathNames targetdir.bytes) (targetText targetdir) s.live there'

/-! ## One operation -/

theorem Monitored.append {d : Driver} {guid : GUID} {p : List Bytes} (h : Monitored d guid p)
    (q : List Bytes) : Monitored d guid (p ++ q) := by
  obtain ⟨e, he, hg, hp⟩ := h
  exact ⟨e, he, hg, hp.trans (List.prefix_append p q)⟩

theorem VfsOp.recordOf_ok (op : VfsOp) (seqNo : SeqNo) :
    op.hook.recordOf 0 seqNo = op.hook.record seqNo := by
  cases op <;> rfl

/-- The record of a replayable operation carries it over to the copy. -/
theorem op_mirrored {d : Driver} {guid : GUID} {targetdir : CString}
    (hdir : targetdir.bytes.length + filereplMaxPath ≤ targetpathSize) {s : Site} {c : VfsCall}
    {there : Files} (hscope : InScope d guid s c) (hone : OnePath d guid s c.op)
    (h : FS.Mirrors (Monitored d guid) (pathNames targetdir.bytes) (targetText targetdir) s.live there)
    (seqNo : SeqNo) :
    ∃ there', restore targetdir there
        (c.op.hook.recordOf (callRet (c.op.run s.live)) seqNo).logfile = some there' ∧
      FS.Mirrors (Monitored d guid) (pathNames targetdir.bytes) (targetText targetdir)
        (ignoring (c.op.run s.live) s.live) there' := by
  obtain ⟨op, ts, allocOk⟩ := c
  obtain ⟨hok, hpaths⟩ := hscope
  simp only at hok hpaths hone ⊢
  cases hrun : op.run s.live with
  | error errno => simp [hrun, Except.isOk, Except.toBool] at hok
  | ok live =>
    have hdentry : ∀ dentry : Dentry, getabsfullpathfromdentry dentry ∈ op.paths →
        Monitored d guid dentry.names ∧
        (getabsfullpathfromdentry dentry).bytes.length ≤ filereplMaxPath ∧
        (targetdir.append (getabsfullpathfromdentry dentry)).bytes.length < targetpathSize := by
      intro dentry hmem
      obtain ⟨hmon, hlen⟩ := hpaths _ hmem
      refine ⟨?_, hlen.le, ?_⟩
      · rwa [pathNames_abspath] at hmon
      · rw [CString.append, List.length_append]
        omega
    rw [callRet, op.recordOf_ok]
    show ∃ there', _ ∧ FS.Mirrors (Monitored d guid) _ _ live there'
    cases op with
    | create page dentry =>
      obtain ⟨rfl, hlen⟩ := hone
      refine create_mirrored h (hdentry dentry List.mem_cons_self).1 hlen.le ?_ seqNo hrun
      rw [CString.append, List.length_append]
      omega
    | mkdir dentry =>
      obtain ⟨hp, hlen, hfit⟩ := hdentry dentry List.mem_cons_self
      exact mkdir_mirrored h hp hlen hfit seqNo hrun
    | unlink dentry =>
      obtain ⟨hp, hlen, hfit⟩ := hdentry dentry List.mem_cons_self
      exact unlink_mirrored h hp hlen hfit seqNo hrun
    | rmdir dentry =>
      obtain ⟨hp, hlen, hfit⟩ := hdentry dentry List.mem_cons_self
      exact rmdir_mirrored h hp hlen hfit seqNo (fun x => hp.append [x]) hrun
    | rename oldDentry newDentry =>
      obtain ⟨hp, hlen, hfit⟩ := hdentry oldDentry List.mem_cons_self
      obtain ⟨hnew, hnewlen, hnewfit⟩ := hdentry newDentry (List.mem_cons_of_mem _ List.mem_cons_self)
      exact rename_mirrored h hp hlen hfit seqNo hnew hnewlen hnewfit hone hrun
    | link oldDentry newDentry => exact hone.elim
    | symlink oldname parentpath dentry =>
      obtain ⟨hp, hlen, hfit⟩ := hdentry dentry (List.mem_cons_of_mem _ List.mem_cons_self)
      obtain ⟨rfl, hparent⟩ := hone
      have hold : getabsfullpath parentpath (getabsfullpathfromdentry dentry) =
          getabsfullpathfromdentry dentry := if_pos dentry.head?_abspath
      show ∃ there', restore targetdir there (createiologforcreatesymlink seqNo _
        (getabsfullpath parentpath (getabsfullpathfromdentry dentry))).logfile = some there' ∧ _
      rw [hold]
      exact symlink_mirrored h hp hlen hfit seqNo hparent hrun

/-! ## Runs of operations -/

theorem siteStep_synced {env : Env} {d : Driver} {guid : GUID} {targetdir : CString} {there : Files}
    (hdir : targetdir.bytes.length + filereplMaxPath ≤ targetpathSize) {m : Nat} (hm : m < 2 ^ 64)
    {s : Site} {c : VfsCall} (h : Synced d guid targetdir there m s) (hc : Replayable env d guid s c) :
    Synced d guid targetdir there (m + 1) (siteStep env s c) := by
  obtain ⟨hscope, ⟨hok, e, he, hguid, p₀, hp₀, hhand⟩, hone⟩ := hc
  obtain ⟨log, hqueue, hascending, hbelow, there₁, hreplay, hmirrors⟩ := h.log
  obtain ⟨hnumbered, hpe⟩ := (setAtHand_iff h.wf).mp ⟨hp₀, hhand⟩
  rcases hookCall_cases env h.wf
    (c := ⟨c.op.hook, c.ts, callRet (c.op.run s.live), c.allocOk⟩) he hok with
    ⟨hnone, -⟩ | ⟨p, hp, hset, hqueue', hsets, -⟩
  · exact absurd (hnone.symm.trans hnumbered) nofun
  obtain rfl : p = p₀ := Option.some.inj (hset.symm.trans hnumbered)
  generalize hseqNo : SeqNo.mk _ p.ullSetSeqNo _ _ = seqNo at hqueue'
  have hseq : seqNo.ullGlobalSeqNo = p.ullSetSeqNo := by rw [← hseqNo]
  have hpg : p.guidSetId = guid := hpe.trans hguid
  have hcount := h.counter p hp hpg
  have hnumber : seqNo.ullGlobalSeqNo.toNat = m := by
    rw [hseq, hcount, UInt64.toNat_ofNat', Nat.mod_eq_of_lt hm]
  obtain ⟨fields, hrecord⟩ := c.op.hook.recordOf_eq (callRet (c.op.run s.live)) seqNo
  obtain ⟨there₂, hrestore, hmirrors'⟩ := op_mirrored hdir hscope hone hmirrors seqNo
  have hgseq : (c.op.hook.recordOf (callRet (c.op.run s.live)) seqNo).logfile.hdr.ullGolbalSeqNo.toNat
      = m := by
    rw [hrecord]
    exact hnumber
  refine ⟨opStep_wf env s.driver (.hook _) h.wf, fun q hq hqg => ?_, ?_⟩
  · obtain ⟨q₀, hq₀, rfl⟩ := List.mem_map.mp (show q ∈ List.map _ s.driver.sets from hsets ▸ hq)
    by_cases hqp : q₀ = p
    · rw [if_pos hqp, MonitorSetEntry.next, hcount, UInt64.ofNat_add]
      rfl
    · rw [if_neg hqp] at hqg
      exact absurd (guid_unique h.wf.sets_sorted hq₀ hp (hqg.trans hpg.symm)) hqp
  · refine ⟨log ++ [c.op.hook.recordOf (callRet (c.op.run s.live)) seqNo], ?_, ?_, ?_, there₂, ?_,
      hmirrors'⟩
    · rw [siteStep, hqueue', hqueue, List.append_assoc]
    · refine List.pairwise_append.mpr ⟨hascending, List.pairwise_singleton _ _, fun a ha b hb => ?_⟩
      rw [List.mem_singleton.mp hb, hgseq]
      exact hbelow a ha
    · intro r hr
      rcases List.mem_append.mp hr with hold | hnew
      · exact Nat.lt_succ_of_lt (hbelow r hold)
      · rw [List.mem_singleton.mp hnew, hgseq]
        exact Nat.lt_succ_self m
    · rw [replay] at hreplay
      rw [replay, List.map_append, List.foldlM_append, hreplay]
      simp [hrestore]

theorem states_synced {env : Env} {d : Driver} {guid : GUID} {targetdir : CString} {there : Files}
    (hdir : targetdir.bytes.length + filereplMaxPath ≤ targetpathSize) {calls : List VfsCall}
    {m : Nat} (hm : m + calls.length ≤ 2 ^ 64) {s : Site} (h : Synced d guid targetdir there m s)
    (hcalls : Along (siteStep env) (Replayable env d guid) s calls) :
    ∀ t ∈ states (siteStep env) s calls, ∃ m, Synced d guid targetdir there m t := by
  induction calls generalizing m s with
  | nil =>
    intro t ht
    obtain rfl := List.mem_singleton.mp ht
    exact ⟨m, h⟩
  | cons c calls ih =>
    rw [List.length_cons] at hm
    intro t ht
    rcases List.mem_cons.mp ht with rfl | ht
    · exact ⟨m, h⟩
    · exact ih (m := m + 1) (by omega) (siteStep_synced hdir (by omega) h hcalls.1) hcalls.2 t ht

/-- A log with ascending numbers is sorted in one way only. -/
theorem eq_of_perm_ascending {log log' : List LogFile} (hperm : log.Perm log')
    (hsorted : log.Pairwise fun a b => a.hdr.ullGolbalSeqNo ≤ b.hdr.ullGolbalSeqNo)
    (hascending : log'.Pairwise fun a b =>
      a.hdr.ullGolbalSeqNo.toNat < b.hdr.ullGolbalSeqNo.toNat) : log = log' := by
  have hle : log'.Pairwise fun a b => a.hdr.ullGolbalSeqNo ≤ b.hdr.ullGolbalSeqNo :=
    hascending.imp fun hlt => UInt64.le_iff_toNat_le.mpr hlt.le
  refine hperm.eq_of_pairwise (fun a b ha hb hab hba => ?_) hsorted hle
  have hnum : a.hdr.ullGolbalSeqNo.toNat = b.hdr.ullGolbalSeqNo.toNat :=
    Nat.le_antisymm (UInt64.le_iff_toNat_le.mp hab) (UInt64.le_iff_toNat_le.mp hba)
  have hinj : (log'.map fun a => a.hdr.ullGolbalSeqNo.toNat).Nodup :=
    List.pairwise_map.mpr (hascending.imp fun hlt => hlt.ne)
  exact List.inj_on_of_nodup_map hinj (hperm.subset ha) hb hnum

/-- In every state of every run of replayable operations, from any state of the
driver whose set has a number left for each of them: applying the records that
were produced in the order of their numbers gives a copy of the monitored tree,
if there was one at the start. -/
theorem replay_mirrors (env : Env) (cnf : Bytes) (nalloc : Nat) (ops : List Op) (guid : GUID)
    (targetdir : CString) (hdir : targetdir.bytes.length + filereplMaxPath ≤ targetpathSize)
    (live there : Files) (calls : List VfsCall) :
    let d := run (opStep env) (initMonitorSet env cnf nalloc) ops
    FS.Mirrors (Monitored d guid) (pathNames targetdir.bytes) (targetText targetdir) live there →
    Along (siteStep env) (Replayable env d guid) ⟨d, live⟩ calls →
    (∀ p ∈ d.sets, p.guidSetId = guid → p.ullSetSeqNo.toNat + calls.length ≤ 2 ^ 64) →
    ∀ s ∈ states (siteStep env) ⟨d, live⟩ calls, ∀ log, log.Perm (produced d s) →
      log.Pairwise (fun a b => a.hdr.ullGolbalSeqNo ≤ b.hdr.ullGolbalSeqNo) →
      ∃ there', replay targetdir there log = some there' ∧
        FS.Mirrors (Monitored d guid) (pathNames targetdir.bytes) (targetText targetdir)
          s.live there' := by
  intro d hmirrors hcalls hroom s hs log hperm hsorted
  have hwf : d.WF := states_wf env cnf nalloc ops d (run_mem_states _ _)
  -- the counter of the set, or any number when the set is not there
  obtain ⟨m, hm, hcounter⟩ : ∃ m, m + calls.length ≤ 2 ^ 64 ∧
      ∀ p ∈ d.sets, p.guidSetId = guid → p.ullSetSeqNo = UInt64.ofNat m := by
    by_cases hset : ∃ p ∈ d.sets, p.guidSetId = guid
    · obtain ⟨p, hp, hpg⟩ := hset
      refine ⟨p.ullSetSeqNo.toNat, hroom p hp hpg, fun q hq hqg => ?_⟩
      rw [guid_unique hwf.sets_sorted hq hp (hqg.trans hpg.symm), UInt64.ofNat_toNat]
    · cases calls with
      | nil => exact ⟨0, by decide, fun p hp hpg => absurd ⟨p, hp, hpg⟩ hset⟩
      | cons c calls =>
        obtain ⟨-, e, -, heg, p, hp, hhand⟩ := hcalls.1.2.1
        exact absurd ⟨p, hp, hhand.1.trans heg⟩ hset
  have hstart : Synced d guid targetdir there m ⟨d, live⟩ :=
    ⟨hwf, hcounter, [], (List.append_nil _).symm, List.Pairwise.nil, nofun, there, rfl, hmirrors⟩
  obtain ⟨m', hsynced⟩ := states_synced hdir hm hstart hcalls s hs
  obtain ⟨log', hqueue, hascending, -, there', hreplay, hmirrors'⟩ := hsynced.log
  have hproduced : produced d s = log'.map (·.logfile) := by
    rw [produced, hqueue, List.drop_left]
  rw [hproduced] at hperm
  rw [eq_of_perm_ascending hperm hsorted (List.pairwise_map.mpr hascending)]
  exact ⟨there', hreplay, hmirrors'⟩

/-! ## Concrete runs -/

/-- A dentry of one-letter names. -/
def dentryA : Dentry := ⟨[[97]], by decide, by decide, by decide⟩

def dentryAB : Dentry := ⟨[[97], [98]], by decide, by decide, by decide⟩

def dentryAC : Dentry := ⟨[[97], [99]], by decide, by decide, by decide⟩

instance (d : Driver) (guid : GUID) (p : List Bytes) : Decidable (Monitored d guid p) :=
  inferInstanceAs (Decidable (∃ e ∈ d.files, _))

instance (d : Driver) (guid : GUID) (s : Site) (c : VfsCall) : Decidable (InScope d guid s c) :=
  inferInstanceAs (Decidable (_ ∧ _))

instance (env : Env) (guid : GUID) (s : Site) (c : VfsCall) : Decidable (Logged env guid s c) :=
  inferInstanceAs (Decidable (_ ∧ ∃ e ∈ hookTarget s.driver c.op.hook, _))

instance (d : Driver) (guid : GUID) (s : Site) : ∀ op, Decidable (OnePath d guid s op)
  | .create page dentry =>
    inferInstanceAs (Decidable (page = true ∧
      (getabsfullpathfromnd page dentry).bytes.length < filereplMaxPath))
  | .mkdir _ | .unlink _ | .rmdir _ => inferInstanceAs (Decidable True)
  | .rename oldDentry newDentry =>
    inferInstanceAs (Decidable (s.live.SameFile oldDentry.names newDentry.names))
  | .link _ _ => inferInstanceAs (Decidable False)
  | .symlink oldname _ dentry =>
    inferInstanceAs (Decidable (oldname = getabsfullpathfromdentry dentry ∧
      Monitored d guid dentry.names.dropLast))

instance (env : Env) (d : Driver) (guid : GUID) (s : Site) (c : VfsCall) :
    Decidable (Replayable env d guid s c) :=
  inferInstanceAs (Decidable (_ ∧ _))

/-- The directory `/t`. -/
def targetT : CString := ⟨[47, 116], by decide⟩

/-- A file system in which `/t` is the only entry. -/
def filesT : Files := ignoring (FS.rootOnly.mkdir [[116]]) FS.rootOnly

/-- The driver with `/a` as the one item. -/
def driverA : Driver :=
  run (opStep quietKernel) (initMonitorSet quietKernel [] 0) [.command (.addSet oneItemRequest)]

theorem mirrors_driverA :
    FS.Mirrors (Monitored driverA oneItemRequest.guidSetId) (pathNames targetT.bytes)
      (targetText targetT) FS.rootOnly filesT := by
  have hitems : ∀ e ∈ driverA.files, pathNames e.wcsMonitorFile.bytes ≠ [] := by decide +kernel
  have hpart : ∀ p, Monitored driverA oneItemRequest.guidSetId p → p ≠ [] := by
    rintro p ⟨e, he, -, hp⟩ rfl
    exact hitems e he (List.prefix_nil.mp hp)
  have hnode : ∀ q, filesT.node q = if q = [[116]] then some .dir else if q = [] then some .dir
      else none := fun _ => rfl
  have htarget : pathNames targetT.bytes = [[116]] := by decide
  rw [htarget]
  refine FS.Mirrors.of_absent (fun a ha => ?_) (fun p hp => if_neg (hpart p hp)) (fun p hp => ?_) hpart
  · rw [hnode]
    rcases List.prefix_cons_iff.mp ha with rfl | ⟨b, rfl, hb⟩
    · rfl
    · rw [List.prefix_nil.mp hb, if_pos rfl]
  · rw [hnode, if_neg (by simpa using hp), if_neg (by simp)]

def vfsCall (op : VfsOp) : VfsCall := ⟨op, ⟨0, 0⟩, true⟩

theorem replay_mirrors_one_item :
    let calls := [VfsOp.mkdir dentryA, .create true dentryAB,
      .symlink (getabsfullpathfromdentry dentryAC) ⟨[], by decide⟩ dentryAC,
      .rename dentryAB dentryAB, .unlink dentryAC, .mkdir dentryAC, .rmdir dentryAC].map vfsCall
    let s := run (siteStep quietKernel) ⟨driverA, FS.rootOnly⟩ calls
    ∃ there', replay targetT filesT (produced driverA s) = some there' ∧
      FS.Mirrors (Monitored driverA oneItemRequest.guidSetId) (pathNames targetT.bytes)
        (targetText targetT) s.live there' := by
  intro calls s
  exact replay_mirrors quietKernel [] 0 [.command (.addSet oneItemRequest)] oneItemRequest.guidSetId
    targetT (by decide) FS.rootOnly filesT calls mirrors_driverA (by decide +kernel)
    (by decide +kernel) s (run_mem_states _ _) _ (List.Perm.refl _) (by decide +kernel)

/-- `/a/b` is made and renamed to `/a/c`. All three operations are in scope and
logged with ascending numbers, the target directory is a copy at the start, and
the replay leaves `/t/a/b` where the tree has `/a/c`. -/
theorem rename_not_replayed :
    let guid := oneItemRequest.guidSetId
    let calls := [VfsOp.mkdir dentryA, .create true dentryAB, .rename dentryAB dentryAC].map vfsCall
    let s := run (siteStep quietKernel) ⟨driverA, FS.rootOnly⟩ calls
    FS.Mirrors (Monitored driverA guid) (pathNames targetT.bytes) (targetText targetT)
      FS.rootOnly filesT ∧
    Along (siteStep quietKernel) (fun s c => InScope driverA guid s c ∧ Logged quietKernel guid s c)
      ⟨driverA, FS.rootOnly⟩ calls ∧
    (produced driverA s).Pairwise (fun a b => a.hdr.ullGolbalSeqNo < b.hdr.ullGolbalSeqNo) ∧
    ∃ there', replay targetT filesT (produced driverA s) = some there' ∧
      s.live.node [[97], [98]] = none ∧ s.live.node [[97], [99]] = some (.file 0) ∧
      there'.node [[116], [97], [98]] = some (.file 0) ∧ there'.node [[116], [97], [99]] = none ∧
      ¬ FS.Mirrors (Monitored driverA guid) (pathNames targetT.bytes) (targetText targetT)
        s.live there' := by
  intro guid calls s
  have hreplayed : (replay targetT filesT (produced driverA s)).map (fun fs =>
      (fs.node [[116], [97], [98]], fs.node [[116], [97], [99]])) = some (some (.file 0), none) := by
    decide +kernel
  obtain ⟨there', hreplay, hnodes⟩ := Option.map_eq_some_iff.mp hreplayed
  obtain ⟨hb, hc⟩ := Prod.mk.inj hnodes
  have hlive : s.live.node [[97], [99]] = some (.file 0) := by decide +kernel
  have hpart : Monitored driverA guid [[97], [99]] := by decide +kernel
  refine ⟨mirrors_driverA, by decide +kernel, by decide +kernel, there', hreplay, by decide +kernel,
    hlive, hb, hc, fun h => ?_⟩
  have hnone := (h.node_eq_none hpart).mp hc
  simp [hlive] at hnone

end RtBackup
