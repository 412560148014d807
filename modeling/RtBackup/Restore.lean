import RtBackup.HookVfs
import RtBackup.Lib.Mirror
import RtBackup.Lib.PathName

/-!
# Applying a record to a target directory (`test/RestoreIolog.c`)

`restore` puts the target directory before the paths of a record and repeats the
record's operation there. It ignores what its calls return. The paths are meant
to fit their buffers of 1024 bytes.

Results:
1. `mkdirP_fills`: `mkdir_p` makes the directories on the way to its path, when
   no other file is in the way.
2. `restore_mkdir`, `restore_create`, `restore_unlink`, `restore_rmdir`,
   `restore_rename`, `restore_symlink`: the calls that a record leads to.
-/

namespace RtBackup

open ByteFile Namespace PathName

/-! ## Files of the machine -/

/-- Names, texts of symbolic links and contents are bytes. -/
abbrev Files := FS Bytes CString Bytes

def slash : UInt8 := 47

theorem slash_noNul : (0 : UInt8) ∉ [slash] := by decide

/-- The names that a path goes through, from the root on. -/
def pathNames (path : Bytes) : List Bytes := components slash path

/-- The path that `open` reaches: a symbolic link in the last place is followed,
`ELOOP` comes after `fuel` of them. -/
def follow (fs : Files) : Nat → List Bytes → Option (List Bytes)
  | 0, _ => none
  | fuel + 1, p =>
    match fs.node p with
    | some (.symlink _ text) =>
      follow fs fuel <|
        if text.bytes.head? = some slash then pathNames text.bytes
        else p.dropLast ++ pathNames text.bytes
    | _ => some p

/-- `MAXSYMLINKS`. -/
def maxSymlinks : Nat := 40

/-- A call whose status is ignored. -/
def ignoring (call : Except Errno Files) (fs : Files) : Files := call.toOption.getD fs

/-- `open` with `O_CREAT` and `close`. -/
def openCreat (path : Bytes) (fs : Files) : Files :=
  match follow fs (maxSymlinks + 1) (pathNames path) with
  | none => fs
  | some p => ignoring (fs.create p []) fs

/-- `open` with `O_WRONLY`, `lseek`, `write` and `close`. A negative offset leaves
the position at 0. -/
def openWrite (path : Bytes) (offset : UInt64) (buf : Bytes) (fs : Files) : Files :=
  match (follow fs (maxSymlinks + 1) (pathNames path)).bind fs.node with
  | some (.file ino) =>
    if buf = [] then fs
    else fs.write ino fun f => pwrite f (if offset.toNat < 2 ^ 63 then offset.toNat else 0) buf
  | _ => fs

/-! ## `RestoreIolog.c` -/

/-- The string that `dir_parent` copies, empty when the path has no `/`. -/
def dirParent (p : Bytes) : Bytes := parent slash p

/-- The loop of `mkdir_p`: before each `/` but one at the start, `mkdir` of what
stands before it. -/
def mkdirFrom (fs : Files) (done : Bytes) : Bytes → Files × Int
  | [] => (fs, 0)
  | c :: rest =>
    if c = slash ∧ done ≠ [] then
      match fs.mkdir (pathNames done) with
      | .ok fs => mkdirFrom fs (done ++ [c]) rest
      | .error .exist => mkdirFrom fs (done ++ [c]) rest
      | .error _ => (fs, -1)
    else mkdirFrom fs (done ++ [c]) rest

def mkdirP (path : Bytes) (fs : Files) : Files × Int :=
  mkdirFrom fs [] (if path.getLast? = some slash then path else path ++ [slash])

/-- `Data` as the string that `strcat` appends. -/
def dataString (data : Bytes) : CString := ⟨cut data, zero_not_mem_cut data⟩

/-- The size of `targetpath` and of `targetoldpath`. -/
def targetpathSize : Nat := 1024

/-- No result where a path does not fit its buffer. -/
def restore (targetdir : CString) (fs : Files) (iologfile : LogFile) : Option Files :=
  let targetpath := targetdir.append iologfile.hdr.wszFilePath.toCString
  let targetoldpath := targetdir.append (dataString iologfile.data)
  let path := pathNames targetpath.bytes
  let oldpath := pathNames targetoldpath.bytes
  let withOldpath (call : Except Errno Files) : Option Files :=
    if targetpathSize ≤ targetoldpath.bytes.length then none else some (ignoring call fs)
  if targetpathSize ≤ targetpath.bytes.length then none
  else if iologfile.hdr.ulType = logFileTypeDeletefile then
    if iologfile.hdr.bIsDir ≠ 0 then some (ignoring (fs.rmdir path) fs)
    else some (ignoring (fs.unlink path) fs)
  else if iologfile.hdr.ulType = logFileTypeHardlink then withOldpath (fs.link oldpath path)
  else if iologfile.hdr.ulType = logFileTypeNewfile then
    if iologfile.hdr.bIsDir ≠ 0 then some (mkdirP targetpath.bytes fs).1
    else some (openCreat targetpath.bytes (mkdirP (dirParent targetpath.bytes) fs).1)
  else if iologfile.hdr.ulType = logFileTypeRenamefile then withOldpath (fs.rename oldpath path)
  else if iologfile.hdr.ulType = logFileTypeSoftlink then
    withOldpath (fs.symlink targetoldpath path)
  else if iologfile.hdr.ulType = logFileTypeWrite then
    some (openWrite targetpath.bytes iologfile.hdr.writeByteOffset
      (iologfile.data.take iologfile.hdr.writeLength.toNat) fs)
  else some fs

/-! ## `mkdir_p` -/

/-- One `mkdir` of the loop. -/
theorem mkdir_flush {fs₀ fs : Files} {st : Scan UInt8} (hf : fs₀.Fills st.1 fs)
    (hclear : ∀ a, a <+: flush st → fs₀.node a = none ∨ fs₀.node a = some .dir) :
    (∃ fs', fs.mkdir (flush st) = .ok fs' ∧ fs₀.Fills (flush st) fs') ∨
    (fs.mkdir (flush st) = .error .exist ∧ fs₀.Fills (flush st) fs) := by
  unfold flush at hclear ⊢
  split
  · exact .inr ⟨hf.mkdir_exist, hf⟩
  · next hw =>
    rw [if_neg hw] at hclear
    exact hf.mkdir (hclear _ (List.prefix_refl _))

/-- The names that are complete in `done` are directories, and nothing else is on
the way to the rest: then the loop makes all directories. -/
theorem mkdirFrom_fills {fs₀ : Files} (rest done : Bytes) {fs : Files}
    (hf : fs₀.Fills (done.foldl (scan slash) ([], [])).1 fs)
    (hclear : ∀ a, a <+: pathNames (done ++ rest) → fs₀.node a = none ∨ fs₀.node a = some .dir) :
    ∃ fs', mkdirFrom fs done rest = (fs', 0) ∧
      fs₀.Fills ((done ++ rest).foldl (scan slash) ([], [])).1 fs' := by
  induction rest generalizing done fs with
  | nil =>
    rw [List.append_nil]
    exact ⟨fs, rfl, hf⟩
  | cons c rest ih =>
    rw [List.append_cons] at hclear ⊢
    have hscan : (done ++ [c]).foldl (scan slash) ([], []) =
        scan slash (done.foldl (scan slash) ([], [])) c := List.foldl_append
    by_cases hc : c = slash ∧ done ≠ []
    · have hnames : ((done ++ [c]).foldl (scan slash) ([], [])).1 = pathNames done := by
        rw [hscan, scan, if_pos hc.1]
        rfl
      have hprefix : pathNames done <+: pathNames (done ++ [c] ++ rest) := by
        rw [hc.1, ← List.append_cons, pathNames, pathNames, components_append_sep]
        exact List.prefix_append _ _
      rw [mkdirFrom, if_pos hc]
      rcases mkdir_flush hf (fun a ha => hclear a (ha.trans hprefix)) with
        ⟨fs', heq, hf'⟩ | ⟨heq, hf'⟩
      · rw [pathNames, components, heq]
        exact ih _ (hnames ▸ hf') hclear
      · rw [pathNames, components, heq]
        exact ih _ (hnames ▸ hf') hclear
    · rw [mkdirFrom, if_neg hc]
      refine ih _ ?_ hclear
      rw [hscan, scan]
      split
      · next hslash =>
        -- a `/` at the start
        obtain rfl : done = [] := not_not.mp fun hd => hc ⟨hslash, hd⟩
        exact hf
      · exact hf

theorem mkdirP_fills (path : Bytes) {fs : Files}
    (hclear : ∀ a, a <+: pathNames path → fs.node a = none ∨ fs.node a = some .dir) :
    ∃ fs', mkdirP path fs = (fs', 0) ∧ fs.Fills (pathNames path) fs' := by
  -- the scanned string is one that ends with `/`
  have hends : ∃ s, (if path.getLast? = some slash then path else path ++ [slash]) = s ++ [slash] ∧
      pathNames path = pathNames s := by
    split
    · next hlast =>
      obtain ⟨s, rfl⟩ := List.getLast?_eq_some_iff.mp hlast
      exact ⟨s, rfl, components_trailing_sep s⟩
    · exact ⟨path, rfl, rfl⟩
  obtain ⟨s, hs, hnames⟩ := hends
  have hlast : pathNames (s ++ [slash]) = pathNames s := components_trailing_sep s
  rw [mkdirP, hs, hnames]
  obtain ⟨fs', heq, hf⟩ := mkdirFrom_fills (s ++ [slash]) [] (FS.Fills.refl fs) <| by
    rw [List.nil_append, hlast, ← hnames]
    exact hclear
  refine ⟨fs', heq, ?_⟩
  rw [List.nil_append, List.foldl_append, List.foldl_cons, List.foldl_nil, scan, if_pos rfl] at hf
  exact hf

/-! ## Records -/

/-- A file is created where there is nothing. -/
theorem openCreat_of_absent {path : Bytes} {fs : Files} (h : fs.node (pathNames path) = none) :
    openCreat path fs = ignoring (fs.create (pathNames path) []) fs := by
  have hfollow : follow fs (maxSymlinks + 1) (pathNames path) = some (pathNames path) := by
    rw [follow, h]
  rw [openCreat, hfollow]

theorem clamp_eq {path : CString} (h : path.bytes.length ≤ filereplMaxPath) :
    (FieldString.clamp filereplMaxPath path).toCString = path :=
  CString.ext (List.take_of_length_le h)

/-- A second path is read back as it was stored. -/
theorem dataString_pathData {path : CString} (h : path.bytes.length ≤ filereplMaxPath) :
    dataString (pathData path) = path := by
  have hbytes : pathData path = path.bytes := List.take_of_length_le h
  refine CString.ext ?_
  rw [dataString, hbytes]
  exact (List.append_nil path.bytes ▸ cut_append_zeros path.noNul 0 :)

section

variable {targetdir path : CString} (hpath : path.bytes.length ≤ filereplMaxPath)
  (hfit : (targetdir.append path).bytes.length < targetpathSize) (fs : Files) (seqNo : SeqNo)

include hpath hfit

theorem restore_mkdir :
    restore targetdir fs (createiologformkdir seqNo path).logfile =
      some (mkdirP (targetdir.append path).bytes fs).1 := by
  simp [restore, createiologformkdir, logRecord, clamp_eq hpath, Nat.not_le.mpr hfit,
    logFileTypeNewfile, logFileTypeDeletefile, logFileTypeHardlink]

theorem restore_create :
    restore targetdir fs (createiologforcreatefile seqNo path).logfile =
      some (openCreat (targetdir.append path).bytes
        (mkdirP (dirParent (targetdir.append path).bytes) fs).1) := by
  simp [restore, createiologforcreatefile, logRecord, clamp_eq hpath, Nat.not_le.mpr hfit,
    logFileTypeNewfile, logFileTypeDeletefile, logFileTypeHardlink]

theorem restore_rmdir :
    restore targetdir fs (createiologforrmdir seqNo path).logfile =
      some (ignoring (fs.rmdir (pathNames (targetdir.append path).bytes)) fs) := by
  simp [restore, createiologforrmdir, logRecord, clamp_eq hpath, Nat.not_le.mpr hfit]

theorem restore_unlink :
    restore targetdir fs (createiologforrmfile seqNo path).logfile =
      some (ignoring (fs.unlink (pathNames (targetdir.append path).bytes)) fs) := by
  simp [restore, createiologforrmfile, logRecord, clamp_eq hpath, Nat.not_le.mpr hfit]

variable {newpath : CString} (hnewpath : newpath.bytes.length ≤ filereplMaxPath)
  (hnewfit : (targetdir.append newpath).bytes.length < targetpathSize)

include hnewpath hnewfit

/-- The file at the new path goes to the old one. -/
theorem restore_rename :
    restore targetdir fs (createiologforrename seqNo path newpath).logfile =
      some (ignoring (fs.rename (pathNames (targetdir.append newpath).bytes)
        (pathNames (targetdir.append path).bytes)) fs) := by
  simp [restore, createiologforrename, logRecord, clamp_eq hpath, Nat.not_le.mpr hfit,
    dataString_pathData hnewpath, Nat.not_le.mpr hnewfit, logFileTypeNewfile,
    logFileTypeDeletefile, logFileTypeHardlink, logFileTypeRenamefile]

/-- A link to the new path is made at the path that the new one should lead to. -/
theorem restore_symlink :
    restore targetdir fs (createiologforcreatesymlink seqNo newpath path).logfile =
      some (ignoring (fs.symlink (targetdir.append newpath)
        (pathNames (targetdir.append path).bytes)) fs) := by
  simp [restore, createiologforcreatesymlink, logRecord, clamp_eq hpath, Nat.not_le.mpr hfit,
    dataString_pathData hnewpath, Nat.not_le.mpr hnewfit, logFileTypeNewfile,
    logFileTypeDeletefile, logFileTypeHardlink, logFileTypeRenamefile, logFileTypeSoftlink]

end

end RtBackup
