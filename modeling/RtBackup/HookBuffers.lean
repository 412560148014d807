import RtBackup.Threads

/-!
# The buffers of the hooks

A hook must not be noticed: it calls the original function once, with its own
arguments, and returns what that returned, whatever else goes wrong. What can go
wrong is that one of the two or three buffers for its paths cannot be allocated.
Every hook compares its buffers with NULL before it uses them; `rtb_vfs_rmdir`
leaves out one of them.

Results:
1. `HookBody.transparent_iff`: a hook is transparent exactly if it does not get
   to use a buffer that it has not compared.
2. `HookBody.call_of_all`: with its buffers, it does to the driver what
   `hookCall` says.
3. `hooks_transparent_iff`: the eight hooks are transparent, except for
   `rtb_vfs_rmdir` when the buffer of the log directory is not there.
-/

namespace RtBackup

open ByteFile Runs

/-! ## The eight hooks -/

/-- The local buffers of `PATH_MAX` bytes. -/
inductive Buffer where
  | abspath
  | oldabspath
  | newabspath
  | iologdir
deriving DecidableEq

/-- A hook with its buffers. -/
structure HookBody where
  hook : Hook
  /-- In the order of their `kmalloc`. -/
  buffers : List Buffer
  /-- Those that the hook compares with NULL. -/
  compared : List Buffer
  /-- In the order of their `memset`, and of their `kfree` at the end. -/
  cleared : List Buffer
  /-- Those that the paths are written to. -/
  paths : List Buffer
  /-- Without its buffers, the hook frees those it has (`goto out`), or it
  returns at once. -/
  frees : Bool
  paths_cleared : ∀ b ∈ paths, b ∈ cleared := by decide
  iologdir_cleared : Buffer.iologdir ∈ cleared := by decide

namespace HookBody

def rtbVfsRename (oldabspath newabspath : CString) : HookBody where
  hook := RtBackup.rtbVfsRename oldabspath newabspath
  buffers := [.iologdir, .oldabspath, .newabspath]
  compared := [.oldabspath, .newabspath, .iologdir]
  cleared := [.oldabspath, .newabspath, .iologdir]
  paths := [.newabspath, .oldabspath]
  frees := true

def rtbVfsUnlink (abspath : CString) : HookBody where
  hook := RtBackup.rtbVfsUnlink abspath
  buffers := [.iologdir, .abspath]
  compared := [.abspath, .iologdir]
  cleared := [.abspath, .iologdir]
  paths := [.abspath]
  frees := false

/-- The only hook that does not compare `iologdir`. -/
def rtbVfsRmdir (abspath : CString) : HookBody where
  hook := RtBackup.rtbVfsRmdir abspath
  buffers := [.iologdir, .abspath]
  compared := [.abspath]
  cleared := [.abspath, .iologdir]
  paths := [.abspath]
  frees := false

def rtbVfsCreate (hasInode : Bool) (abspath : CString) : HookBody where
  hook := RtBackup.rtbVfsCreate hasInode abspath
  buffers := [.iologdir, .abspath]
  compared := [.abspath, .iologdir]
  cleared := [.abspath, .iologdir]
  paths := [.abspath]
  frees := true

def rtbVfsSymlink (oldabspath newabspath : CString) : HookBody where
  hook := RtBackup.rtbVfsSymlink oldabspath newabspath
  buffers := [.iologdir, .oldabspath, .newabspath]
  compared := [.oldabspath, .newabspath, .iologdir]
  cleared := [.oldabspath, .newabspath, .iologdir]
  paths := [.oldabspath, .newabspath]
  frees := true

def rtbVfsLink (oldabspath newabspath : CString) : HookBody where
  hook := RtBackup.rtbVfsLink oldabspath newabspath
  buffers := [.oldabspath, .newabspath, .iologdir]
  compared := [.oldabspath, .newabspath, .iologdir]
  cleared := [.oldabspath, .newabspath, .iologdir]
  paths := [.oldabspath, .newabspath]
  frees := true

def rtbVfsMkdir (abspath : CString) : HookBody where
  hook := RtBackup.rtbVfsMkdir abspath
  buffers := [.iologdir, .abspath]
  compared := [.abspath, .iologdir]
  cleared := [.abspath, .iologdir]
  paths := [.abspath]
  frees := true

def rtbVfsWrite (writeOnly : Bool) (iret : Int) (abspath : CString) (buf : Bytes)
    (offset : UInt64) : HookBody where
  hook := RtBackup.rtbVfsWrite writeOnly iret abspath buf offset
  buffers := [.abspath, .iologdir]
  compared := [.abspath, .iologdir]
  cleared := [.abspath, .iologdir]
  paths := [.abspath]
  frees := false

end HookBody

/-! ## A call of a hook -/

variable {α : Type}

/-- What a hook does, apart from the driver. -/
inductive Action (α : Type) where
  | kmalloc (buf : Buffer)
  | write (buf : Buffer)
  | run (args : List α)
  | kfree (buf : Buffer)
deriving DecidableEq

/-- What the kernel answers: whether each `kmalloc` succeeds, what the original
function returns, the time, and whether the record of the log can be allocated. -/
structure Answers (α : Type) where
  kmalloc : Buffer → Bool
  run : List α → Int
  ts : Timespec
  allocOk : Bool

/-- How a call ends. Nothing is returned when the hook used a NULL pointer. -/
structure Outcome (α : Type) where
  driver : Driver
  actions : List (Action α)
  ret : Option Int

/-- `memset` of one buffer after the other, up to the first that is NULL. -/
def memsets (kmalloc : Buffer → Bool) : List Buffer → List (Action α) × Bool
  | [] => ([], true)
  | b :: bs =>
    if kmalloc b then (.write b :: (memsets kmalloc bs).1, (memsets kmalloc bs).2)
    else ([.write b], false)

/-- The buffer that `GetMonitorFileSeqNoByMonitorFileEntry` may write to. -/
def Entered.writes : Entered → List Buffer
  | .logged _ => [.iologdir]
  | .bypass | .unlogged => []

namespace HookBody

def call (env : Env) (k : Answers α) (body : HookBody) (args : List α) (d : Driver) : Outcome α :=
  if d.enabled = false ∨ body.hook.bypass = true then ⟨d, [.run args], some (k.run args)⟩
  else
    let allocated := body.buffers.map .kmalloc
    let freed := (body.cleared.filter k.kmalloc).map .kfree
    if body.compared.all k.kmalloc = false then
      ⟨d, allocated ++ .run args :: (if body.frees then freed else []), some (k.run args)⟩
    else
      match memsets k.kmalloc body.cleared with
      | (cleared, false) => ⟨d, allocated ++ cleared, none⟩
      | (cleared, true) =>
        let filled := allocated ++ cleared ++ body.paths.map .write
        match hookEnter env k.ts body.hook d with
        | (d, entered) =>
          ⟨hookExit k.allocOk (k.run args) body.hook entered d,
            filled ++ entered.writes.map .write ++ .run args :: freed, some (k.run args)⟩

end HookBody

/-! ## Transparency -/

/-- The arguments of the calls of the original function. -/
def runs (actions : List (Action α)) : List (List α) :=
  actions.filterMap fun
    | .run args => some args
    | .kmalloc _ | .write _ | .kfree _ => none

/-- The original function is called once, with the arguments of the hook, its
result is returned, and no buffer is written to that is not there. -/
def Transparent (k : Answers α) (args : List α) (out : Outcome α) : Prop :=
  runs out.actions = [args] ∧ out.ret = some (k.run args) ∧
    ∀ b, Action.write b ∈ out.actions → k.kmalloc b = true

theorem runs_append (xs ys : List (Action α)) : runs (xs ++ ys) = runs xs ++ runs ys :=
  List.filterMap_append

theorem runs_map {f : Buffer → Action α} (h : ∀ b, runs [f b] = []) (bs : List Buffer) :
    runs (bs.map f) = [] := by
  induction bs with
  | nil => rfl
  | cons b bs ih =>
    rw [List.map_cons, ← List.singleton_append, runs_append, h, ih]
    rfl

theorem runs_kmalloc (bs : List Buffer) : runs (bs.map .kmalloc : List (Action α)) = [] :=
  runs_map (fun _ => rfl) bs

theorem runs_write (bs : List Buffer) : runs (bs.map .write : List (Action α)) = [] :=
  runs_map (fun _ => rfl) bs

theorem runs_kfree (bs : List Buffer) : runs (bs.map .kfree : List (Action α)) = [] :=
  runs_map (fun _ => rfl) bs

theorem runs_run (args : List α) (xs : List (Action α)) :
    runs (.run args :: xs) = args :: runs xs := rfl

theorem memsets_of_all {kmalloc : Buffer → Bool} {bs : List Buffer}
    (h : ∀ b ∈ bs, kmalloc b = true) :
    memsets kmalloc bs = ((bs.map .write : List (Action α)), true) := by
  induction bs with
  | nil => rfl
  | cons b bs ih =>
    rw [memsets, if_pos (h b List.mem_cons_self), ih fun b' hb => h b' (List.mem_cons_of_mem _ hb)]
    rfl

/-- The `memset` of a NULL pointer ends the hook. -/
theorem memsets_of_null {kmalloc : Buffer → Bool} {bs : List Buffer}
    (h : ∃ b ∈ bs, kmalloc b = false) :
    ∃ actions : List (Action α), memsets kmalloc bs = (actions, false) ∧
      ∃ b, Action.write b ∈ actions ∧ kmalloc b = false := by
  induction bs with
  | nil => exact absurd h (by simp)
  | cons b bs ih =>
    cases hb : kmalloc b with
    | false => exact ⟨[.write b], by rw [memsets, hb]; rfl, b, List.mem_singleton_self _, hb⟩
    | true =>
      have hrest : ∃ b' ∈ bs, kmalloc b' = false := by simpa [hb] using h
      obtain ⟨actions, heq, b', hmem, hnull⟩ := ih hrest
      refine ⟨.write b :: actions, ?_, b', List.mem_cons_of_mem _ hmem, hnull⟩
      rw [memsets, if_pos hb, heq]

namespace HookBody

variable {env : Env} {k : Answers α} {body : HookBody} {args : List α} {d : Driver}

/-- With its buffers, a hook does to the driver what `hookCall` says. -/
theorem call_of_all (hon : ¬(d.enabled = false ∨ body.hook.bypass = true))
    (hcompared : body.compared.all k.kmalloc = true)
    (hall : ∀ b ∈ body.cleared, k.kmalloc b = true) :
    body.call env k args d =
      ⟨hookCall env ⟨body.hook, k.ts, k.run args, k.allocOk⟩ d,
        body.buffers.map .kmalloc ++ body.cleared.map .write ++ body.paths.map .write ++
          (hookEnter env k.ts body.hook d).2.writes.map .write ++
          .run args :: (body.cleared.filter k.kmalloc).map .kfree,
        some (k.run args)⟩ := by
  unfold call hookCall
  rw [if_neg hon, if_neg (by simp [hcompared]), memsets_of_all hall]

/-- Without a buffer that the hook looks at, the original function is called, and no
buffer is touched. -/
theorem transparent_of_null (hon : ¬(d.enabled = false ∨ body.hook.bypass = true))
    (hcompared : body.compared.all k.kmalloc = false) :
    Transparent k args (body.call env k args d) := by
  unfold call
  rw [if_neg hon, if_pos hcompared]
  refine ⟨?_, rfl, ?_⟩
  · rw [runs_append, runs_kmalloc, runs_run]
    split
    · rw [runs_kfree]
      rfl
    · rfl
  · intro b hb
    split at hb <;> simp at hb

/-- A hook that is transparent has each buffer that it clears. -/
theorem cleared_of_transparent (hon : ¬(d.enabled = false ∨ body.hook.bypass = true))
    (hcompared : body.compared.all k.kmalloc = true)
    (ht : Transparent k args (body.call env k args d)) :
    ∀ b ∈ body.cleared, k.kmalloc b = true := by
  by_contra hnot
  have hnull : ∃ b ∈ body.cleared, k.kmalloc b = false := by simpa using hnot
  obtain ⟨actions, hmemset, b, hmem, hb⟩ := memsets_of_null (α := α) hnull
  unfold call at ht
  rw [if_neg hon, if_neg (by simp [hcompared]), hmemset] at ht
  have htrue := ht.2.2 b (List.mem_append_right _ hmem)
  exact absurd htrue (by simp [hb])

theorem writes_cleared {entered : Entered} {b : Buffer} (h : b ∈ entered.writes) :
    b ∈ body.cleared := by
  cases entered with
  | logged seqNo => exact List.mem_singleton.1 h ▸ body.iologdir_cleared
  | bypass => exact absurd h List.not_mem_nil
  | unlogged => exact absurd h List.not_mem_nil

/-- A hook writes only to buffers that it has cleared. -/
theorem transparent_of_all (hon : ¬(d.enabled = false ∨ body.hook.bypass = true))
    (hcompared : body.compared.all k.kmalloc = true)
    (hall : ∀ b ∈ body.cleared, k.kmalloc b = true) :
    Transparent k args (body.call env k args d) := by
  rw [call_of_all hon hcompared hall]
  refine ⟨?_, rfl, ?_⟩
  · simp only [runs_append, runs_kmalloc, runs_write, runs_run, runs_kfree, List.nil_append]
  · intro b hb
    have hcases : b ∈ body.cleared ∨ b ∈ body.paths ∨
        b ∈ (hookEnter env k.ts body.hook d).2.writes := by
      simpa using hb
    rcases hcases with hmem | hmem | hmem
    · exact hall b hmem
    · exact hall b (body.paths_cleared b hmem)
    · exact hall b (writes_cleared hmem)

theorem transparent_iff :
    Transparent k args (body.call env k args d) ↔
      d.enabled = false ∨ body.hook.bypass = true ∨ (∃ b ∈ body.compared, k.kmalloc b = false) ∨
        ∀ b ∈ body.cleared, k.kmalloc b = true := by
  by_cases hoff : d.enabled = false ∨ body.hook.bypass = true
  · unfold call
    rw [if_pos hoff, ← or_assoc]
    exact iff_of_true ⟨rfl, rfl, by simp⟩ (.inl hoff)
  rw [← or_assoc, or_iff_right hoff]
  cases hcompared : body.compared.all k.kmalloc with
  | false =>
    have hnull : ∃ b ∈ body.compared, k.kmalloc b = false := by simpa using hcompared
    exact iff_of_true (transparent_of_null hoff hcompared) (.inl hnull)
  | true =>
    have hthere : ¬∃ b ∈ body.compared, k.kmalloc b = false := by simpa using hcompared
    rw [or_iff_right hthere]
    exact ⟨cleared_of_transparent hoff hcompared, transparent_of_all hoff hcompared⟩

end HookBody

/-! ## Calls of the hooked functions -/

/-- A call of a hooked function: its arguments, and what the hook learns from
them. -/
inductive HookedCall (α : Type) where
  | rename (oldDir oldDentry newDir newDentry : α) (oldabspath newabspath : CString)
  | unlink (dir dentry : α) (abspath : CString)
  | rmdir (dir dentry : α) (abspath : CString)
  | create (dir dentry mode nd : α) (hasInode : Bool) (abspath : CString)
  | symlink (dir dentry oldname : α) (oldabspath newabspath : CString)
  | link (oldDentry dir newDentry : α) (oldabspath newabspath : CString)
  | mkdir (dir dentry mode : α) (abspath : CString)
  | write (file buf count pos : α) (writeOnly : Bool) (iret : Int) (abspath : CString)
      (data : Bytes) (offset : UInt64)

namespace HookedCall

def hookedFunction : HookedCall α → HookedFunction
  | .rename .. => .rename
  | .unlink .. => .unlink
  | .rmdir .. => .rmdir
  | .create .. => .create
  | .symlink .. => .symlink
  | .link .. => .link
  | .mkdir .. => .mkdir
  | .write .. => .write

def body : HookedCall α → HookBody
  | .rename _ _ _ _ oldabspath newabspath => .rtbVfsRename oldabspath newabspath
  | .unlink _ _ abspath => .rtbVfsUnlink abspath
  | .rmdir _ _ abspath => .rtbVfsRmdir abspath
  | .create _ _ _ _ hasInode abspath => .rtbVfsCreate hasInode abspath
  | .symlink _ _ _ oldabspath newabspath => .rtbVfsSymlink oldabspath newabspath
  | .link _ _ _ oldabspath newabspath => .rtbVfsLink oldabspath newabspath
  | .mkdir _ _ _ abspath => .rtbVfsMkdir abspath
  | .write _ _ _ _ writeOnly iret abspath data offset =>
    .rtbVfsWrite writeOnly iret abspath data offset

/-- The arguments in the order of the hook's parameters. -/
def received : HookedCall α → List α
  | .rename oldDir oldDentry newDir newDentry _ _ => [oldDir, oldDentry, newDir, newDentry]
  | .unlink dir dentry _ | .rmdir dir dentry _ => [dir, dentry]
  | .create dir dentry mode nd _ _ => [dir, dentry, mode, nd]
  | .symlink dir dentry oldname _ _ => [dir, dentry, oldname]
  | .link oldDentry dir newDentry _ _ => [oldDentry, dir, newDentry]
  | .mkdir dir dentry mode _ => [dir, dentry, mode]
  | .write file buf count pos _ _ _ _ _ => [file, buf, count, pos]

/-- The arguments of the hook's `run(...)`. -/
def passed : HookedCall α → List α
  | .rename oldDir oldDentry newDir newDentry _ _ => [oldDir, oldDentry, newDir, newDentry]
  | .unlink dir dentry _ | .rmdir dir dentry _ => [dir, dentry]
  | .create dir dentry mode nd _ _ => [dir, dentry, mode, nd]
  | .symlink dir dentry oldname _ _ => [dir, dentry, oldname]
  | .link oldDentry dir newDentry _ _ => [oldDentry, dir, newDentry]
  | .mkdir dir dentry mode _ => [dir, dentry, mode]
  | .write file buf count pos _ _ _ _ _ => [file, buf, count, pos]

def run (env : Env) (k : Answers α) (call : HookedCall α) (d : Driver) : Outcome α :=
  call.body.call env k call.passed d

theorem passed_eq (call : HookedCall α) : call.passed = call.received := by
  cases call <;> rfl

/-- `rtb_vfs_rmdir` has a path buffer and no buffer for the log directory. -/
def MissesIologdir (k : Answers α) (call : HookedCall α) : Prop :=
  call.hookedFunction = .rmdir ∧ k.kmalloc .abspath = true ∧ k.kmalloc .iologdir = false

theorem exists_rmdir {call : HookedCall α} (h : call.hookedFunction = .rmdir) :
    ∃ dir dentry abspath, call = .rmdir dir dentry abspath := by
  cases call with
  | rmdir dir dentry abspath => exact ⟨dir, dentry, abspath, rfl⟩
  | rename | unlink | create | symlink | link | mkdir | write => exact absurd h nofun

/-- Every hook but `rtb_vfs_rmdir` compares the buffers that it uses. -/
theorem cleared_compared {call : HookedCall α} (h : call.hookedFunction ≠ .rmdir) :
    ∀ b ∈ call.body.cleared, b ∈ call.body.compared := by
  cases call with
  | rmdir => exact absurd rfl h
  | rename | unlink | create | symlink | link | mkdir | write => exact fun b hb => hb

theorem buffers_iff (k : Answers α) (call : HookedCall α) :
    ((∃ b ∈ call.body.compared, k.kmalloc b = false) ∨
        ∀ b ∈ call.body.cleared, k.kmalloc b = true) ↔ ¬call.MissesIologdir k := by
  by_cases hrmdir : call.hookedFunction = .rmdir
  · obtain ⟨dir, dentry, abspath, rfl⟩ := exists_rmdir hrmdir
    simp only [MissesIologdir, hookedFunction, body, HookBody.rtbVfsRmdir, List.mem_singleton,
      exists_eq_left, List.forall_mem_cons, true_and]
    cases k.kmalloc .abspath <;> simp
  · refine iff_of_true ?_ fun hmisses => hrmdir hmisses.1
    by_cases hall : ∀ b ∈ call.body.cleared, k.kmalloc b = true
    · exact .inr hall
    · obtain ⟨b, hb, hnull⟩ : ∃ b ∈ call.body.cleared, k.kmalloc b = false := by simpa using hall
      exact .inl ⟨b, cleared_compared hrmdir b hb, hnull⟩

theorem bypass_of_misses {k : Answers α} {call : HookedCall α} (h : call.MissesIologdir k) :
    call.body.hook.bypass = false := by
  obtain ⟨dir, dentry, abspath, rfl⟩ := exists_rmdir h.1
  rfl

end HookedCall

/-- The hooks are transparent, in every state that the driver can be in and
whatever buffers they obtain, except for `rtb_vfs_rmdir` of the enabled driver
when it has obtained `abspath` and not `iologdir`. -/
theorem hooks_transparent_iff (env : Env) (cnf : Bytes) (nalloc : Nat) (events : List Event) :
    ∀ s ∈ states (sysStep env) (Sys.start env cnf nalloc) events, ∀ (k : Answers α)
      (call : HookedCall α),
      Transparent k call.received (call.run env k s.driver) ↔
        ¬(s.driver.enabled = true ∧ call.MissesIologdir k) := by
  intro s _ k call
  rw [HookedCall.run, call.passed_eq, HookBody.transparent_iff, call.buffers_iff]
  constructor
  · rintro (hoff | hbypass | hbuffers) ⟨hon, hmisses⟩
    · exact absurd (hoff.symm.trans hon) nofun
    · exact absurd (hbypass.symm.trans (HookedCall.bypass_of_misses hmisses)) nofun
    · exact hbuffers hmisses
  · intro hnot
    cases hon : s.driver.enabled with
    | false => exact .inl rfl
    | true => exact .inr (.inr fun hmisses => hnot ⟨hon, hmisses⟩)

/-! ## Concrete runs -/

/-- The driver after its first set. -/
def oneSet : List Event := [.command (.addSet oneItemRequest)]

/-- `rmdir` of `/a/c`, with 3 and 5 for the inode and the directory entry. -/
def rmdirAC : HookedCall Nat := .rmdir 3 5 pathAC

/-- The answers when one buffer cannot be allocated, and the directory is not
empty. -/
def without (buf : Buffer) : Answers Nat where
  kmalloc b := b ≠ buf
  run _ := -39
  ts := ⟨0, 0⟩
  allocOk := true

theorem hooks_transparent_iff_no_abspath :
    let s := run (sysStep quietKernel) (Sys.start quietKernel [] 0) oneSet
    Transparent (without .abspath) [3, 5] (rmdirAC.run quietKernel (without .abspath) s.driver) :=
  (hooks_transparent_iff quietKernel [] 0 oneSet _ (run_mem_states _ _) (without .abspath)
    rmdirAC).mpr fun h => absurd h.2.2.1 (by decide)

/-- `rmdir` of `/a/c` without a buffer for the log directory: the NULL pointer is
cleared, and the original function is not called. -/
theorem rmdir_clears_null :
    let s := run (sysStep quietKernel) (Sys.start quietKernel [] 0) oneSet
    let out := rmdirAC.run quietKernel (without .iologdir) s.driver
    ¬Transparent (without .iologdir) [3, 5] out ∧
      out.actions = [.kmalloc .iologdir, .kmalloc .abspath, .write .abspath, .write .iologdir] ∧
      out.ret = none := by
  refine ⟨fun h => absurd h.2.1 ?_, ?_, ?_⟩
  · decide +kernel
  · decide +kernel
  · decide +kernel

end RtBackup
