import Mathlib.Data.List.Induction
import Mathlib.Logic.Function.Basic

/-!
# A POSIX namespace

A file system maps paths, lists of names, to directories, regular files and
symbolic links. Files and links have inode numbers, names with one number are
hard links. A path is used as the names that the kernel walks, so no proper
prefix of it is a symbolic link, and no call follows one in the last place.

Results:
1. `mkdir_adds`, `create_adds`, `symlink_adds`, `unlink_removes`,
   `rmdir_removes`: what a successful call does to every name.
2. `create_ok`, `symlink_ok`, `unlink_ok`, `rmdir_ok`, `rename_same_file`: when a
   call succeeds.
3. `Fills.mkdir`: one step of making all directories on the way to a path.
-/

namespace Namespace

/-! ## File systems -/

/-- What a name stands for. -/
inductive Node (τ : Type*) where
  | dir
  | file (ino : Nat)
  | symlink (ino : Nat) (text : τ)
deriving DecidableEq

def Node.ino? {τ : Type*} : Node τ → Option Nat
  | .dir => none
  | .file ino | .symlink ino _ => some ino

/-- A file system whose entries all lie in directories. -/
structure FS (α τ β : Type*) where
  node : List α → Option (Node τ)
  /-- A list of paths that has all entries. -/
  paths : List (List α)
  /-- The contents of regular files. -/
  data : Nat → β
  /-- The next unused inode number. -/
  next : Nat
  root : node [] = some .dir
  closed : ∀ p, p ≠ [] → node p ≠ none → node p.dropLast = some .dir
  listed : ∀ p, node p ≠ none → p ∈ paths
  used : ∀ p n, node p = some n → ∀ i ∈ n.ino?, i < next

inductive Errno where
  | noent
  | exist
  | notdir
  | isdir
  | notempty
  | inval
  | perm
deriving DecidableEq

variable {α τ β : Type*}

namespace FS

/-- A file system with nothing but its root. -/
def rootOnly [Inhabited β] [DecidableEq α] : FS α τ β where
  node p := if p = [] then some .dir else none
  paths := [[]]
  data _ := default
  next := 0
  root := if_pos rfl
  closed p hp h := absurd (if_neg hp) h
  listed p h := by
    by_contra hp
    exact h (if_neg (mt List.mem_singleton.mpr hp))
  used p n h i hi := by
    split at h
    · obtain rfl := Option.some.inj h
      simp [Node.ino?] at hi
    · simp at h

theorem dropLast_ne {p : List α} (h : p ≠ []) : p.dropLast ≠ p := by
  intro heq
  have hlen := congrArg List.length heq
  have hpos := List.length_pos_iff.mpr h
  rw [List.length_dropLast] at hlen
  omega

theorem ne_nil_of_absent {fs : FS α τ β} {p : List α} (h : fs.node p = none) : p ≠ [] := by
  rintro rfl
  simp [fs.root] at h

/-- Every directory above an entry is there. -/
theorem dir_of_prefix {fs : FS α τ β} {p : List α} (hp : fs.node p ≠ none) {a : List α}
    (ha : a <+: p) (hne : a ≠ p) : fs.node a = some .dir := by
  induction p using List.reverseRecOn with
  | nil => exact absurd (List.prefix_nil.mp ha) hne
  | append_singleton p x ih =>
    have hparent := fs.closed (p ++ [x]) (by simp) hp
    rw [List.dropLast_concat] at hparent
    rcases List.prefix_concat_iff.mp ha with h | h
    · exact absurd h hne
    · by_cases hap : a = p
      · exact hap ▸ hparent
      · exact ih (by simp [hparent]) h hap

/-- The inode number of a name. -/
def ino? (fs : FS α τ β) (p : List α) : Option Nat := (fs.node p).bind Node.ino?

/-- Two names of one file. -/
def SameFile (fs : FS α τ β) (p q : List α) : Prop := p = q ∨ ∃ i ∈ fs.ino? p, i ∈ fs.ino? q

theorem SameFile.symm {fs : FS α τ β} {p q : List α} (h : fs.SameFile p q) : fs.SameFile q p := by
  rcases h with rfl | ⟨i, hp, hq⟩
  · exact .inl rfl
  · exact .inr ⟨i, hq, hp⟩

theorem SameFile.node_ne_none {fs : FS α τ β} {p q : List α} (h : fs.SameFile p q)
    (hp : fs.node p ≠ none) : fs.node q ≠ none := by
  rcases h with rfl | ⟨i, -, hq⟩
  · exact hp
  · intro hn
    rw [ino?, hn] at hq
    simp at hq

variable [DecidableEq α]

instance (fs : FS α τ β) (p q : List α) : Decidable (fs.SameFile p q) :=
  inferInstanceAs (Decidable (_ ∨ _))

/-- Nothing lies directly under a path. -/
def isLeaf (fs : FS α τ β) (p : List α) : Bool :=
  fs.paths.all fun q => q = [] ∨ q.dropLast ≠ p ∨ fs.node q = none

theorem isLeaf_iff {fs : FS α τ β} {p : List α} :
    fs.isLeaf p = true ↔ ∀ q, q ≠ [] → q.dropLast = p → fs.node q = none := by
  unfold isLeaf
  rw [List.all_eq_true]
  constructor
  · intro h q hq hp
    by_contra hn
    rcases of_decide_eq_true (h q (fs.listed q hn)) with h' | h' | h'
    · exact hq h'
    · exact h' hp
    · exact hn h'
  · intro h q _
    rw [decide_eq_true_iff]
    by_cases hq : q = []
    · exact .inl hq
    · by_cases hp : q.dropLast = p
      · exact .inr (.inr (h q hq hp))
      · exact .inr (.inl hp)

/-- Under anything but a directory there is nothing. -/
theorem isLeaf_of_not_dir {fs : FS α τ β} {p : List α} (h : fs.node p ≠ some .dir) :
    fs.isLeaf p = true := by
  rw [isLeaf_iff]
  intro q hq hp
  by_contra hn
  exact h (hp ▸ fs.closed q hq hn)

/-! ## Changes of a name -/

/-- A new name in a directory. -/
def add (fs : FS α τ β) (p : List α) (n : Node τ) (next : Nat) (data : Nat → β)
    (habsent : fs.node p = none) (hparent : fs.node p.dropLast = some .dir)
    (hnext : fs.next ≤ next) (hino : ∀ i ∈ n.ino?, i < next) : FS α τ β where
  node q := if q = p then some n else fs.node q
  paths := p :: fs.paths
  data := data
  next := next
  root := by rw [if_neg (ne_nil_of_absent habsent).symm, fs.root]
  closed q hq hn := by
    have hp := ne_nil_of_absent habsent
    by_cases hqp : q = p
    · rw [hqp, if_neg (dropLast_ne hp), hparent]
    · rw [if_neg hqp] at hn
      have hdir := fs.closed q hq hn
      rw [if_neg ?_, hdir]
      intro heq
      simp [← heq, hdir] at habsent
  listed q hn := by
    by_cases hqp : q = p
    · exact hqp ▸ List.mem_cons_self
    · rw [if_neg hqp] at hn
      exact List.mem_cons_of_mem _ (fs.listed q hn)
  used q m hm i hi := by
    by_cases hqp : q = p
    · rw [if_pos hqp] at hm
      obtain rfl := Option.some.inj hm
      exact hino i hi
    · rw [if_neg hqp] at hm
      exact Nat.lt_of_lt_of_le (fs.used q m hm i hi) hnext

/-- A name with nothing under it goes. -/
def remove (fs : FS α τ β) (p : List α) (hp : p ≠ []) (hleaf : fs.isLeaf p = true) : FS α τ β where
  node q := if q = p then none else fs.node q
  paths := fs.paths
  data := fs.data
  next := fs.next
  root := by rw [if_neg hp.symm, fs.root]
  closed q hq hn := by
    by_cases hqp : q = p
    · simp [hqp] at hn
    · rw [if_neg hqp] at hn
      rw [if_neg ?_, fs.closed q hq hn]
      intro heq
      exact hn (isLeaf_iff.mp hleaf q hq heq)
  listed q hn := by
    by_cases hqp : q = p
    · simp [hqp] at hn
    · rw [if_neg hqp] at hn
      exact fs.listed q hn
  used q m hm := by
    by_cases hqp : q = p
    · simp [hqp] at hm
    · rw [if_neg hqp] at hm
      exact fs.used q m hm

/-- A name moves, with all that lies under it. -/
def move (fs : FS α τ β) (old new : List α) (hnew : fs.node new = none)
    (hparent : fs.node new.dropLast = some .dir) (hout : ¬ old <+: new) : FS α τ β where
  node q :=
    if new <+: q then fs.node (old ++ q.drop new.length)
    else if old <+: q then none
    else fs.node q
  paths := fs.paths ++ fs.paths.map fun q => new ++ q.drop old.length
  data := fs.data
  next := fs.next
  root := by
    have hold : old ≠ [] := fun h => hout (h ▸ List.nil_prefix)
    rw [if_neg fun h => ne_nil_of_absent hnew (List.prefix_nil.mp h),
      if_neg fun h => hold (List.prefix_nil.mp h), fs.root]
  closed q hq hn := by
    by_cases hin : new <+: q
    · obtain ⟨r, rfl⟩ := hin
      rw [if_pos (List.prefix_append new r), List.drop_left] at hn
      by_cases hr : r = []
      · -- the moved name itself: its parent is not under either name
        subst hr
        rw [List.append_nil, if_neg ?_, if_neg fun h => hout (h.trans (List.dropLast_prefix new)),
          hparent]
        exact fun h => dropLast_ne (ne_nil_of_absent hnew)
          (h.eq_of_length_le (List.dropLast_prefix new).length_le).symm
      · rw [List.dropLast_append_of_ne_nil hr, if_pos (List.prefix_append _ _), List.drop_left,
          ← List.dropLast_append_of_ne_nil hr]
        exact fs.closed (old ++ r) (by simp [hr]) hn
    · rw [if_neg hin] at hn
      by_cases hout' : old <+: q
      · simp [hout'] at hn
      · rw [if_neg hout'] at hn
        rw [if_neg fun h => hin (h.trans (List.dropLast_prefix q)),
          if_neg fun h => hout' (h.trans (List.dropLast_prefix q)), fs.closed q hq hn]
  listed q hn := by
    by_cases hin : new <+: q
    · obtain ⟨r, rfl⟩ := hin
      rw [if_pos (List.prefix_append new r), List.drop_left] at hn
      exact List.mem_append_right _ (List.mem_map.mpr ⟨old ++ r, fs.listed _ hn, by simp⟩)
    · rw [if_neg hin] at hn
      by_cases hout' : old <+: q
      · simp [hout'] at hn
      · rw [if_neg hout'] at hn
        exact List.mem_append_left _ (fs.listed q hn)
  used q m hm := by
    by_cases hin : new <+: q
    · rw [if_pos hin] at hm
      exact fs.used _ m hm
    · rw [if_neg hin] at hm
      by_cases hout' : old <+: q
      · simp [hout'] at hm
      · rw [if_neg hout'] at hm
        exact fs.used q m hm

/-! ## System calls -/

variable [DecidableEq τ]

/-- A call that makes a name: `EEXIST`, or `ENOENT` or `ENOTDIR` for its parent. -/
def make (fs : FS α τ β) (p : List α) (n : Node τ) (next : Nat) (data : Nat → β)
    (hnext : fs.next ≤ next) (hino : ∀ i ∈ n.ino?, i < next) : Except Errno (FS α τ β) :=
  if habsent : fs.node p = none then
    if hparent : fs.node p.dropLast = some .dir then
      .ok (fs.add p n next data habsent hparent hnext hino)
    else if fs.node p.dropLast = none then .error .noent
    else .error .notdir
  else .error .exist

def mkdir (fs : FS α τ β) (p : List α) : Except Errno (FS α τ β) :=
  fs.make p .dir fs.next fs.data (Nat.le_refl _) nofun

/-- A new regular file with these contents. -/
def create (fs : FS α τ β) (p : List α) (contents : β) : Except Errno (FS α τ β) :=
  fs.make p (.file fs.next) (fs.next + 1) (Function.update fs.data fs.next contents)
    (Nat.le_succ _) (fun i hi => by obtain rfl := Option.some.inj hi; exact Nat.lt_succ_self _)

def symlink (fs : FS α τ β) (text : τ) (p : List α) : Except Errno (FS α τ β) :=
  fs.make p (.symlink fs.next text) (fs.next + 1) fs.data
    (Nat.le_succ _) (fun i hi => by obtain rfl := Option.some.inj hi; exact Nat.lt_succ_self _)

def link (fs : FS α τ β) (old new : List α) : Except Errno (FS α τ β) :=
  match h : fs.node old with
  | none => .error .noent
  | some .dir => .error .perm
  | some n => fs.make new n fs.next fs.data (Nat.le_refl _) (fs.used old n h)

def unlink (fs : FS α τ β) (p : List α) : Except Errno (FS α τ β) :=
  if fs.node p = none then .error .noent
  else if hdir : fs.node p = some .dir then .error .isdir
  else .ok (fs.remove p (fun h => hdir (h ▸ fs.root)) (isLeaf_of_not_dir hdir))

def rmdir (fs : FS α τ β) (p : List α) : Except Errno (FS α τ β) :=
  if fs.node p = none then .error .noent
  else if fs.node p ≠ some .dir then .error .notdir
  else if hp : p = [] then .error .inval
  else if hleaf : fs.isLeaf p = true then .ok (fs.remove p hp hleaf)
  else .error .notempty

/-- What a directory, and what anything else, may replace. -/
def replaceable (fs : FS α τ β) (old new : List α) : Option Errno :=
  if fs.node new = none then none
  else if fs.node old = some .dir then
    if fs.node new ≠ some .dir then some .notdir
    else if fs.isLeaf new = false then some .notempty
    else none
  else if fs.node new = some .dir then some .isdir
  else none

def rename (fs : FS α τ β) (old new : List α) : Except Errno (FS α τ β) :=
  if fs.node old = none then .error .noent
  else if fs.SameFile old new then .ok fs
  else if hout : old <+: new then .error .inval
  else if hparent : fs.node new.dropLast = some .dir then
    match fs.replaceable old new with
    | some errno => .error errno
    | none =>
      if hnew : fs.node new = none then .ok (fs.move old new hnew hparent hout)
      else if hroot : new = [] then .error .inval
      else if hleaf : fs.isLeaf new = true then
        .ok ((fs.remove new hroot hleaf).move old new (if_pos rfl)
          ((if_neg (dropLast_ne hroot)).trans hparent) hout)
      else .error .notempty
  else if fs.node new.dropLast = none then .error .noent
  else .error .notdir

/-- `write` to an open file. -/
def write (fs : FS α τ β) (ino : Nat) (f : β → β) : FS α τ β :=
  { fs with data := Function.update fs.data ino (f (fs.data ino)) }

/-! ## What a successful call does -/

/-- The one change is a new name in a directory, with a new inode if it has one. -/
structure Adds (fs : FS α τ β) (p : List α) (n : Node τ) (fs' : FS α τ β) : Prop where
  absent : fs.node p = none
  parent : fs.node p.dropLast = some .dir
  node : ∀ q, fs'.node q = if q = p then some n else fs.node q
  inode : ∀ i ∈ n.ino?, i = fs.next
  data : ∀ i < fs.next, fs'.data i = fs.data i

/-- The one change is that a name is gone. -/
structure Removes (fs : FS α τ β) (p : List α) (fs' : FS α τ β) : Prop where
  node : ∀ q, fs'.node q = if q = p then none else fs.node q
  data : fs'.data = fs.data

omit [DecidableEq τ] in
theorem Adds.dir_above {fs fs' : FS α τ β} {p : List α} {n : Node τ} (h : fs.Adds p n fs')
    {q : List α} (hq : q <+: p) (hne : q ≠ p) : fs.node q = some .dir := by
  have hthere := fs'.dir_of_prefix (by simp [h.node p]) hq hne
  rwa [h.node, if_neg hne] at hthere

/-- Every name on the way to `c` is a directory; the other names stay. -/
structure Fills (fs : FS α τ β) (c : List α) (fs' : FS α τ β) : Prop where
  clear : ∀ a, a <+: c → fs.node a = none ∨ fs.node a = some .dir
  node : ∀ q, fs'.node q = if q <+: c then some .dir else fs.node q
  data : fs'.data = fs.data

theorem make_ok {fs : FS α τ β} {p : List α} {n : Node τ} {next : Nat} {data : Nat → β}
    {hnext : fs.next ≤ next} {hino : ∀ i ∈ n.ino?, i < next} (habsent : fs.node p = none)
    (hparent : fs.node p.dropLast = some .dir) :
    fs.make p n next data hnext hino = .ok (fs.add p n next data habsent hparent hnext hino) := by
  rw [make, dif_pos habsent, dif_pos hparent]

theorem make_adds {fs fs' : FS α τ β} {p : List α} {n : Node τ} {next : Nat} {data : Nat → β}
    {hnext : fs.next ≤ next} {hino : ∀ i ∈ n.ino?, i < next}
    (h : fs.make p n next data hnext hino = .ok fs') (hnew : ∀ i ∈ n.ino?, i = fs.next)
    (hdata : ∀ i < fs.next, data i = fs.data i) : fs.Adds p n fs' := by
  unfold make at h
  split at h
  · next habsent =>
    split at h
    · next hparent =>
      obtain rfl := Except.ok.inj h
      exact ⟨habsent, hparent, fun _ => rfl, hnew, hdata⟩
    · split at h <;> simp at h
  · simp at h

theorem mkdir_adds {fs fs' : FS α τ β} {p : List α} (h : fs.mkdir p = .ok fs') :
    fs.Adds p .dir fs' := make_adds h nofun fun _ _ => rfl

theorem create_adds {fs fs' : FS α τ β} {p : List α} {contents : β}
    (h : fs.create p contents = .ok fs') :
    fs.Adds p (.file fs.next) fs' ∧ fs'.data fs.next = contents := by
  refine ⟨make_adds h (fun i hi => (Option.some.inj hi).symm)
    fun i hi => Function.update_of_ne (Nat.ne_of_lt hi) _ _, ?_⟩
  unfold create make at h
  split at h
  · split at h
    · obtain rfl := Except.ok.inj h
      exact Function.update_self _ _ _
    · split at h <;> simp at h
  · simp at h

theorem symlink_adds {fs fs' : FS α τ β} {text : τ} {p : List α}
    (h : fs.symlink text p = .ok fs') : fs.Adds p (.symlink fs.next text) fs' :=
  make_adds h (fun _ hi => (Option.some.inj hi).symm) fun _ _ => rfl

theorem create_ok {fs : FS α τ β} {p : List α} (habsent : fs.node p = none)
    (hparent : fs.node p.dropLast = some .dir) (contents : β) :
    ∃ fs', fs.create p contents = .ok fs' := ⟨_, make_ok habsent hparent⟩

theorem symlink_ok {fs : FS α τ β} {p : List α} (habsent : fs.node p = none)
    (hparent : fs.node p.dropLast = some .dir) (text : τ) : ∃ fs', fs.symlink text p = .ok fs' :=
  ⟨_, make_ok habsent hparent⟩

theorem unlink_removes {fs fs' : FS α τ β} {p : List α} (h : fs.unlink p = .ok fs') :
    fs.node p ≠ none ∧ fs.node p ≠ some .dir ∧ fs.Removes p fs' := by
  unfold unlink at h
  split at h
  · simp at h
  · next hp =>
    split at h
    · simp at h
    · next hdir =>
      obtain rfl := Except.ok.inj h
      exact ⟨hp, hdir, fun _ => rfl, rfl⟩

theorem unlink_ok {fs : FS α τ β} {p : List α} (hp : fs.node p ≠ none)
    (hdir : fs.node p ≠ some .dir) : ∃ fs', fs.unlink p = .ok fs' :=
  ⟨_, by rw [unlink, if_neg hp, dif_neg hdir]⟩

theorem rmdir_removes {fs fs' : FS α τ β} {p : List α} (h : fs.rmdir p = .ok fs') :
    p ≠ [] ∧ fs.node p = some .dir ∧ fs.isLeaf p = true ∧ fs.Removes p fs' := by
  unfold rmdir at h
  split at h
  · simp at h
  · split at h
    · simp at h
    · next hdir =>
      split at h
      · simp at h
      · next hp =>
        split at h
        · next hleaf =>
          obtain rfl := Except.ok.inj h
          exact ⟨hp, not_not.mp hdir, hleaf, fun _ => rfl, rfl⟩
        · simp at h

theorem rmdir_ok {fs : FS α τ β} {p : List α} (hp : p ≠ []) (hdir : fs.node p = some .dir)
    (hleaf : fs.isLeaf p = true) : ∃ fs', fs.rmdir p = .ok fs' := by
  refine ⟨fs.remove p hp hleaf, ?_⟩
  rw [rmdir, if_neg (by simp [hdir]), if_neg (not_not.mpr hdir), dif_neg hp, dif_pos hleaf]

omit [DecidableEq τ] in
theorem Fills.refl (fs : FS α τ β) : fs.Fills [] fs where
  clear a ha := by
    rw [List.prefix_nil.mp ha]
    exact .inr fs.root
  node q := by
    split
    · next hq => rw [List.prefix_nil.mp hq, fs.root]
    · rfl
  data := rfl

theorem Fills.mkdir_exist {fs fs' : FS α τ β} {c : List α} (h : fs.Fills c fs') :
    fs'.mkdir c = .error .exist := by
  have hc : fs'.node c ≠ none := by simp [h.node c]
  rw [FS.mkdir, make, dif_neg hc]

theorem Fills.mkdir {fs fs' : FS α τ β} {c : List α} {w : α} (h : fs.Fills c fs')
    (hw : fs.node (c ++ [w]) = none ∨ fs.node (c ++ [w]) = some .dir) :
    (∃ fs'', fs'.mkdir (c ++ [w]) = .ok fs'' ∧ fs.Fills (c ++ [w]) fs'') ∨
    (fs'.mkdir (c ++ [w]) = .error .exist ∧ fs.Fills (c ++ [w]) fs') := by
  have hlast : fs'.node (c ++ [w]) = fs.node (c ++ [w]) := by
    rw [h.node, if_neg]
    intro hpre
    have hlen := hpre.length_le
    rw [List.length_append, List.length_singleton] at hlen
    omega
  have hclear : ∀ a, a <+: c ++ [w] → fs.node a = none ∨ fs.node a = some .dir := by
    intro a ha
    rcases List.prefix_concat_iff.mp ha with rfl | ha
    · exact hw
    · exact h.clear a ha
  rcases hw with hnone | hdir
  · refine .inl ⟨_, make_ok (hlast.trans hnone) ?_, hclear, fun q => ?_, h.data⟩
    · rw [List.dropLast_concat, h.node, if_pos (List.prefix_refl c)]
    · show (if q = c ++ [w] then some .dir else fs'.node q) = _
      rw [h.node]
      simp only [List.prefix_concat_iff]
      by_cases hq : q = c ++ [w] <;> simp [hq]
  · refine .inr ⟨?_, hclear, fun q => ?_, h.data⟩
    · rw [FS.mkdir, make, dif_neg]
      simp [hlast, hdir]
    · rw [h.node]
      simp only [List.prefix_concat_iff]
      by_cases hq : q = c ++ [w]
      · rw [hq, hdir]
        simp
      · simp [hq]

theorem rename_source {fs fs' : FS α τ β} {old new : List α} (h : fs.rename old new = .ok fs') :
    fs.node old ≠ none := by
  intro hn
  rw [rename, if_pos hn] at h
  simp at h

/-- A rename between two names of one file does nothing. -/
theorem rename_same_file {fs : FS α τ β} {old new : List α} (hold : fs.node old ≠ none)
    (h : fs.SameFile old new) : fs.rename old new = .ok fs := by
  rw [rename, if_neg hold, if_pos h]

end FS

end Namespace
