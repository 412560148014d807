import RtBackup.GetPath

/-!
# The walk over dentries (`getpath.c`)

The functions of `GetPath` on pointers: a dentry has a pointer to its parent, the
root points to itself, and the depth is counted by a loop that runs until it gets
there. The names are appended to a buffer of `PATH_MAX` bytes; nothing is returned
where they do not fit.

Results:
1. `Represents.getabsparentpathfromdentry`: the loops on pointers do what the
   functions do on the way to the dentry.
2. `dentry_walk_spells_path`: a chain of dentries is spelled by its names, and
   chains with different names are spelled differently;
   `deleted_and_new_share_path`: chains with the same names are not.
-/

namespace RtBackup

open ByteFile PathName

/-! ## Dentries in memory -/

/-- The fields of `struct dentry` that the walk reads. `d_name.len` is the length of
`d_name.name`. -/
structure Dcache (δ : Type) where
  dParent : δ → δ
  dName : δ → CString

def pathMax : Nat := 4096

/-- `strncat` to a buffer of `PATH_MAX` bytes, `none` where it writes behind it. -/
def strncat (abspath src : Bytes) (n : Nat) : Option Bytes :=
  if (abspath ++ src.take n).length < pathMax then some (abspath ++ src.take n) else none

namespace Dcache

variable {δ : Type} [DecidableEq δ] (dcache : Dcache δ)

/-- `while (pdentry != pdentry->d_parent)`, with the dentry where it ends. -/
def countDepth : Nat → δ → Nat → Option (Nat × δ)
  | 0, _, _ => none
  | fuel + 1, pdentry, depth =>
    if pdentry ≠ dcache.dParent pdentry then
      countDepth fuel (dcache.dParent pdentry) (depth + 1)
    else some (depth, pdentry)

/-- `for (i = 0; i < depth; i++) pdentry = pdentry->d_parent;`. -/
def ancestor : Nat → δ → δ
  | 0, pdentry => pdentry
  | i + 1, pdentry => ancestor i (dcache.dParent pdentry)

/-- `while (depth > 0)`. -/
def appendAncestors (polddentry : δ) : Nat → Bytes → Option Bytes
  | 0, abspath => some abspath
  | depth + 1, abspath => do
    let ppath := (dcache.dName (dcache.ancestor (depth + 1) polddentry)).bytes
    let abspath ← strncat abspath [slash] 2
    let abspath ← strncat abspath ppath ppath.length
    appendAncestors polddentry depth abspath

def getabsparentpathfromdentry (fuel : Nat) (dentry : δ) (abspath : Bytes) : Option Bytes := do
  let (depth, pdentry) ← dcache.countDepth fuel (dcache.dParent dentry) 0
  if depth < 1 then
    let ppath := (dcache.dName pdentry).bytes
    strncat abspath ppath ppath.length
  else dcache.appendAncestors dentry depth abspath

def getabsfullpathfromdentry (fuel : Nat) (dentry : δ) (abspath : Bytes) : Option Bytes := do
  let above :=
    if (dcache.dName (dcache.dParent dentry)).bytes.head? = some slash then some abspath
    else dcache.getabsparentpathfromdentry fuel dentry abspath
  let abspath ← above
  let abspath ← strncat abspath [slash] 1
  strncat abspath (dcache.dName dentry).bytes (dcache.dName dentry).bytes.length

/-! ## Chains -/

/-- The root of a filesystem. -/
structure IsRoot (root : δ) : Prop where
  dParent : dcache.dParent root = root
  dName : (dcache.dName root).bytes = [slash]

/-- Each dentry of the list has the one before it for its parent, the first one
`d`, and a name. -/
def Chain : δ → List δ → Prop
  | _, [] => True
  | d, e :: ds =>
    dcache.dParent e = d ∧ IsName slash (dcache.dName e).bytes ∧ Chain e ds

/-- The names of a chain. -/
def names (ds : List δ) : List Bytes := ds.map fun d => (dcache.dName d).bytes

/-- Dentries of one parent have different names. -/
def SiblingsDiffer : Prop :=
  ∀ d e, dcache.dParent d = dcache.dParent e → dcache.dName d = dcache.dName e → d = e

/-- The dentry at a place in memory is reached by this way from its root. -/
inductive Represents : δ → GetPath.Dentry → Prop
  | root {d} : dcache.IsRoot d → Represents d .root
  | entry {d parent name} : Represents (dcache.dParent d) parent →
      (dcache.dName d).bytes = name.bytes → Represents d (.entry parent name)

variable {dcache} {d : δ} {dentry : GetPath.Dentry}

namespace Represents

omit [DecidableEq δ]

theorem dName_eq (h : dcache.Represents d dentry) : (dcache.dName d).bytes = dentry.dName := by
  cases h with
  | root hroot => exact hroot.dName
  | entry _ hname => exact hname

theorem dParent (h : dcache.Represents d dentry) :
    dcache.Represents (dcache.dParent d) dentry.dParent := by
  cases h with
  | root hroot =>
    rw [hroot.dParent]
    exact .root hroot
  | entry hparent _ => exact hparent

theorem ancestor (h : dcache.Represents d dentry) (i : Nat) :
    dcache.Represents (dcache.ancestor i d) (GetPath.ancestor i dentry) := by
  induction i generalizing d dentry with
  | zero => exact h
  | succ i ih => exact ih h.dParent

/-- Only the root is its own parent. -/
theorem eq_root (h : dcache.Represents d dentry) (hself : dcache.dParent d = d) :
    dentry = .root := by
  induction dentry with
  | root => rfl
  | entry parent name ih =>
    cases h with
    | entry hparent hname =>
      rw [hself] at hparent
      obtain rfl := ih hparent
      -- the root is named `/`, and no name has a separator in it
      have hslash : name.bytes = [slash] := hname.symm.trans hparent.dName_eq
      exact absurd (hslash ▸ List.mem_singleton_self slash) name.isName.2

end Represents

/-! ## The loops -/

/-- The first loop ends at the root, having gone up as many times as there are
names. -/
theorem Represents.countDepth (h : dcache.Represents d dentry) {fuel : Nat}
    (hfuel : GetPath.depth dentry < fuel) (n : Nat) :
    ∃ root, dcache.countDepth fuel d n = some (n + GetPath.depth dentry, root) ∧
      dcache.Represents root .root := by
  induction dentry generalizing d fuel n with
  | root =>
    obtain ⟨fuel, rfl⟩ := Nat.exists_eq_succ_of_ne_zero (Nat.ne_of_gt hfuel)
    cases h with
    | root hroot =>
      refine ⟨d, ?_, .root hroot⟩
      rw [Dcache.countDepth, if_neg (not_not.mpr hroot.dParent.symm)]
      rfl
  | entry parent name ih =>
    obtain ⟨fuel, rfl⟩ := Nat.exists_eq_succ_of_ne_zero (Nat.ne_zero_of_lt hfuel)
    have hne : d ≠ dcache.dParent d := fun hself => nomatch h.eq_root hself.symm
    rw [Dcache.countDepth, if_pos hne]
    obtain ⟨root, heq, hroot⟩ := ih h.dParent (Nat.lt_of_succ_lt_succ hfuel) (n + 1)
    refine ⟨root, heq.trans ?_, hroot⟩
    rw [GetPath.depth, Nat.add_right_comm, Nat.add_assoc]

omit [DecidableEq δ] in
theorem strncat_of_lt {abspath src : Bytes} {n : Nat} (hn : src.length ≤ n)
    (h : (abspath ++ src).length < pathMax) : strncat abspath src n = some (abspath ++ src) := by
  rw [strncat, List.take_of_length_le hn, if_pos h]

theorem length_le_appendAncestors (dentry : GetPath.Dentry) (depth : Nat) (abspath : Bytes) :
    abspath.length ≤ (GetPath.appendAncestors dentry depth abspath).length := by
  induction depth generalizing abspath with
  | zero => exact Nat.le_refl _
  | succ depth ih =>
    refine Nat.le_trans ?_ (ih _)
    rw [List.length_append]
    exact Nat.le_add_right _ _

/-- A separator and a name are appended, and the walk goes on. -/
theorem strncat_name {α : Type} {abspath name : Bytes} {n : Nat} (hn : 1 ≤ n)
    (h : (abspath ++ slash :: name).length < pathMax) (next : Bytes → Option α) :
    (do
      let abspath ← strncat abspath [slash] n
      let abspath ← strncat abspath name name.length
      next abspath) = next (abspath ++ slash :: name) := by
  rw [List.append_cons] at h ⊢
  have hsep : (abspath ++ [slash]).length < pathMax := by
    rw [List.length_append] at h
    exact Nat.lt_of_le_of_lt (Nat.le_add_right _ _) h
  rw [strncat_of_lt hn hsep, Option.bind_eq_bind, Option.bind_some,
    strncat_of_lt (Nat.le_refl _) h, Option.bind_some]

omit [DecidableEq δ] in
theorem Represents.appendAncestors (h : dcache.Represents d dentry) {depth : Nat} {abspath : Bytes}
    (hlen : (GetPath.appendAncestors dentry depth abspath).length < pathMax) :
    dcache.appendAncestors d depth abspath =
      some (GetPath.appendAncestors dentry depth abspath) := by
  induction depth generalizing abspath with
  | zero => rfl
  | succ depth ih =>
    have hround := length_le_appendAncestors dentry depth
      (abspath ++ slash :: (GetPath.ancestor (depth + 1) dentry).dName)
    simp only [Dcache.appendAncestors, (h.ancestor (depth + 1)).dName_eq]
    rw [strncat_name (by decide) (Nat.lt_of_le_of_lt hround hlen)]
    exact ih hlen

/-- Above the root there is nothing but the root. -/
theorem Represents.getabsparentpathfromdentry (h : dcache.Represents d dentry) {fuel : Nat}
    (hfuel : GetPath.depth dentry.dParent < fuel) {abspath : Bytes}
    (hlen : (GetPath.getabsparentpathfromdentry dentry abspath).length < pathMax) :
    dcache.getabsparentpathfromdentry fuel d abspath =
      some (GetPath.getabsparentpathfromdentry dentry abspath) := by
  obtain ⟨root, hcount, hroot⟩ := h.dParent.countDepth hfuel 0
  unfold GetPath.getabsparentpathfromdentry at hlen ⊢
  rw [Dcache.getabsparentpathfromdentry, hcount, Nat.zero_add, Option.bind_eq_bind,
    Option.bind_some]
  simp only at hlen ⊢
  split
  · next hdepth =>
    rw [if_pos hdepth] at hlen
    rw [hroot.dName_eq]
    exact strncat_of_lt (Nat.le_refl _) hlen
  · next hdepth =>
    rw [if_neg hdepth] at hlen
    exact h.appendAncestors hlen

/-- On pointers the path of a dentry is what it is on the way to the dentry. -/
theorem Represents.getabsfullpathfromdentry (h : dcache.Represents d dentry) {fuel : Nat}
    (hfuel : GetPath.depth dentry.dParent < fuel) {abspath : Bytes}
    (hlen : (GetPath.getabsfullpathfromdentry dentry abspath).length < pathMax) :
    dcache.getabsfullpathfromdentry fuel d abspath =
      some (GetPath.getabsfullpathfromdentry dentry abspath) := by
  unfold GetPath.getabsfullpathfromdentry at hlen ⊢
  simp only [Dcache.getabsfullpathfromdentry, h.dParent.dName_eq, h.dName_eq]
  simp only at hlen
  have hfront : (if dentry.dParent.dName.head? = some slash then abspath
      else GetPath.getabsparentpathfromdentry dentry abspath).length < pathMax := by
    rw [List.length_append] at hlen
    exact Nat.lt_of_le_of_lt (Nat.le_add_right _ _) hlen
  have habove : (if dentry.dParent.dName.head? = some slash then some abspath
      else dcache.getabsparentpathfromdentry fuel d abspath) =
      some (if dentry.dParent.dName.head? = some slash then abspath
        else GetPath.getabsparentpathfromdentry dentry abspath) := by
    split
    · rfl
    · next hhead =>
      rw [if_neg hhead] at hfront
      exact h.getabsparentpathfromdentry hfuel hfront
  rw [habove, Option.bind_eq_bind, Option.bind_some]
  have hname := strncat_name (Nat.le_refl 1) hlen some
  simpa using hname

/-! ## Chains of dentries -/

variable {root : δ} {ds es : List δ}

omit [DecidableEq δ] in
theorem Chain.isName (h : dcache.Chain root ds) : ∀ w ∈ dcache.names ds, IsName slash w := by
  induction ds generalizing root with
  | nil => exact fun w hw => absurd hw List.not_mem_nil
  | cons e ds ih =>
    obtain ⟨-, hname, hrest⟩ := h
    intro w hw
    rcases List.mem_cons.mp hw with rfl | hw
    · exact hname
    · exact ih hrest w hw

omit [DecidableEq δ] in
/-- The way to the last dentry of a chain. -/
theorem Chain.represents (h : dcache.Chain d ds) (hd : dcache.Represents d dentry) :
    ∃ last, dcache.Represents (ds.getLastD d) last ∧
      last.names = dentry.names ++ dcache.names ds ∧
      GetPath.depth last = GetPath.depth dentry + ds.length := by
  induction ds generalizing d dentry with
  | nil => exact ⟨dentry, hd, (List.append_nil _).symm, rfl⟩
  | cons e ds ih =>
    obtain ⟨hparent, hname, hrest⟩ := h
    have he : dcache.Represents e (.entry dentry ⟨(dcache.dName e).bytes, hname,
        (dcache.dName e).noNul⟩) := .entry (hparent ▸ hd) rfl
    obtain ⟨last, hlast, hnames, hdepth⟩ := ih hrest he
    refine ⟨last, by rwa [List.getLastD_cons], ?_, ?_⟩
    · rw [hnames, GetPath.Dentry.names, List.append_assoc]
      rfl
    · rw [hdepth, GetPath.depth, List.length_cons, Nat.add_right_comm, Nat.add_assoc]

omit [DecidableEq δ] in
/-- Names tell chains apart if they tell siblings apart. -/
theorem Chain.eq_of_names (hsib : dcache.SiblingsDiffer) (h : dcache.Chain root ds)
    (h' : dcache.Chain root es) (hnames : dcache.names ds = dcache.names es) : ds = es := by
  induction ds generalizing root es with
  | nil =>
    cases es with
    | nil => rfl
    | cons e es => exact absurd hnames nofun
  | cons d ds ih =>
    cases es with
    | nil => exact absurd hnames nofun
    | cons e es =>
      obtain ⟨hd, -, hrest⟩ := h
      obtain ⟨he, -, hrest'⟩ := h'
      obtain ⟨hfirst, hothers⟩ := List.cons.inj hnames
      obtain rfl : d = e := hsib d e (hd.trans he.symm) (CString.ext hfirst)
      rw [ih hrest hrest' hothers]

/-- The walk writes the names of a chain, each after a separator. -/
theorem getabsfullpathfromdentry_chain (hroot : dcache.IsRoot root) (h : dcache.Chain root ds)
    (hne : ds ≠ []) (hlen : (render slash (dcache.names ds)).length < pathMax) {fuel : Nat}
    (hfuel : ds.length ≤ fuel) :
    dcache.getabsfullpathfromdentry fuel (ds.getLast hne) [] =
      some (render slash (dcache.names ds)) := by
  obtain ⟨last, hlast, hnames, hdepth⟩ := h.represents (.root hroot)
  rw [List.getLastD_eq_getLast?, List.getLast?_eq_some_getLast hne, Option.getD_some] at hlast
  rw [GetPath.Dentry.names, List.nil_append] at hnames
  have hpos := List.length_pos_of_ne_nil hne
  cases last with
  | root => rw [GetPath.depth] at hdepth; omega
  | entry parent name =>
    have hpath : GetPath.getabsfullpathfromdentry (.entry parent name) [] =
        render slash (dcache.names ds) :=
      (GetPath.getabsfullpathfromdentry_eq parent name []).trans (congrArg (render slash) hnames)
    have hdeep : GetPath.depth parent < fuel := by
      rw [GetPath.depth, GetPath.depth] at hdepth
      omega
    rw [hlast.getabsfullpathfromdentry hdeep (hpath ▸ hlen), hpath]

/-- Every chain below a root, of one dentry at least, is spelled by its names if
they fit; and the paths of two chains are the same only if their names are, so that
the dentries are if siblings differ by name. -/
theorem dentry_walk_spells_path (hroot : dcache.IsRoot root) :
    (∀ ds, dcache.Chain root ds → ∀ hne : ds ≠ [],
      (render slash (dcache.names ds)).length < pathMax → ∀ fuel, ds.length ≤ fuel →
      dcache.getabsfullpathfromdentry fuel (ds.getLast hne) [] =
        some (render slash (dcache.names ds))) ∧
    ∀ ds es, dcache.Chain root ds → dcache.Chain root es →
      render slash (dcache.names ds) = render slash (dcache.names es) →
      dcache.names ds = dcache.names es ∧ (dcache.SiblingsDiffer → ds = es) := by
  refine ⟨fun ds h hne hlen fuel hfuel =>
    getabsfullpathfromdentry_chain hroot h hne hlen hfuel, fun ds es h h' heq => ?_⟩
  have hnames : dcache.names ds = dcache.names es := by
    have hread := components_render [] h.isName
    rw [List.nil_append, heq, ← List.nil_append (render slash (dcache.names es)),
      components_render [] h'.isName] at hread
    exact (List.append_cancel_left hread).symm
  exact ⟨hnames, fun hsib => h.eq_of_names hsib h' hnames⟩

/-- A directory `a` in a directory `a` in the root, and so on. -/
def nestedA : Dcache Nat where
  dParent n := n - 1
  dName n := if n = 0 then ⟨[slash], slash_noNul⟩ else ⟨[97], GetPath.nameA.noNul⟩

/-- The dentry of a file `a` that was deleted while it was open, and the one of the
file `a` that came after it. -/
def deletedAndNew : Dcache Nat where
  dParent _ := 0
  dName n := if n = 0 then ⟨[slash], slash_noNul⟩ else ⟨[97], GetPath.nameA.noNul⟩

/-- The path of the second directory is `/a/a`. The two files have one name, so that
not all siblings differ. -/
theorem dentry_walk_spells_path_nested_a :
    nestedA.getabsfullpathfromdentry 2 2 [] = some [slash, 97, slash, 97] ∧
      deletedAndNew.names [1] = deletedAndNew.names [2] ∧ ¬ deletedAndNew.SiblingsDiffer := by
  have hroot : nestedA.IsRoot 0 := ⟨rfl, rfl⟩
  have hchain : nestedA.Chain 0 [1, 2] := ⟨rfl, by decide, rfl, by decide, trivial⟩
  obtain ⟨hnames, hsame⟩ := (dentry_walk_spells_path (⟨rfl, rfl⟩ : deletedAndNew.IsRoot 0)).2
    [1] [2] ⟨rfl, by decide, trivial⟩ ⟨rfl, by decide, trivial⟩ rfl
  exact ⟨(dentry_walk_spells_path hroot).1 [1, 2] hchain nofun (by decide) 2 (Nat.le_refl 2), hnames,
    fun hsib => absurd (hsame hsib) (by decide)⟩

/-- The path does not tell them apart. -/
theorem deleted_and_new_share_path :
    deletedAndNew.IsRoot 0 ∧ deletedAndNew.Chain 0 [1] ∧ deletedAndNew.Chain 0 [2] ∧
      ([1] : List Nat) ≠ [2] ∧
      deletedAndNew.getabsfullpathfromdentry 1 1 [] = some [slash, 97] ∧
      deletedAndNew.getabsfullpathfromdentry 1 2 [] = some [slash, 97] :=
  ⟨⟨rfl, rfl⟩, ⟨rfl, by decide, trivial⟩, ⟨rfl, by decide, trivial⟩, by decide, by decide,
    by decide⟩

end Dcache

end RtBackup
