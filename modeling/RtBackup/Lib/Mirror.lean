import RtBackup.Lib.Namespace

/-!
# A copy of part of a namespace under another directory

Part of one file system is copied below a directory of another one: what is at
`p` here is at `target ++ p` there. Texts of symbolic links go through a map.
Which names are the same file is copied too; the numbers of the files are not.

Results:
1. `Mirrors.add`, `Mirrors.remove`: the copy stays one when a name is made, or
   goes, on both sides.
2. `Mirrors.fill`: it stays one when missing directories are made.
-/

namespace Namespace

variable {α τ β : Type*}

/-- What is in one place is a copy of what is in another. -/
def Copy (text : τ → τ) (data data' : Nat → β) : Option (Node τ) → Option (Node τ) → Prop
  | none, none => True
  | some .dir, some .dir => True
  | some (.file i), some (.file j) => data i = data' j
  | some (.symlink _ t), some (.symlink _ u) => u = text t
  | _, _ => False

theorem copy_dir {text : τ → τ} {data data' : Nat → β} {x : Option (Node τ)} :
    Copy text data data' (some .dir) x ↔ x = some .dir := by
  match x with
  | none => simp [Copy]
  | some .dir => simp [Copy]
  | some (.file _) => simp [Copy]
  | some (.symlink _ _) => simp [Copy]

/-- The contents of the files that are there decide a copy. -/
theorem Copy.of_data {text : τ → τ} {data data' data₁ data₁' : Nat → β} {x y : Option (Node τ)}
    (h : Copy text data data' x y) (hx : ∀ n, x = some n → ∀ i ∈ n.ino?, data₁ i = data i)
    (hy : ∀ n, y = some n → ∀ i ∈ n.ino?, data₁' i = data' i) : Copy text data₁ data₁' x y := by
  match x, y with
  | none, none => trivial
  | some .dir, some .dir => trivial
  | some (.file i), some (.file j) =>
    show data₁ i = data₁' j
    rw [hx _ rfl i rfl, hy _ rfl j rfl]
    exact h
  | some (.symlink _ _), some (.symlink _ _) => exact h
  | none, some _ => exact absurd h (by simp [Copy])
  | some .dir, none | some .dir, some (.file _) | some .dir, some (.symlink _ _) => exact h
  | some (.file _), none | some (.file _), some .dir | some (.file _), some (.symlink _ _) => exact h
  | some (.symlink _ _), none | some (.symlink _ _), some .dir
  | some (.symlink _ _), some (.file _) => exact h

namespace FS

/-- Below `target`, `there` has a copy of the part `part` of `here`. -/
structure Mirrors (part : List α → Prop) (target : List α) (text : τ → τ)
    (here there : FS α τ β) : Prop where
  target_dir : ∀ a, a <+: target → there.node a = some .dir
  /-- What is above the part can be made into directories. -/
  above : ∀ p, part p → ∀ a, a <+: p → ¬ part a →
    there.node (target ++ a) = none ∨ there.node (target ++ a) = some .dir
  copies : ∀ p, part p →
    Copy text here.data there.data (here.node p) (there.node (target ++ p))
  same_file : ∀ p q, part p → part q →
    (here.SameFile p q ↔ there.SameFile (target ++ p) (target ++ q))

variable {part : List α → Prop} {target : List α} {text : τ → τ} {here there : FS α τ β}

/-- An empty directory is a copy of a part in which there is nothing. -/
theorem Mirrors.of_absent (hdir : ∀ a, a <+: target → there.node a = some .dir)
    (hhere : ∀ p, part p → here.node p = none)
    (hthere : ∀ p, p ≠ [] → there.node (target ++ p) = none) (hpart : ∀ p, part p → p ≠ []) :
    Mirrors part target text here there where
  target_dir := hdir
  above p _ a _ _ := by
    by_cases ha : a = []
    · rw [ha, List.append_nil]
      exact .inr (hdir target (List.prefix_refl target))
    · exact .inl (hthere a ha)
  copies p hp := by
    rw [hhere p hp, hthere p (hpart p hp)]
    trivial
  same_file p q hp hq := by
    simp [SameFile, ino?, hhere p hp, hthere p (hpart p hp)]

theorem Mirrors.node_eq_none (h : Mirrors part target text here there) {p : List α} (hp : part p) :
    there.node (target ++ p) = none ↔ here.node p = none := by
  have hc := h.copies p hp
  match hn : here.node p, hm : there.node (target ++ p) with
  | none, none => simp
  | none, some _ => simp [hn, hm, Copy] at hc
  | some .dir, none => simp [hn, hm, Copy] at hc
  | some (.file _), none => simp [hn, hm, Copy] at hc
  | some (.symlink _ _), none => simp [hn, hm, Copy] at hc
  | some _, some _ => simp

theorem Mirrors.node_eq_dir (h : Mirrors part target text here there) {p : List α} (hp : part p) :
    there.node (target ++ p) = some .dir ↔ here.node p = some .dir := by
  have hc := h.copies p hp
  constructor
  · intro hm
    rw [hm] at hc
    match hn : here.node p with
    | none => simp [hn, Copy] at hc
    | some .dir => rfl
    | some (.file _) => simp [hn, Copy] at hc
    | some (.symlink _ _) => simp [hn, Copy] at hc
  · intro hn
    rw [hn] at hc
    exact copy_dir.mp hc

/-! ## A name on both sides -/

/-- A new name is a name of its own file, and so is one that is gone. -/
def Separates (fs : FS α τ β) (p : List α) (fs' : FS α τ β) : Prop :=
  ∀ q r, fs'.SameFile q r ↔ q = r ∨ q ≠ p ∧ r ≠ p ∧ fs.SameFile q r

theorem separates_of_ino {fs fs' : FS α τ β} {p : List α}
    (hother : ∀ q, q ≠ p → fs'.ino? q = fs.ino? q)
    (hown : ∀ q, q ≠ p → ∀ i ∈ fs'.ino? p, i ∉ fs'.ino? q) : fs.Separates p fs' := by
  intro q r
  by_cases hqr : q = r
  · simp [hqr, SameFile]
  by_cases hq : q = p
  · subst hq
    simp only [SameFile, hqr, false_or, ne_eq, not_true_eq_false, false_and, iff_false]
    rintro ⟨i, hi, hir⟩
    exact hown r (Ne.symm hqr) i hi hir
  · by_cases hr : r = p
    · subst hr
      simp only [SameFile, hqr, false_or, ne_eq, not_true_eq_false, false_and, and_false, iff_false]
      rintro ⟨i, hi, hir⟩
      exact hown q hq i hir hi
    · simp only [SameFile, hqr, hq, hr, hother q hq, hother r hr, false_or, ne_eq,
        not_false_eq_true, true_and]

theorem Adds.separates [DecidableEq α] {fs fs' : FS α τ β} {p : List α} {n : Node τ}
    (h : fs.Adds p n fs') : fs.Separates p fs' := by
  have hother : ∀ q, q ≠ p → fs'.node q = fs.node q := by
    intro q hq
    rw [h.node, if_neg hq]
  refine separates_of_ino (fun q hq => by rw [ino?, ino?, hother q hq]) ?_
  intro q hq i hi hiq
  rw [ino?, h.node, if_pos rfl] at hi
  rw [ino?, hother q hq] at hiq
  obtain ⟨m, hm, hmi⟩ := Option.bind_eq_some_iff.mp hiq
  exact absurd (h.inode i hi) (Nat.ne_of_lt (fs.used q m hm i hmi))

theorem Removes.separates [DecidableEq α] {fs fs' : FS α τ β} {p : List α}
    (h : fs.Removes p fs') : fs.Separates p fs' := by
  refine separates_of_ino (fun q hq => by rw [ino?, ino?, h.node, if_neg hq]) ?_
  intro q _ i hi
  rw [ino?, h.node, if_pos rfl] at hi
  simp at hi

/-- One name of the part changes on both sides, and is no other name's file. -/
theorem Mirrors.change (h : Mirrors part target text here there) {here' there' : FS α τ β}
    {p : List α} (hp : part p) (hp0 : p ≠ [])
    (hnode : ∀ q, q ≠ p → here'.node q = here.node q)
    (hnode' : ∀ q, q ≠ target ++ p → there'.node q = there.node q)
    (hdata : ∀ i < here.next, here'.data i = here.data i)
    (hdata' : ∀ i < there.next, there'.data i = there.data i)
    (hsep : here.Separates p here') (hsep' : there.Separates (target ++ p) there')
    (hcopy : Copy text here'.data there'.data (here'.node p) (there'.node (target ++ p))) :
    Mirrors part target text here' there' where
  target_dir a ha := by
    rw [hnode', h.target_dir a ha]
    rintro rfl
    exact hp0 (List.append_right_eq_self.mp (ha.eq_of_length_le (by simp)))
  above q hq a ha hna := by
    rw [hnode']
    · exact h.above q hq a ha hna
    · intro heq
      exact hna (List.append_cancel_left heq ▸ hp)
  copies q hq := by
    by_cases hqp : q = p
    · exact hqp ▸ hcopy
    · rw [hnode q hqp, hnode' _ fun heq => hqp (List.append_cancel_left heq)]
      exact (h.copies q hq).of_data
        (fun n hn i hi => hdata i (here.used q n hn i hi))
        (fun n hn i hi => hdata' i (there.used _ n hn i hi))
  same_file q r hq hr := by
    rw [hsep q r, hsep' (target ++ q) (target ++ r)]
    simp only [List.append_cancel_left_eq, ne_eq, h.same_file q r hq hr]

variable [DecidableEq α]

theorem Mirrors.add (h : Mirrors part target text here there) {here' there' : FS α τ β}
    {p : List α} {n m : Node τ} (hp : part p) (hhere : here.Adds p n here')
    (hthere : there.Adds (target ++ p) m there')
    (hcopy : Copy text here'.data there'.data (some n) (some m)) :
    Mirrors part target text here' there' := by
  refine h.change hp (ne_nil_of_absent hhere.absent) (fun q hq => ?_) (fun q hq => ?_) hhere.data
    hthere.data hhere.separates hthere.separates ?_
  · rw [hhere.node, if_neg hq]
  · rw [hthere.node, if_neg hq]
  · rw [hhere.node, if_pos rfl, hthere.node, if_pos rfl]
    exact hcopy

theorem Mirrors.remove (h : Mirrors part target text here there) {here' there' : FS α τ β}
    {p : List α} (hp : part p) (hp0 : p ≠ []) (hhere : here.Removes p here')
    (hthere : there.Removes (target ++ p) there') : Mirrors part target text here' there' := by
  refine h.change hp hp0 (fun q hq => ?_) (fun q hq => ?_) (fun i _ => by rw [hhere.data])
    (fun i _ => by rw [hthere.data]) hhere.separates hthere.separates ?_
  · rw [hhere.node, if_neg hq]
  · rw [hthere.node, if_neg hq]
  · rw [hhere.node, if_pos rfl, hthere.node, if_pos rfl]
    trivial

/-- A directory that has nothing under it has nothing under it in the copy. -/
theorem Mirrors.isLeaf (h : Mirrors part target text here there) {p : List α}
    (hpart : ∀ x, part (p ++ [x])) (hleaf : here.isLeaf p = true) :
    there.isLeaf (target ++ p) = true := by
  rw [isLeaf_iff] at hleaf ⊢
  intro q hq hdrop
  have hlast : q = target ++ (p ++ [q.getLast hq]) := by
    rw [← List.append_assoc, ← hdrop, List.dropLast_concat_getLast]
  rw [hlast, h.node_eq_none (hpart _)]
  exact hleaf _ (by simp) List.dropLast_concat

/-! ## Directories on the way -/

omit [DecidableEq α] in
/-- Where directories can be made here, they can be made there. -/
theorem Mirrors.clear (h : Mirrors part target text here there) {p c : List α} (hp : part p)
    (hc : c <+: p) (hdirs : ∀ q, q <+: c → here.node q = none ∨ here.node q = some .dir) :
    ∀ a, a <+: target ++ c → there.node a = none ∨ there.node a = some .dir := by
  intro a ha
  rcases List.prefix_or_prefix_of_prefix ha (List.prefix_append target c) with hat | ⟨q, rfl⟩
  · exact .inr (h.target_dir a hat)
  · have hq := (List.prefix_append_right_inj target).mp ha
    by_cases hpart : part q
    · exact (hdirs q hq).imp (h.node_eq_none hpart).mpr (h.node_eq_dir hpart).mpr
    · exact h.above p hp q (hq.trans hc) hpart

/-- The directories on the way to a path are made there, and here those of the
part. -/
theorem Mirrors.fill (h : Mirrors part target text here there) {here' there' : FS α τ β}
    {c : List α} (hthere : there.Fills (target ++ c) there')
    (hnode : ∀ q, part q → here'.node q = if q <+: c then some .dir else here.node q)
    (hdata : ∀ i < here.next, here'.data i = here.data i) :
    Mirrors part target text here' there' := by
  have hino' : ∀ q, there'.ino? q = there.ino? q := by
    intro q
    rw [ino?, ino?, hthere.node]
    split
    · next hq =>
      rcases hthere.clear q hq with hn | hn
      · rw [hn]
        rfl
      · rw [hn]
    · rfl
  have hino : ∀ q, part q → here'.ino? q = here.ino? q := by
    intro q hq
    rw [ino?, ino?, hnode q hq]
    split
    · next hqc =>
      rcases hthere.clear _ ((List.prefix_append_right_inj target).mpr hqc) with hn | hn
      · rw [(h.node_eq_none hq).mp hn]
        rfl
      · rw [(h.node_eq_dir hq).mp hn]
    · rfl
  refine ⟨fun a ha => ?_, fun q hq a ha hna => ?_, fun q hq => ?_, fun q r hq hr => ?_⟩
  · rw [hthere.node, h.target_dir a ha, ite_self]
  · rw [hthere.node]
    split
    · exact .inr rfl
    · exact h.above q hq a ha hna
  · rw [hthere.node, hnode q hq, hthere.data]
    simp only [List.prefix_append_right_inj]
    split
    · trivial
    · exact (h.copies q hq).of_data (fun n hn i hi => hdata i (here.used q n hn i hi))
        fun _ _ _ _ => rfl
  · have hsame := h.same_file q r hq hr
    simp only [SameFile, hino q hq, hino r hr, hino'] at hsame ⊢
    exact hsame

end FS

end Namespace
