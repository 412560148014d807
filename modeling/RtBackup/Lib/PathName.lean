import Mathlib.Data.List.Basic
import Mathlib.Data.List.DropRight

/-!
# Path names

A path name is a string of names and separators. The names are read from the
left: what has been read is a list of complete names and the beginning of one
more (`scan`). Repeated and trailing separators make no names.

Results:
1. `components_append_sep`: a separator ends a name; `components_append_word`: without
   one the last name goes on.
2. `components_render`: names that are written one behind the other, each after a
   separator, are read back, whatever stands before them.
-/

namespace PathName

variable {α : Type*} [DecidableEq α] (sep : α)

/-- The names read so far and the beginning of the next one. -/
abbrev Scan (α : Type*) := List (List α) × List α

/-- The names when the path name ends here. -/
def flush (st : Scan α) : List (List α) := if st.2 = [] then st.1 else st.1 ++ [st.2]

def scan (st : Scan α) (x : α) : Scan α :=
  if x = sep then (flush st, []) else (st.1, st.2 ++ [x])

/-- The names of a path name. -/
def components (s : List α) : List (List α) := flush (s.foldl (scan sep) ([], []))

/-- The names before the last separator. -/
def directory (s : List α) : List (List α) := (s.foldl (scan sep) ([], [])).1

/-- What follows the last separator. -/
def base (s : List α) : List α := (s.foldl (scan sep) ([], [])).2

/-- Names, each after a separator. -/
def render (names : List (List α)) : List α := names.flatMap (sep :: ·)

/-- What a name in a directory can be. -/
def IsName (w : List α) : Prop := w ≠ [] ∧ sep ∉ w

instance (w : List α) : Decidable (IsName sep w) := inferInstanceAs (Decidable (_ ∧ _))

/-- A path name up to its last separator, this one included. -/
def parent (s : List α) : List α := s.rdropWhile (· ≠ sep)

variable {sep}

omit [DecidableEq α] in
theorem flush_append (cs : List (List α)) (st : Scan α) :
    flush (cs ++ st.1, st.2) = cs ++ flush st := by
  unfold flush
  split
  · rfl
  · exact List.append_assoc _ _ _

/-- Names read before do not matter for what follows. -/
theorem foldl_scan_append (s : List α) (cs : List (List α)) (st : Scan α) :
    s.foldl (scan sep) (cs ++ st.1, st.2) =
      (cs ++ (s.foldl (scan sep) st).1, (s.foldl (scan sep) st).2) := by
  induction s generalizing st with
  | nil => rfl
  | cons x s ih =>
    have hstep : scan sep (cs ++ st.1, st.2) x = (cs ++ (scan sep st x).1, (scan sep st x).2) := by
      unfold scan
      split
      · rw [flush_append]
      · rfl
    rw [List.foldl_cons, hstep, ih, List.foldl_cons]

theorem components_append_sep (s t : List α) :
    components sep (s ++ sep :: t) = components sep s ++ components sep t := by
  have hsep : scan sep (s.foldl (scan sep) ([], [])) sep = (components sep s ++ [], []) := by
    rw [scan, if_pos rfl, List.append_nil]
    rfl
  rw [components, List.foldl_append, List.foldl_cons, hsep,
    foldl_scan_append t (components sep s) ([], []), flush_append]
  rfl

theorem components_trailing_sep (s : List α) : components sep (s ++ [sep]) = components sep s := by
  rw [components_append_sep]
  exact List.append_nil _

theorem foldl_scan_word {w : List α} (h : sep ∉ w) (st : Scan α) :
    w.foldl (scan sep) st = (st.1, st.2 ++ w) := by
  induction w generalizing st with
  | nil => rw [List.append_nil, List.foldl_nil]
  | cons x w ih =>
    rw [List.mem_cons, not_or] at h
    rw [List.foldl_cons, scan, if_neg (Ne.symm h.1), ih h.2, List.append_assoc, List.singleton_append]

theorem components_word {w : List α} (h : IsName sep w) : components sep w = [w] := by
  rw [components, foldl_scan_word h.2, flush, List.nil_append, if_neg h.1]
  rfl

/-- What is written behind a path name makes its last name longer. -/
theorem components_append_word (s : List α) {w : List α} (h : IsName sep w) :
    components sep (s ++ w) = directory sep s ++ [base sep s ++ w] := by
  rw [components, List.foldl_append, foldl_scan_word h.2, flush,
    if_neg fun hnil => h.1 (List.append_eq_nil_iff.mp hnil).2]
  rfl

omit [DecidableEq α] in
theorem render_append (names : List (List α)) (w : List α) :
    render sep (names ++ [w]) = render sep names ++ sep :: w := by
  simp [render]

theorem components_render (s : List α) {names : List (List α)} (h : ∀ w ∈ names, IsName sep w) :
    components sep (s ++ render sep names) = components sep s ++ names := by
  induction names using List.reverseRecOn with
  | nil => rw [render, List.flatMap_nil, List.append_nil, List.append_nil]
  | append_singleton names w ih =>
    rw [render_append, ← List.append_assoc, components_append_sep,
      components_word (h w (List.mem_concat_self)), ih fun v hv => h v (List.mem_append_left _ hv),
      List.append_assoc]

theorem parent_append_name (s : List α) {w : List α} (h : sep ∉ w) :
    parent sep (s ++ sep :: w) = s ++ [sep] := by
  induction w using List.reverseRecOn with
  | nil => exact List.rdropWhile_concat_neg _ _ _ (by simp)
  | append_singleton w x ih =>
    rw [List.mem_append, not_or, List.mem_singleton] at h
    rw [← List.cons_append, ← List.append_assoc, parent,
      List.rdropWhile_concat_pos _ _ _ (by simpa using Ne.symm h.2)]
    exact ih h.1

end PathName
