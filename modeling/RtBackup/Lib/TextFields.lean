import RtBackup.Lib.Blocks

/-!
# Lines of text with fields

The string functions with which a C program takes a line of text apart: the first
occurrence of a key, the field in front of a separator, and a hexadecimal numeral.

Results:
1. `strstr_skip`: a key is not found in a field that lacks one of its bytes.
2. `strsep_append`: the first field of a line.
3. `simpleStrtoull_eq`: the value of a numeral.
-/

namespace TextFields

open ByteFile

/-! ## The first occurrence of a key -/

/-- A key without the separator at the start of a line is in the first field. -/
theorem prefix_field {α : Type*} {key front rest : List α} {sep : α}
    (h : key <+: front ++ sep :: rest) (hsep : sep ∉ key) : key <+: front := by
  have hfield : front ++ [sep] <+: front ++ sep :: rest :=
    ⟨rest, (List.append_cons front sep rest).symm⟩
  rcases List.prefix_or_prefix_of_prefix h hfield with hkey | hkey
  · rcases List.prefix_concat_iff.mp hkey with rfl | hkey
    · exact absurd (List.mem_append_right _ List.mem_cons_self) hsep
    · exact hkey
  · exact absurd (hkey.subset (List.mem_append_right _ List.mem_cons_self)) hsep

section

variable {α : Type*} [DecidableEq α]

/-- Where a key occurs first. -/
def strstr (key : List α) : List α → Option Nat
  | [] => if key = [] then some 0 else none
  | b :: s => if key <+: b :: s then some 0 else (strstr key s).map (· + 1)

variable {key s front rest : List α} {sep : α} {k : Nat}

theorem strstr_at_start (h : key <+: s) : strstr key s = some 0 := by
  cases s with
  | nil => exact if_pos (List.prefix_nil.mp h)
  | cons b s => exact if_pos h

theorem strstr_cons_of_not {b : α} (h : ¬ key <+: b :: s) :
    strstr key (b :: s) = (strstr key s).map (· + 1) := if_neg h

theorem strstr_eq_some (h : strstr key s = some k) :
    ∃ front rest, s = front ++ (key ++ rest) ∧ front.length = k := by
  induction s generalizing k with
  | nil =>
    rw [strstr] at h
    split at h
    · next hkey =>
      cases h
      exact ⟨[], [], by rw [hkey]; rfl, rfl⟩
    · cases h
  | cons b s ih =>
    by_cases hpre : key <+: b :: s
    · rw [strstr_at_start hpre] at h
      cases h
      obtain ⟨rest, hrest⟩ := hpre
      exact ⟨[], rest, hrest.symm, rfl⟩
    · rw [strstr_cons_of_not hpre] at h
      obtain ⟨j, hj, rfl⟩ := Option.map_eq_some_iff.mp h
      obtain ⟨front, rest, rfl, hfront⟩ := ih hj
      exact ⟨b :: front, rest, rfl, congrArg (· + 1) hfront⟩

/-- What is found in a line with its end is in the line. -/
theorem strstr_line (hsep : sep ∉ key) (hne : key ≠ []) (h : strstr key (s ++ [sep]) = some k) :
    ∃ front rest, s = front ++ (key ++ rest) ∧ front.length = k := by
  obtain ⟨front, rest, hs, hfront⟩ := strstr_eq_some h
  have hdrop : (s ++ [sep]).drop k = key ++ rest := by rw [hs, List.drop_left' hfront]
  have hk : k ≤ s.length := by
    by_contra hlt
    rw [List.drop_eq_nil_of_le (by rw [List.length_append, List.length_singleton]; omega)] at hdrop
    exact hne (List.append_eq_nil_iff.mp hdrop.symm).1
  rw [List.drop_append_of_le_length hk] at hdrop
  obtain ⟨tail, htail⟩ := prefix_field ⟨rest, hdrop.symm⟩ hsep
  refine ⟨s.take k, tail, ?_, List.length_take_of_le hk⟩
  rw [htail, List.take_append_drop]

/-- A key without the separator is looked for behind a field that lacks one of its
bytes. -/
theorem strstr_skip {b : α} (hsep : sep ∉ key) (hb : b ∈ key) (hfront : b ∉ front) :
    strstr key (front ++ sep :: rest) = (strstr key rest).map (· + (front.length + 1)) := by
  have hnot : ∀ field, b ∉ field → ¬ key <+: field ++ sep :: rest := fun field hfield hpre =>
    hfield ((prefix_field hpre hsep).subset hb)
  induction front with
  | nil => exact strstr_cons_of_not (hnot [] hfront)
  | cons c front ih =>
    have htail : b ∉ front := fun hmem => hfront (List.mem_cons_of_mem _ hmem)
    have hcons : ¬ key <+: c :: (front ++ sep :: rest) := hnot (c :: front) hfront
    rw [List.cons_append, strstr_cons_of_not hcons, ih htail, Option.map_map]
    rfl

end

/-! ## Fields -/

/-- `strsep`: the field at an offset, up to the separator or the end of the string, with
the offset behind the separator. None where the block ends first. -/
def strsep (sep : UInt8) (block : Bytes) (off : Nat) : Option (Bytes × Option Nat) :=
  let field := (block.drop off).takeWhile fun b => b ≠ 0 ∧ b ≠ sep
  block[off + field.length]?.map fun b =>
    (field, if b = sep then some (off + field.length + 1) else none)

theorem strsep_append {sep : UInt8} {x s z : Bytes} {off : Nat} (hx : x.length = off)
    (hs : ∀ b ∈ s, b ≠ 0 ∧ b ≠ sep) :
    strsep sep (x ++ (s ++ sep :: z)) off = some (s, some (off + s.length + 1)) := by
  have hfield : ((x ++ (s ++ sep :: z)).drop off).takeWhile (fun b => decide (b ≠ 0 ∧ b ≠ sep)) =
      s := by
    rw [List.drop_left' hx,
      List.takeWhile_append_of_pos fun b hb => decide_eq_true (hs b hb),
      List.takeWhile_cons_of_neg (by simp), List.append_nil]
  have hbyte : (x ++ (s ++ sep :: z))[off + s.length]? = some sep := by
    subst hx
    rw [List.getElem?_append_right (Nat.le_add_right _ _), Nat.add_sub_cancel_left,
      List.getElem?_append_right (Nat.le_refl _), Nat.sub_self]
    rfl
  unfold strsep
  simp only [hfield, hbyte, Option.map_some, if_pos]

/-! ## Hexadecimal numerals -/

def hexDigit (b : UInt8) : Option Nat :=
  if 48 ≤ b ∧ b ≤ 57 then some (b.toNat - 48)
  else if 65 ≤ b ∧ b ≤ 70 then some (b.toNat - 55)
  else if 97 ≤ b ∧ b ≤ 102 then some (b.toNat - 87)
  else none

/-- The number that digits spell behind `v`. -/
def hexValueFrom (v : Nat) (digits : Bytes) : Nat :=
  digits.foldl (fun v b => v * 16 + (hexDigit b).getD 0) v

def hexValue (digits : Bytes) : Nat := hexValueFrom 0 digits

/-- The loop of `simple_strtoull`. -/
def hexLoop : BitVec 64 → Bytes → BitVec 64
  | result, [] => result
  | result, b :: cp =>
    match hexDigit b with
    | some value => hexLoop (result * 16 + BitVec.ofNat 64 value) cp
    | none => result

/-- `simple_strtoull` with base 16. -/
def simpleStrtoull (cp : Bytes) : BitVec 64 :=
  if cp.take 2 = [48, 120] ∨ cp.take 2 = [48, 88] then hexLoop 0 (cp.drop 2) else hexLoop 0 cp

def IsHex (digits : Bytes) : Prop := ∀ b ∈ digits, (hexDigit b).isSome

instance instDecidableIsHex (digits : Bytes) : Decidable (IsHex digits) :=
  List.decidableBAll _ digits

theorem hexDigit_lt {b : UInt8} {v : Nat} (h : hexDigit b = some v) : v < 16 := by
  unfold hexDigit at h
  simp only [UInt8.le_iff_toNat_le] at h
  split at h
  · next hb =>
    cases h
    have h57 : b.toNat ≤ 57 := hb.2
    omega
  · split at h
    · next hb =>
      cases h
      have h70 : b.toNat ≤ 70 := hb.2
      omega
    · split at h
      · next hb =>
        cases h
        have h102 : b.toNat ≤ 102 := hb.2
        omega
      · cases h

theorem IsHex.not_mem {digits : Bytes} (h : IsHex digits) {b : UInt8} (hb : hexDigit b = none) :
    b ∉ digits := by
  intro hmem
  have hsome := h b hmem
  rw [hb] at hsome
  cases hsome

theorem hexValueFrom_lt {digits : Bytes} (h : IsHex digits) {v n : Nat} (hv : v < n) :
    hexValueFrom v digits < n * 16 ^ digits.length := by
  induction digits generalizing v n with
  | nil =>
    rw [List.length_nil, Nat.pow_zero, Nat.mul_one]
    exact hv
  | cons b digits ih =>
    obtain ⟨hb, hdigits⟩ := List.forall_mem_cons.mp h
    obtain ⟨d, hd⟩ := Option.isSome_iff_exists.mp hb
    have hlt := hexDigit_lt hd
    have hstep : v * 16 + (hexDigit b).getD 0 < n * 16 := by
      rw [hd, Option.getD_some]
      omega
    rw [List.length_cons, Nat.pow_succ', ← Nat.mul_assoc]
    exact ih hdigits hstep

theorem hexLoop_eq {digits : Bytes} (h : IsHex digits) (v : Nat) :
    hexLoop (BitVec.ofNat 64 v) digits = BitVec.ofNat 64 (hexValueFrom v digits) := by
  induction digits generalizing v with
  | nil => rfl
  | cons b digits ih =>
    obtain ⟨hb, hdigits⟩ := List.forall_mem_cons.mp h
    obtain ⟨d, hd⟩ := Option.isSome_iff_exists.mp hb
    have hstep : BitVec.ofNat 64 v * 16 + BitVec.ofNat 64 d = BitVec.ofNat 64 (v * 16 + d) := by
      rw [BitVec.ofNat_add, BitVec.ofNat_mul]
      rfl
    have hvalue : hexValueFrom v (b :: digits) = hexValueFrom (v * 16 + d) digits := by
      rw [hexValueFrom, List.foldl_cons, hd]
      rfl
    rw [hexLoop, hd, hvalue, ← ih hdigits, ← hstep]

theorem simpleStrtoull_eq {digits : Bytes} (h : IsHex digits) :
    simpleStrtoull digits = BitVec.ofNat 64 (hexValue digits) := by
  have hnot : ¬ (digits.take 2 = [48, 120] ∨ digits.take 2 = [48, 88]) := by
    rintro (hx | hx)
    · have hmem : (120 : UInt8) ∈ digits.take 2 := hx ▸ List.mem_cons_of_mem _ List.mem_cons_self
      exact h.not_mem (by decide) (List.mem_of_mem_take hmem)
    · have hmem : (88 : UInt8) ∈ digits.take 2 := hx ▸ List.mem_cons_of_mem _ List.mem_cons_self
      exact h.not_mem (by decide) (List.mem_of_mem_take hmem)
  rw [simpleStrtoull, if_neg hnot]
  exact hexLoop_eq h 0

end TextFields
