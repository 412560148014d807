import RtBackup.Lib.ByteFile

/-!
# Allocated blocks

A block is the list of its bytes. A program that reads or writes a byte behind the
end of a block is undefined, and so is one that looks for the end of a string where
there is none. `Accessing` keeps what a program accesses beside what it computes, so
that one can also ask whether it stays in a part of a block.

Results:
1. `store_append`, `load_append`, `strlen_append`: the accesses to a block that is
   given by its parts.
2. `stringIn_eq_some_iff`: when a string ends in its field.
3. `pread_flatMap`: an array of records of one size.
4. `Rest`: what a running offset has in front of it.
5. `Accessing.safe_bind`: a composed program is safe exactly if its first part is, and
   the second part on its result.
-/

namespace Blocks

open ByteFile

def load (block : Bytes) (off n : Nat) : Option Bytes :=
  if off + n ≤ block.length then some (pread block off n) else none

def store (block : Bytes) (off : Nat) (src : Bytes) : Option Bytes :=
  if off + src.length ≤ block.length then some (pwrite block off src) else none

/-- The length of the string at an offset, if it ends in the block. -/
def strlen (block : Bytes) (off : Nat) : Option Nat :=
  if 0 ∈ block.drop off then some (cut (block.drop off)).length else none

/-- The string in a field of `size` bytes, if it ends there. -/
def stringIn (block : Bytes) (off size : Nat) : Option Bytes :=
  if 0 ∈ pread block off size then some (cut (pread block off size)) else none

def zeros (n : Nat) : Bytes := List.replicate n 0

theorem length_zeros (n : Nat) : (zeros n).length = n := List.length_replicate

theorem zeros_add (m n : Nat) : zeros (m + n) = zeros m ++ zeros n :=
  List.replicate_append_replicate.symm

/-! ## Blocks given by their parts -/

section

variable {x y z src s : Bytes} {off n size : Nat}

theorem pread_append (hx : x.length = off) (hy : y.length = n) :
    pread (x ++ (y ++ z)) off n = y := by
  rw [pread, List.drop_left' hx, List.take_left' hy]

theorem load_append (hx : x.length = off) (hy : y.length = n) :
    load (x ++ (y ++ z)) off n = some y := by
  rw [load, if_pos (by simp only [List.length_append]; omega), pread_append hx hy]

/-- What is read from a part. -/
theorem pread_append_left (h : off + n ≤ x.length) : pread (x ++ z) off n = pread x off n := by
  rw [pread, pread, List.drop_append_of_le_length (Nat.le_of_add_right_le h),
    List.take_append_of_le_length (by rw [List.length_drop]; omega)]

theorem pread_append_right (hx : x.length = off) (i : Nat) :
    pread (x ++ y) (off + i) n = pread y i n := by
  rw [pread, pread, ← List.drop_drop, List.drop_left' hx]

theorem load_of_le {block : Bytes} (h : off + n ≤ block.length) :
    load block off n = some (pread block off n) := if_pos h

theorem load_eq_some {bs block : Bytes} (h : load block off n = some bs) :
    off + n ≤ block.length ∧ bs = pread block off n := by
  unfold load at h
  split at h
  · next hle => exact ⟨hle, (Option.some.inj h).symm⟩
  · cases h

theorem length_pread {block : Bytes} (h : off + n ≤ block.length) :
    (pread block off n).length = n := by
  rw [pread, List.length_take, List.length_drop]
  omega

/-- A write replaces the part at its offset. -/
theorem store_append (hx : x.length = off) (hy : y.length = src.length) :
    store (x ++ (y ++ z)) off src = some (x ++ (src ++ z)) := by
  have hlen : off + src.length ≤ (x ++ (y ++ z)).length := by
    simp only [List.length_append]
    omega
  have hgap : off - (x ++ (y ++ z)).length = 0 := by omega
  rw [store, if_pos hlen, pwrite, hgap, List.replicate_zero, List.append_nil, List.take_left' hx,
    ← List.append_assoc x y z, List.drop_left' (by rw [List.length_append]; omega),
    List.append_assoc]

theorem store_eq_some {block block' : Bytes} (h : store block off src = some block') :
    off + src.length ≤ block.length ∧ ∃ x z, block' = x ++ (src ++ z) ∧ x.length = off := by
  unfold store at h
  split at h
  · next hle =>
    obtain rfl := Option.some.inj h
    have hgap : off - block.length = 0 := by omega
    refine ⟨hle, block.take off, block.drop (off + src.length), ?_, ?_⟩
    · rw [pwrite, hgap, List.replicate_zero, List.append_nil, List.append_assoc]
    · rw [List.length_take]
      omega
  · cases h

/-- What was written is read back, also in part. -/
theorem pread_store {block block' : Bytes} (h : store block off src = some block') {i : Nat}
    (hi : i + n ≤ src.length) : pread block' (off + i) n = pread src i n := by
  obtain ⟨-, x, z, rfl, hx⟩ := store_eq_some h
  rw [pread_append_right hx, pread_append_left hi]

/-- What is elsewhere stays. -/
theorem pread_store_of_disjoint {block block' : Bytes} (h : store block off src = some block')
    {i : Nat} (hd : i + n ≤ off ∨ off + src.length ≤ i) :
    pread block' i n = pread block i n := by
  unfold store at h
  split at h
  · next hle =>
    obtain rfl := Option.some.inj h
    apply List.ext_getElem?
    intro j
    rw [pread, pread, List.getElem?_take, List.getElem?_take]
    split
    · next hj =>
      rw [List.getElem?_drop, List.getElem?_drop, getElem?_pwrite]
      rcases hd with hd | hd
      · rw [if_pos (by omega), if_pos (by omega)]
      · rw [if_neg (by omega), if_neg (by omega)]
    · rfl
  · cases h

/-- Reading a part of what was read. -/
theorem pread_pread {block : Bytes} {i m : Nat} (h : i + m ≤ n) :
    pread (pread block off n) i m = pread block (off + i) m := by
  rw [pread, pread, pread, List.drop_take, List.take_take, List.drop_drop,
    Nat.min_eq_left (by omega)]

theorem length_store {block block' : Bytes} (h : store block off src = some block') :
    block'.length = block.length := by
  unfold store at h
  split at h
  · obtain rfl := Option.some.inj h
    have hgap : off - block.length = 0 := by omega
    rw [pwrite, hgap, List.replicate_zero, List.append_nil, List.length_append, List.length_append,
      List.length_take, List.length_drop]
    omega
  · cases h

theorem store_isSome_iff {block : Bytes} :
    (store block off src).isSome ↔ off + src.length ≤ block.length := by
  unfold store
  split <;> simp [*]

theorem exists_store {block : Bytes} (h : off + src.length ≤ block.length) :
    ∃ block', store block off src = some block' ∧ block'.length = block.length := by
  obtain ⟨block', hstore⟩ := Option.isSome_iff_exists.mp (store_isSome_iff.mpr h)
  exact ⟨block', hstore, length_store hstore⟩

theorem zero_mem_append : 0 ∈ s ++ 0 :: z := List.mem_append_right s List.mem_cons_self

theorem cut_append_zero_cons (hs : 0 ∉ s) : cut (s ++ 0 :: z) = s := by
  have hall : ∀ b ∈ s, decide (b ≠ 0) = true := fun b hb =>
    decide_eq_true (ne_of_mem_of_not_mem hb hs)
  rw [cut, List.takeWhile_append_of_pos hall]
  exact List.append_nil s

/-- A list with a zero is the string in front of the first one, and the rest. -/
theorem eq_cut_append {block : Bytes} (h : 0 ∈ block) : ∃ z, block = cut block ++ 0 :: z := by
  induction block with
  | nil => exact absurd h List.not_mem_nil
  | cons b block ih =>
    by_cases hb : b = 0
    · exact ⟨block, by simp [cut, hb]⟩
    · have hmem : 0 ∈ block := (List.mem_cons.mp h).resolve_left (Ne.symm hb)
      obtain ⟨z, hz⟩ := ih hmem
      have hcut : cut (b :: block) = b :: cut block :=
        List.takeWhile_cons_of_pos (by simpa using hb)
      exact ⟨z, by rw [hcut, List.cons_append, ← hz]⟩

theorem strlen_append (hx : x.length = off) (hs : 0 ∉ s) :
    strlen (x ++ (s ++ 0 :: z)) off = some s.length := by
  rw [strlen, List.drop_left' hx, if_pos zero_mem_append, cut_append_zero_cons hs]

/-- A string that has an end has bytes in front of it and behind it. -/
theorem strlen_eq_some {block : Bytes} (h : strlen block off = some n) :
    ∃ x s z, block = x ++ (s ++ 0 :: z) ∧ x.length = off ∧ 0 ∉ s ∧ s.length = n := by
  unfold strlen at h
  split at h
  · next hz =>
    obtain ⟨z, hcut⟩ := eq_cut_append hz
    have hoff : off ≤ block.length := by
      by_contra hlt
      rw [List.drop_eq_nil_of_le (Nat.le_of_not_le hlt)] at hz
      exact absurd hz List.not_mem_nil
    refine ⟨block.take off, cut (block.drop off), z, ?_, List.length_take_of_le hoff,
      zero_not_mem_cut _, Option.some.inj h⟩
    rw [← hcut, List.take_append_drop]
  · cases h

theorem stringIn_eq_some_iff {block : Bytes} :
    stringIn block off size = some s ↔
      ∃ x z, block = x ++ (s ++ 0 :: z) ∧ x.length = off ∧ 0 ∉ s ∧ s.length < size := by
  constructor
  · intro h
    unfold stringIn at h
    split at h
    · next hz =>
      obtain rfl := Option.some.inj h
      have hdrop : 0 ∈ block.drop off := List.mem_of_mem_take hz
      obtain ⟨z, hcut⟩ := eq_cut_append hz
      have hlen : (cut (pread block off size)).length < size := by
        have hle : (pread block off size).length ≤ size := List.length_take_le _ _
        rw [hcut, List.length_append, List.length_cons] at hle
        omega
      have hoff : off ≤ block.length := by
        by_contra hlt
        rw [List.drop_eq_nil_of_le (Nat.le_of_not_le hlt)] at hdrop
        exact absurd hdrop List.not_mem_nil
      refine ⟨block.take off, z ++ (block.drop off).drop size, ?_, List.length_take_of_le hoff,
        zero_not_mem_cut _, hlen⟩
      rw [← List.cons_append, ← List.append_assoc (cut _), ← hcut, pread, List.take_append_drop,
        List.take_append_drop]
    · cases h
  · rintro ⟨x, z, rfl, hx, hs, hlen⟩
    obtain ⟨k, rfl⟩ := Nat.exists_eq_add_of_lt hlen
    have hread : pread (x ++ (s ++ 0 :: z)) off (s.length + k + 1) = s ++ 0 :: z.take k := by
      rw [pread, List.drop_left' hx, Nat.add_assoc, List.take_length_add_append]
      rfl
    rw [stringIn, hread, if_pos zero_mem_append, cut_append_zero_cons hs]

theorem exists_strlen {block : Bytes} (h : (stringIn block off size).isSome) :
    ∃ n, strlen block off = some n := by
  obtain ⟨s, hs⟩ := Option.isSome_iff_exists.mp h
  obtain ⟨x, z, rfl, hx, hs, -⟩ := stringIn_eq_some_iff.mp hs
  exact ⟨_, strlen_append hx hs⟩

/-- A string in a field is at least as long as the bytes without a zero at its start,
as far as these are in the field. -/
theorem length_le_of_stringIn {w : Bytes} (h : stringIn (x ++ (s ++ z)) off size = some w)
    (hx : x.length = off) (hs : 0 ∉ s) : min s.length size ≤ w.length := by
  unfold stringIn at h
  split at h
  · obtain rfl := Option.some.inj h
    have hread : pread (x ++ (s ++ z)) off size = s.take size ++ z.take (size - s.length) := by
      rw [pread, List.drop_left' hx, List.take_append]
    have hall : ∀ b ∈ s.take size, decide (b ≠ 0) = true := fun b hb =>
      decide_eq_true (ne_of_mem_of_not_mem (List.mem_of_mem_take hb) hs)
    rw [hread, cut, List.takeWhile_append_of_pos hall, List.length_append, List.length_take,
      Nat.min_comm]
    exact Nat.le_add_right _ _
  · cases h

end

/-! ## Records of one size -/

section

variable {α : Type} {f : α → Bytes} {k : Nat}

theorem length_flatMap {l : List α} (h : ∀ a ∈ l, (f a).length = k) :
    (l.flatMap f).length = k * l.length := by
  induction l with
  | nil => rfl
  | cons a l ih =>
    obtain ⟨ha, hl⟩ := List.forall_mem_cons.mp h
    rw [List.flatMap_cons, List.length_append, ha, ih hl, List.length_cons, Nat.mul_succ,
      Nat.add_comm]

/-- A record is found at its multiple of the size. -/
theorem pread_flatMap {l : List α} (h : ∀ a ∈ l, (f a).length = k) {i : Nat} (hi : i < l.length)
    (z : Bytes) : pread (l.flatMap f ++ z) (k * i) k = f l[i] := by
  induction l generalizing i with
  | nil => exact absurd hi (Nat.not_lt_zero i)
  | cons a l ih =>
    obtain ⟨ha, hl⟩ := List.forall_mem_cons.mp h
    rw [List.flatMap_cons, List.append_assoc]
    cases i with
    | zero => exact pread_append (x := []) rfl ha
    | succ i =>
      rw [Nat.mul_succ, Nat.add_comm, pread_append_right ha]
      exact ih hl (Nat.lt_of_succ_lt_succ hi)

end

/-! ## Running offsets -/

/-- What is left of the block at an offset. -/
def Rest (block : Bytes) (off : Int) (rest : Bytes) : Prop :=
  ∃ front, block = front ++ rest ∧ (front.length : Int) = off

namespace Rest

variable {block rest bs : Bytes} {off : Int}

theorem start (block : Bytes) : Rest block 0 block := ⟨[], rfl, rfl⟩

theorem advance (h : Rest block off (bs ++ rest)) : Rest block (off + bs.length) rest := by
  obtain ⟨front, rfl, rfl⟩ := h
  exact ⟨front ++ bs, (List.append_assoc _ _ _).symm, by rw [List.length_append]; rfl⟩

/-- Bytes at the offset are in the block if they are among what is left. -/
theorem inside_iff (h : Rest block off rest) (n : Nat) :
    0 ≤ off ∧ off + n ≤ block.length ↔ n ≤ rest.length := by
  obtain ⟨front, rfl, rfl⟩ := h
  rw [List.length_append]
  omega

theorem pread_eq (h : Rest block off (bs ++ rest)) :
    pread block off.toNat bs.length = bs := by
  obtain ⟨front, rfl, rfl⟩ := h
  exact pread_append rfl rfl

theorem offset_le (h : Rest block off rest) : 0 ≤ off ∧ off ≤ block.length := by
  obtain ⟨front, rfl, rfl⟩ := h
  rw [List.length_append]
  omega

end Rest

/-- The first `n` bytes of a list that has them. -/
theorem exists_append_of_le {bs : Bytes} {n : Nat} (h : n ≤ bs.length) :
    ∃ front rest, bs = front ++ rest ∧ front.length = n :=
  ⟨bs.take n, bs.drop n, (List.take_append_drop n bs).symm, List.length_take_of_le h⟩

/-! ## Accessing programs -/

/-- A result with the accesses that were made for it, none where the program is
undefined. -/
structure Accessing (ε α : Type) where
  log : List ε
  result : Option α

namespace Accessing

variable {ε α β : Type}

instance : Monad (Accessing ε) where
  pure a := ⟨[], some a⟩
  bind x f :=
    match x.result with
    | some a => ⟨x.log ++ (f a).log, (f a).result⟩
    | none => ⟨x.log, none⟩

/-- Every access is allowed, and the program is defined. -/
def Safe (Inside : ε → Prop) (x : Accessing ε α) : Prop :=
  (∀ e ∈ x.log, Inside e) ∧ x.result ≠ none

variable {Inside : ε → Prop}

theorem bind_of_some {x : Accessing ε α} {a : α} (h : x.result = some a) (f : α → Accessing ε β) :
    x >>= f = ⟨x.log ++ (f a).log, (f a).result⟩ := by
  show (match x.result with | some a => _ | none => _) = _
  rw [h]

theorem bind_of_none {x : Accessing ε α} (h : x.result = none) (f : α → Accessing ε β) :
    x >>= f = ⟨x.log, none⟩ := by
  show (match x.result with | some a => _ | none => _) = _
  rw [h]

theorem result_bind (x : Accessing ε α) (f : α → Accessing ε β) :
    (x >>= f).result = x.result.bind fun a => (f a).result := by
  cases h : x.result with
  | some a => rw [bind_of_some h, Option.bind_some]
  | none => rw [bind_of_none h, Option.bind_none]

/-- The program is defined and gives `a`. -/
def Returns (x : Accessing ε α) (a : α) : Prop := x.result = some a

theorem returns_pure (a : α) : (pure a : Accessing ε α).Returns a := rfl

theorem returns_bind {x : Accessing ε α} {a : α} {f : α → Accessing ε β} {b : β} (hx : x.Returns a)
    (hf : (f a).Returns b) : (x >>= f).Returns b := by
  have hbind := result_bind x f
  rw [hx, Option.bind_some] at hbind
  exact hbind.trans hf

theorem safe_pure (a : α) : (pure a : Accessing ε α).Safe Inside :=
  ⟨nofun, nofun⟩

theorem not_safe_of_none {x : Accessing ε α} (h : x.result = none) : ¬ x.Safe Inside :=
  fun hx => hx.2 h

theorem safe_bind {x : Accessing ε α} {f : α → Accessing ε β} :
    (x >>= f).Safe Inside ↔ x.Safe Inside ∧ ∀ a, x.result = some a → (f a).Safe Inside := by
  cases h : x.result with
  | some a =>
    rw [bind_of_some h, Safe, Safe, List.forall_mem_append]
    constructor
    · rintro ⟨⟨hx, hf⟩, hdef⟩
      exact ⟨⟨hx, h ▸ nofun⟩, fun b hb => Option.some.inj hb ▸ ⟨hf, hdef⟩⟩
    · rintro ⟨⟨hx, -⟩, hf⟩
      obtain ⟨hlog, hdef⟩ := hf a rfl
      exact ⟨⟨hx, hlog⟩, hdef⟩
  | none =>
    rw [bind_of_none h]
    exact iff_of_false (not_safe_of_none rfl) fun hx => not_safe_of_none h hx.1

theorem safe_bind_pure {x : Accessing ε α} {f : α → β} :
    (x >>= fun a => pure (f a)).Safe Inside ↔ x.Safe Inside :=
  safe_bind.trans (and_iff_left fun _ _ => safe_pure _)

end Accessing

end Blocks
