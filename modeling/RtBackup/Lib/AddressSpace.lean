import RtBackup.Lib.ByteFile
import Mathlib.Data.List.GetD
import Mathlib.Data.Set.BooleanAlgebra
import Mathlib.Order.CompletePartialOrder

/-!
# Memory at machine addresses

Addresses are words of `w` bits and a block of bytes may run over the end of the
address space. A place belongs to the block of `n` bytes at `addr` if its
distance from `addr`, taken modulo `2 ^ w`, is less than `n`.

Results:
1. `overwrite_of_not_mem`, `overwrite_bytesAt`: a store changes its block only,
   and the bytes read from a block, stored there, are those of that block.
2. `block_add_subset_iff`: a block inside another one.
-/

namespace AddressSpace

open ByteFile

/-- The bytes of a memory. -/
abbrev Image (w : Nat) := BitVec w → UInt8

variable {w : Nat}

/-- The `n` bytes from `addr` on. -/
def block (addr : BitVec w) (n : Nat) : Set (BitVec w) := {a | (a - addr).toNat < n}

def addresses (addr : BitVec w) (n : Nat) : List (BitVec w) :=
  (List.range n).map fun i : Nat => addr + BitVec.ofNat w i

def bytesAt (image : Image w) (addr : BitVec w) (n : Nat) : Bytes :=
  (List.range n).map fun i : Nat => image (addr + BitVec.ofNat w i)

/-- `memcpy` to `addr`. -/
def overwrite (image : Image w) (addr : BitVec w) (bytes : Bytes) : Image w :=
  fun a => bytes.getD (a - addr).toNat (image a)

/-- `memset` of `n` bytes at `addr`. -/
def fill (image : Image w) (addr : BitVec w) (byte : UInt8) (n : Nat) : Image w :=
  fun a => if (a - addr).toNat < n then byte else image a

/-- Stores one after the other. -/
def overwriteAll (image : Image w) (stores : List (BitVec w × Bytes)) : Image w :=
  stores.foldl (fun image store => overwrite image store.1 store.2) image

theorem mem_block {addr a : BitVec w} {n : Nat} : a ∈ block addr n ↔ (a - addr).toNat < n := Iff.rfl

theorem block_mono (addr : BitVec w) {m n : Nat} (h : m ≤ n) : block addr m ⊆ block addr n :=
  fun _ ha => Nat.lt_of_lt_of_le (mem_block.mp ha) h

theorem add_mem_block (addr : BitVec w) {i n : Nat} (h : i < n) :
    addr + BitVec.ofNat w i ∈ block addr n := by
  rw [mem_block, BitVec.add_comm, BitVec.add_sub_cancel, BitVec.toNat_ofNat]
  exact Nat.lt_of_le_of_lt (Nat.mod_le _ _) h

theorem add_ofNat_add (addr : BitVec w) (m n : Nat) :
    addr + BitVec.ofNat w m + BitVec.ofNat w n = addr + BitVec.ofNat w (m + n) := by
  rw [BitVec.add_assoc, BitVec.ofNat_add]

/-- A place before or behind a block, where the two do not go around the address
space. -/
theorem add_not_mem_block {addr : BitVec w} {i k n : Nat}
    (h : i < k ∧ k + n ≤ 2 ^ w + i ∨ k + n ≤ i ∧ i < 2 ^ w) :
    addr + BitVec.ofNat w i ∉ block (addr + BitVec.ofNat w k) n := by
  rw [mem_block, Nat.not_lt]
  rcases h with ⟨hlt, hle⟩ | ⟨hle, hlt⟩
  · obtain ⟨d, rfl⟩ := Nat.exists_eq_add_of_lt hlt
    have heq : addr + BitVec.ofNat w i - (addr + BitVec.ofNat w (i + d + 1)) =
        -BitVec.ofNat w (d + 1) := by
      rw [Nat.add_assoc, ← add_ofNat_add, ← BitVec.sub_sub, BitVec.sub_self, BitVec.zero_sub]
    rw [heq, BitVec.toNat_neg, BitVec.toNat_ofNat]
    rcases Nat.eq_zero_or_pos n with rfl | hn
    · exact Nat.zero_le _
    · rw [Nat.mod_eq_of_lt (a := d + 1) (by omega), Nat.mod_eq_of_lt (by omega)]
      omega
  · obtain ⟨d, rfl⟩ := Nat.exists_eq_add_of_le (Nat.le_of_add_right_le hle)
    rw [← add_ofNat_add, BitVec.add_comm, BitVec.add_sub_cancel, BitVec.toNat_ofNat,
      Nat.mod_eq_of_lt (by omega)]
    omega

theorem block_add_subset (addr : BitVec w) (k n : Nat) :
    block (addr + BitVec.ofNat w k) n ⊆ block addr (k + n) := by
  intro a ha
  have heq : a - addr = BitVec.ofNat w k + (a - (addr + BitVec.ofNat w k)) := by
    rw [← BitVec.sub_sub, BitVec.add_comm, BitVec.sub_add_cancel]
  rw [mem_block, heq, BitVec.toNat_add, BitVec.toNat_ofNat]
  rw [mem_block] at ha
  calc
    _ ≤ k % 2 ^ w + (a - (addr + BitVec.ofNat w k)).toNat := Nat.mod_le _ _
    _ ≤ k + (a - (addr + BitVec.ofNat w k)).toNat := Nat.add_le_add_right (Nat.mod_le _ _) _
    _ < k + n := Nat.add_lt_add_left ha k

/-- A block at an offset is inside if and only if its end is. -/
theorem block_add_subset_iff {addr : BitVec w} {k n m : Nat} (hn : 0 < n) (hw : k + n ≤ 2 ^ w) :
    block (addr + BitVec.ofNat w k) n ⊆ block addr m ↔ k + n ≤ m := by
  constructor
  · intro h
    have hlast : addr + BitVec.ofNat w k + BitVec.ofNat w (n - 1) ∈ block addr m :=
      h (add_mem_block _ (Nat.sub_one_lt_of_lt hn))
    rw [add_ofNat_add, mem_block, BitVec.add_comm, BitVec.add_sub_cancel, BitVec.toNat_ofNat,
      Nat.mod_eq_of_lt (by omega)] at hlast
    omega
  · intro h
    exact (block_add_subset addr k n).trans (block_mono addr h)

/-- An address that is counted up without passing the end of the address space. -/
theorem toNat_add_of_not_lt {a : BitVec w} {n : Nat} (hn : n < 2 ^ w)
    (h : ¬a + BitVec.ofNat w n < a) : (a + BitVec.ofNat w n).toNat = a.toNat + n := by
  have ha := a.isLt
  have hsum : (a + BitVec.ofNat w n).toNat = (a.toNat + n) % 2 ^ w := by
    rw [BitVec.toNat_add, BitVec.toNat_ofNat, Nat.add_mod_mod]
  rw [BitVec.lt_def, hsum] at h
  rw [hsum]
  rcases Nat.lt_or_ge (a.toNat + n) (2 ^ w) with hlt | hge
  · exact Nat.mod_eq_of_lt hlt
  · rw [Nat.mod_eq_sub_mod hge, Nat.mod_eq_of_lt (by omega)] at h
    omega

/-- Two blocks of one length that are apart take up at most the address space. -/
theorem disjoint_blocks {a b : BitVec w} {n : Nat} (hn : 0 < n)
    (h : Disjoint (block a n) (block b n)) : a ≠ b ∧ 2 * n ≤ 2 ^ w := by
  have hself : ∀ c : BitVec w, c ∈ block c n := by
    intro c
    rw [mem_block, BitVec.sub_self]
    exact hn
  have ha : a ∉ block b n := Set.disjoint_left.mp h (hself a)
  have hb : b ∉ block a n := Set.disjoint_right.mp h (hself b)
  refine ⟨fun heq => ha (heq ▸ hself b), ?_⟩
  -- the two distances add up to the address space
  have hneg : b - a = -(a - b) := by
    rw [BitVec.neg_sub, BitVec.add_comm, ← BitVec.sub_eq_add_neg]
  rw [mem_block, Nat.not_lt] at ha hb
  rw [hneg, BitVec.toNat_neg, Nat.mod_eq_of_lt (by omega)] at hb
  omega

/-- A place lies at its distance from `addr`. -/
theorem add_distance (addr a : BitVec w) : addr + BitVec.ofNat w (a - addr).toNat = a := by
  rw [BitVec.ofNat_toNat, BitVec.setWidth_eq, BitVec.add_comm, BitVec.sub_add_cancel]

theorem mem_addresses {addr a : BitVec w} {n : Nat} :
    a ∈ addresses addr n ↔ a ∈ block addr n := by
  constructor
  · intro h
    obtain ⟨i, hi, rfl⟩ := List.mem_map.mp h
    exact add_mem_block addr (List.mem_range.mp hi)
  · intro h
    exact List.mem_map.mpr ⟨(a - addr).toNat, List.mem_range.mpr h, add_distance addr a⟩

@[simp] theorem bytesAt_length (image : Image w) (addr : BitVec w) (n : Nat) :
    (bytesAt image addr n).length = n := by
  rw [bytesAt, List.length_map, List.length_range]

theorem bytesAt_congr {image image' : Image w} {addr addr' : BitVec w} {n : Nat}
    (h : ∀ i < n, image (addr + BitVec.ofNat w i) = image' (addr' + BitVec.ofNat w i)) :
    bytesAt image addr n = bytesAt image' addr' n :=
  List.map_congr_left fun i hi => h i (List.mem_range.mp hi)

theorem overwrite_of_not_mem {image : Image w} {addr a : BitVec w} {bytes : Bytes}
    (h : a ∉ block addr bytes.length) : overwrite image addr bytes a = image a := by
  rw [mem_block, Nat.not_lt] at h
  exact List.getD_eq_default _ _ h

/-- What was at the places of a store does not matter. -/
theorem overwrite_congr (image image' : Image w) {addr a : BitVec w} {bytes : Bytes}
    (h : a ∈ block addr bytes.length) :
    overwrite image addr bytes a = overwrite image' addr bytes a := by
  rw [overwrite, overwrite, List.getD_eq_getElem _ _ h, List.getD_eq_getElem _ _ h]

theorem overwrite_bytesAt {image image' : Image w} {addr a : BitVec w} {n : Nat}
    (h : a ∈ block addr n) : overwrite image addr (bytesAt image' addr n) a = image' a := by
  rw [overwrite, bytesAt, List.getD_eq_getElem?_getD, List.getElem?_map,
    List.getElem?_range (mem_block.mp h)]
  exact congrArg image' (add_distance addr a)

/-- The `i`-th byte of a store. -/
theorem overwrite_add {image : Image w} {addr : BitVec w} {bytes : Bytes} {i : Nat}
    (hi : i < bytes.length) (hw : bytes.length ≤ 2 ^ w) :
    overwrite image addr bytes (addr + BitVec.ofNat w i) = bytes[i] := by
  have hdist : (addr + BitVec.ofNat w i - addr).toNat = i := by
    rw [BitVec.add_comm, BitVec.add_sub_cancel, BitVec.toNat_ofNat, Nat.mod_eq_of_lt (by omega)]
  rw [overwrite, hdist]
  exact List.getD_eq_getElem _ _ hi

theorem bytesAt_overwrite {image : Image w} {addr : BitVec w} {bytes : Bytes}
    (h : bytes.length ≤ 2 ^ w) :
    bytesAt (overwrite image addr bytes) addr bytes.length = bytes := by
  refine List.ext_getElem (bytesAt_length ..) fun i hi hi' => ?_
  simp only [bytesAt, List.getElem_map, List.getElem_range]
  exact overwrite_add hi' h

end AddressSpace
