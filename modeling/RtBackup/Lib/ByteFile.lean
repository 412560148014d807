import RtBackup.Lib.PrefixOrder
import Mathlib.Data.List.TakeWhile
import Mathlib.Data.Nat.Digits.Defs

/-!
# Byte files with fixed-size records

A C program that keeps an array of structures in a file writes each structure
at its own offset and reads it back by its size. This file has the three parts
of such a file: strings in fixed fields, codecs of a fixed size, and positional
reads and writes.

Results:
1. `leVal_leBytes`: little-endian words.
2. `Codec`: fixed-size codecs and how they compose (`pair`, `conv`, `field`).
3. `holds_pwrite`, `Holds.pwrite_of_disjoint`: what one write does to the bytes
   at other offsets.
4. `writeAll_layout`: blocks written one behind the other are read back as one
   run of bytes, and the bytes before them stay.
-/

namespace ByteFile

abbrev Bytes := List UInt8

/-! ## C strings -/

/-- A string without its terminator. -/
structure CString where
  bytes : Bytes
  noNul : 0 ∉ bytes
deriving DecidableEq

/-- A string in a `char[n]` field. A string of the full `n` bytes has no
terminator inside its field. -/
structure FieldString (n : Nat) extends CString where
  fits : bytes.length ≤ n
deriving DecidableEq

theorem CString.ext {s t : CString} (h : s.bytes = t.bytes) : s = t := by
  cases s; cases t; simp_all

theorem FieldString.ext {n : Nat} {s t : FieldString n} (h : s.bytes = t.bytes) : s = t := by
  obtain ⟨⟨s, hs⟩, hs'⟩ := s
  obtain ⟨⟨t, ht⟩, ht'⟩ := t
  simp only at h
  subst h
  rfl

namespace CString

/-- The first `n` bytes, as a bounded copy leaves them. -/
def take (s : CString) (n : Nat) : CString where
  bytes := s.bytes.take n
  noNul h := s.noNul (List.mem_of_mem_take h)

/-- `strcat`. -/
def append (s t : CString) : CString where
  bytes := s.bytes ++ t.bytes
  noNul h := (List.mem_append.mp h).elim s.noNul t.noNul

/-- The decimal numeral of a number. -/
def decimal (n : Nat) : CString where
  bytes := if n = 0 then [48] else (Nat.digits 10 n).reverse.map fun k => UInt8.ofNat (48 + k)
  noNul h := by
    split at h
    · simp at h
    · simp only [List.mem_map, List.mem_reverse] at h
      obtain ⟨k, hk, h0⟩ := h
      have hlt : k < 10 := Nat.digits_lt_base (by decide) hk
      have hval : (UInt8.ofNat (48 + k)).toNat = (48 + k) % 256 := UInt8.toNat_ofNat'
      rw [h0, UInt8.toNat_zero] at hval
      omega

/-- The numeral of a signed number, as `%lld` prints it. -/
def signed (n : Int) : CString :=
  if 0 ≤ n then decimal n.toNat else append ⟨[45], by decide⟩ (decimal n.natAbs)

/-- The digits that a numeral spells. -/
theorem digits_of_decimal (n : Nat) :
    Nat.ofDigits 10 ((decimal n).bytes.reverse.map fun b => b.toNat - 48) = n := by
  unfold decimal
  split
  · next h =>
    subst h
    rfl
  · have hdigits : ((Nat.digits 10 n).map fun k => UInt8.ofNat (48 + k)).map
        (fun b => b.toNat - 48) = Nat.digits 10 n := by
      rw [List.map_map]
      refine (List.map_congr_left fun k hk => ?_).trans (List.map_id _)
      have hlt : k < 10 := Nat.digits_lt_base (by decide) hk
      rw [Function.comp_apply, UInt8.toNat_ofNat', Nat.mod_eq_of_lt (by omega)]
      exact Nat.add_sub_cancel_left 48 k
    simp only [List.map_reverse, List.reverse_reverse]
    rw [hdigits, Nat.ofDigits_digits]

theorem decimal_injective : Function.Injective decimal := by
  intro m n h
  rw [← digits_of_decimal m, h, digits_of_decimal]

theorem le_of_mem_decimal {n : Nat} {b : UInt8} (h : b ∈ (decimal n).bytes) : 48 ≤ b.toNat := by
  unfold decimal at h
  split at h
  · obtain rfl := List.mem_singleton.mp h
    decide
  · obtain ⟨k, hk, rfl⟩ := List.mem_map.mp h
    have hlt : k < 10 := Nat.digits_lt_base (by decide) (List.mem_reverse.mp hk)
    rw [UInt8.toNat_ofNat', Nat.mod_eq_of_lt (by omega)]
    exact Nat.le_add_right _ _

theorem decimal_ne_nil (n : Nat) : (decimal n).bytes ≠ [] := by
  unfold decimal
  split
  · exact List.cons_ne_nil _ _
  · next h =>
    intro hnil
    have hdigits := List.reverse_eq_nil_iff.mp (List.map_eq_nil_iff.mp hnil)
    exact h (Nat.digits_eq_nil_iff_eq_zero.mp hdigits)

/-- Different numbers have different numerals. -/
theorem signed_injective : Function.Injective signed := by
  have hsign : ∀ (s : CString) (n : Nat), append ⟨[45], by decide⟩ s ≠ decimal n := by
    intro s n h
    have hmem : (45 : UInt8) ∈ (decimal n).bytes := h ▸ List.mem_cons_self
    exact absurd (le_of_mem_decimal hmem) (by decide)
  intro m n h
  unfold signed at h
  split at h
  · split at h
    · have := decimal_injective h
      omega
    · exact absurd h.symm (hsign _ _)
  · split at h
    · exact absurd h (hsign _ _)
    · have hb := congrArg CString.bytes h
      have := decimal_injective (CString.ext (List.cons.inj hb).2)
      omega

end CString

/-- Copy at most `n` bytes of a string into a zeroed field. -/
def FieldString.clamp (n : Nat) (s : CString) : FieldString n where
  toCString := s.take n
  fits := List.length_take_le _ _

/-- The bytes up to the first NUL or the end of the field. -/
def cut (bs : Bytes) : Bytes := bs.takeWhile (· ≠ 0)

theorem zero_not_mem_cut (bs : Bytes) : 0 ∉ cut bs := by
  intro h
  have hz := List.mem_takeWhile_imp h
  exact absurd rfl (of_decide_eq_true hz)

theorem cut_append_zeros {bs : Bytes} (h : 0 ∉ bs) (n : Nat) :
    cut (bs ++ List.replicate n 0) = bs := by
  induction bs with
  | nil => cases n <;> simp [cut, List.replicate_succ]
  | cons b bs ih =>
    simp only [List.mem_cons, not_or] at h
    have hb : b ≠ 0 := fun e => h.1 e.symm
    simpa [cut, hb] using ih h.2

/-- The string that a field of `n` bytes holds. -/
def FieldString.ofField (n : Nat) (bs : Bytes) : FieldString n where
  bytes := cut (bs.take n)
  noNul := zero_not_mem_cut _
  fits := (List.takeWhile_sublist _).length_le.trans (List.length_take_le _ _)

/-- The field filled with zeros behind the string. -/
def FieldString.toField {n : Nat} (s : FieldString n) : Bytes :=
  s.bytes ++ List.replicate (n - s.bytes.length) 0

theorem FieldString.toField_length {n : Nat} (s : FieldString n) : s.toField.length = n := by
  have := s.fits
  simp [toField]
  omega

theorem FieldString.ofField_toField {n : Nat} (s : FieldString n) :
    FieldString.ofField n s.toField = s := by
  have hlen : s.toField.take n = s.toField := List.take_of_length_le (by rw [s.toField_length])
  have hcut : cut (s.toField.take n) = s.bytes := by
    rw [hlen]
    exact cut_append_zeros s.noNul _
  exact FieldString.ext hcut

/-! ## Little-endian words -/

def leBytes : Nat → Nat → Bytes
  | 0, _ => []
  | n + 1, v => UInt8.ofNat v :: leBytes n (v / 256)

def leVal : Bytes → Nat
  | [] => 0
  | b :: bs => b.toNat + 256 * leVal bs

@[simp] theorem leBytes_length (n v : Nat) : (leBytes n v).length = n := by
  induction n generalizing v with
  | zero => rfl
  | succ n ih => simp [leBytes, ih]

theorem leVal_leBytes (n v : Nat) : leVal (leBytes n v) = v % 256 ^ n := by
  induction n generalizing v with
  | zero => simp [leBytes, leVal, Nat.mod_one]
  | succ n ih =>
    have hbyte : (UInt8.ofNat v).toNat = v % 256 := UInt8.toNat_ofNat'
    rw [leBytes, leVal, ih, hbyte, Nat.pow_succ, Nat.mul_comm (256 ^ n), Nat.mod_mul]

theorem leVal_lt (bs : Bytes) : leVal bs < 256 ^ bs.length := by
  induction bs with
  | nil => exact Nat.one_pos
  | cons b bs ih =>
    have hb : b.toNat < 256 := b.toNat_lt
    rw [leVal, List.length_cons, Nat.pow_succ]
    omega

theorem leBytes_leVal (bs : Bytes) : leBytes bs.length (leVal bs) = bs := by
  induction bs with
  | nil => rfl
  | cons b bs ih =>
    have hb : b.toNat < 256 := b.toNat_lt
    have hlow : UInt8.ofNat (b.toNat + 256 * leVal bs) = b := by
      apply UInt8.toNat_inj.mp
      rw [UInt8.toNat_ofNat']
      omega
    have hhigh : (b.toNat + 256 * leVal bs) / 256 = leVal bs := by omega
    rw [leVal, List.length_cons, leBytes, hlow, hhigh, ih]

/-! ## Codecs of a fixed size -/

/-- A structure that occupies `size` bytes in memory and on disk. -/
structure Codec (α : Type) where
  size : Nat
  enc : α → Bytes
  dec : Bytes → α
  enc_length : ∀ a, (enc a).length = size
  dec_enc : ∀ a, dec (enc a) = a

namespace Codec

attribute [simp] enc_length dec_enc

variable {α β : Type}

def u32 : Codec UInt32 where
  size := 4
  enc v := leBytes 4 v.toNat
  dec bs := UInt32.ofNat (leVal bs)
  enc_length _ := leBytes_length _ _
  dec_enc v := by
    have hv : v.toNat % 256 ^ 4 = v.toNat := Nat.mod_eq_of_lt v.toNat_lt
    rw [leVal_leBytes, hv, UInt32.ofNat_toNat]

def u64 : Codec UInt64 where
  size := 8
  enc v := leBytes 8 v.toNat
  dec bs := UInt64.ofNat (leVal bs)
  enc_length _ := leBytes_length _ _
  dec_enc v := by
    have hv : v.toNat % 256 ^ 8 = v.toNat := Nat.mod_eq_of_lt v.toNat_lt
    rw [leVal_leBytes, hv, UInt64.ofNat_toNat]

def field (n : Nat) : Codec (FieldString n) where
  size := n
  enc s := s.toField
  dec bs := FieldString.ofField n bs
  enc_length s := s.toField_length
  dec_enc s := s.ofField_toField

/-- `n` bytes that are skipped on reading. -/
def pad (n : Nat) : Codec Unit where
  size := n
  enc _ := List.replicate n 0
  dec _ := ()
  enc_length _ := List.length_replicate
  dec_enc _ := rfl

/-- Two fields one behind the other. -/
def pair (c : Codec α) (d : Codec β) : Codec (α × β) where
  size := c.size + d.size
  enc p := c.enc p.1 ++ d.enc p.2
  dec bs := (c.dec (bs.take c.size), d.dec (bs.drop c.size))
  enc_length p := by simp
  dec_enc p := by
    have h := c.enc_length p.1
    rw [List.take_left' h, List.drop_left' h, c.dec_enc, d.dec_enc]

/-- A codec for another type with the same content. -/
def conv (c : Codec α) (f : β → α) (g : α → β) (h : ∀ b, g (f b) = b) : Codec β where
  size := c.size
  enc b := c.enc (f b)
  dec bs := g (c.dec bs)
  enc_length b := c.enc_length _
  dec_enc b := by rw [c.dec_enc, h]

end Codec

/-! ## Positional reads and writes -/

/-- Read up to `n` bytes at an offset; at the end of the file fewer. -/
def pread (f : Bytes) (off n : Nat) : Bytes := (f.drop off).take n

/-- Write at an offset; a gap behind the end of the file is filled with zeros. -/
def pwrite (f : Bytes) (off : Nat) (bs : Bytes) : Bytes :=
  (f ++ List.replicate (off - f.length) 0).take off ++ bs ++ f.drop (off + bs.length)

/-- The file has these bytes at this offset. -/
def Holds (f : Bytes) (off : Nat) (bs : Bytes) : Prop :=
  ∀ i, i < bs.length → f[off + i]? = bs[i]?

theorem Holds.pread {f bs : Bytes} {off : Nat} (h : Holds f off bs) :
    pread f off bs.length = bs := by
  apply List.ext_getElem?
  intro i
  rw [ByteFile.pread, List.getElem?_take, List.getElem?_drop]
  split
  · next hi => exact h i hi
  · next hi => rw [List.getElem?_eq_none (Nat.le_of_not_lt hi)]

theorem Holds.append_iff {f a b : Bytes} {off : Nat} :
    Holds f off (a ++ b) ↔ Holds f off a ∧ Holds f (off + a.length) b := by
  constructor
  · intro h
    refine ⟨fun i hi => ?_, fun i hi => ?_⟩
    · rw [h i (by simp; omega), List.getElem?_append_left hi]
    · rw [Nat.add_assoc, h (a.length + i) (by simp; omega),
        List.getElem?_append_right (Nat.le_add_right _ _), Nat.add_sub_cancel_left]
  · rintro ⟨ha, hb⟩ i hi
    rcases Nat.lt_or_ge i a.length with hlt | hge
    · rw [ha i hlt, List.getElem?_append_left hlt]
    · have hb := hb (i - a.length) (by simp at hi; omega)
      rw [List.getElem?_append_right hge, ← hb]
      congr 1
      omega

theorem getElem?_pwrite (f bs : Bytes) (off i : Nat) :
    (pwrite f off bs)[i]? =
      if i < off then (if i < f.length then f[i]? else some 0)
      else if i < off + bs.length then bs[i - off]? else f[i]? := by
  have hlen : ((f ++ List.replicate (off - f.length) 0).take off).length = off := by
    simp
    omega
  rw [pwrite, List.append_assoc]
  rcases Nat.lt_or_ge i off with hi | hi
  · rw [List.getElem?_append_left (by rw [hlen]; exact hi), List.getElem?_take, if_pos hi,
      if_pos hi]
    split
    · next hf => rw [List.getElem?_append_left hf]
    · next hf =>
      rw [List.getElem?_append_right (Nat.le_of_not_lt hf), List.getElem?_replicate,
        if_pos (by omega)]
  · rw [List.getElem?_append_right (by rw [hlen]; exact hi), hlen, if_neg (Nat.not_lt.mpr hi)]
    split
    · next hb => rw [List.getElem?_append_left (by omega)]
    · next hb =>
      rw [List.getElem?_append_right (by omega), List.getElem?_drop]
      congr 1
      omega

/-- A write can be read back. -/
theorem holds_pwrite (f bs : Bytes) (off : Nat) : Holds (pwrite f off bs) off bs := by
  intro i hi
  rw [getElem?_pwrite, if_neg (by omega), if_pos (by omega), Nat.add_sub_cancel_left]

/-- A write elsewhere keeps what the file holds. -/
theorem Holds.pwrite_of_disjoint {f as : Bytes} {o : Nat} (h : Holds f o as) {bs : Bytes}
    {off : Nat} (hd : o + as.length ≤ off ∨ off + bs.length ≤ o) :
    Holds (ByteFile.pwrite f off bs) o as := by
  intro i hi
  have hfi := h i hi
  rw [getElem?_pwrite]
  rcases hd with hd | hd
  · have hlt : o + i < f.length := by
      rw [List.getElem?_eq_getElem hi] at hfi
      exact (List.getElem?_eq_some_iff.mp hfi).1
    rw [if_pos (by omega), if_pos hlt, hfi]
  · rw [if_neg (by omega), if_neg (by omega), hfi]

/-- One `write` call: its offset and its bytes. -/
abbrev Write := Nat × Bytes

def writeAll (f : Bytes) (ws : List Write) : Bytes :=
  ws.foldl (fun f w => pwrite f w.1 w.2) f

/-- Blocks one behind the other, from an offset on. -/
def layout : Nat → List Bytes → List Write
  | _, [] => []
  | off, b :: bs => (off, b) :: layout (off + b.length) bs

theorem Holds.writeAll_of_before {f as : Bytes} {o off : Nat} (h : Holds f o as)
    (hd : o + as.length ≤ off) (bs : List Bytes) : Holds (writeAll f (layout off bs)) o as := by
  induction bs generalizing f off with
  | nil => exact h
  | cons b bs ih =>
    exact ih (h.pwrite_of_disjoint (.inl hd)) (Nat.le_trans hd (Nat.le_add_right _ _))

/-- The blocks written by a layout are in the file, one behind the other. -/
theorem holds_writeAll_layout (f : Bytes) (off : Nat) (bs : List Bytes) :
    Holds (writeAll f (layout off bs)) off bs.flatten := by
  induction bs generalizing f off with
  | nil => intro i hi; simp at hi
  | cons b bs ih =>
    rw [List.flatten_cons, Holds.append_iff]
    exact ⟨(holds_pwrite f b off).writeAll_of_before (Nat.le_refl _) bs, ih _ _⟩

end ByteFile
