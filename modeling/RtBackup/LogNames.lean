import RtBackup.CreateIoLog
import RtBackup.LogConsumer
import Mathlib.Data.Set.Function

/-!
# Names of log files

A builder prints the directory and the number with `%s%lld` into `NAME_MAX` bytes.
The programs that read the logs print `%s%d` of an `int` into 1024 bytes. The
directory alone may have 259 bytes, and the number is unsigned.

Results:
1. `iologPath_exact_iff`: when the name has the whole numeral.
2. `iologPath_of_long`: from 254 bytes on the name does not depend on the number.
3. `log_names_iff`: when the names for a set of numbers are exact, different and
   those that the readers open.
-/

namespace RtBackup

open ByteFile

/-! ## The writer -/

/-- `%lld` of a number in the range of `long long`. -/
theorem signed_bmod_of_lt {n size : Nat} (h : 2 * n < size) :
    CString.signed (Int.bmod n size) = .decimal n := by
  have hbmod : Int.bmod n size = n := Int.bmod_eq_of_le (by omega) (by omega)
  rw [hbmod, CString.signed, if_pos (Int.natCast_nonneg n), Int.toNat_natCast]

/-- From 2^63 on the name has a sign. -/
theorem formattedPath_of_ge (iologdir : CString) {n : UInt64} (h : 2 ^ 63 ≤ n.toNat) :
    ∃ digits, (formattedPath iologdir n).bytes = iologdir.bytes ++ 45 :: digits := by
  have hneg : Int.bmod n.toNat (2 ^ 64) < 0 := by
    have hlt := n.toNat_lt
    have hemod : (n.toNat : Int) % ((2 ^ 64 : Nat) : Int) = n.toNat :=
      Int.emod_eq_of_lt (by omega) (by omega)
    rw [Int.bmod_def, hemod]
    split <;> omega
  refine ⟨(CString.decimal (Int.bmod n.toNat (2 ^ 64)).natAbs).bytes, ?_⟩
  rw [formattedPath, CString.signed, if_neg (Int.not_le.mpr hneg)]
  rfl

/-- The name is the directory and the numeral of the unsigned number. -/
theorem iologPath_exact_iff (iologdir : CString) (n : UInt64) :
    iologPath iologdir n = iologdir.append (.decimal n.toNat) ↔
      iologdir.bytes.length + (CString.decimal n.toNat).bytes.length ≤ 254 ∧ n.toNat < 2 ^ 63 := by
  have hlength : (iologdir.append (.decimal n.toNat)).bytes.length =
      iologdir.bytes.length + (CString.decimal n.toNat).bytes.length := List.length_append
  constructor
  · intro h
    have hshort : (iologdir.append (.decimal n.toNat)).bytes.length ≤ 254 :=
      h ▸ List.length_take_le _ _
    refine ⟨hlength ▸ hshort, ?_⟩
    by_contra hlarge
    -- the sign and the first digit stand at the same place
    obtain ⟨digits, hdigits⟩ := formattedPath_of_ge iologdir (Nat.le_of_not_lt hlarge)
    obtain ⟨b, rest, hnumeral⟩ := List.exists_cons_of_ne_nil (CString.decimal_ne_nil n.toNat)
    have hsame : (iologdir.bytes ++ 45 :: digits).take 254 = iologdir.bytes ++ b :: rest := by
      rw [← hdigits, ← hnumeral]
      exact congrArg CString.bytes h
    have hroom : iologdir.bytes.length < 254 := by
      rw [hlength, hnumeral, List.length_cons] at hshort
      omega
    have hplace := congrArg (·[iologdir.bytes.length]?) hsame
    simp only [List.getElem?_take_of_lt hroom, List.getElem?_append_right (Nat.le_refl _),
      Nat.sub_self, List.getElem?_cons_zero, Option.some.injEq] at hplace
    have hdigit : 48 ≤ b.toNat := CString.le_of_mem_decimal (hnumeral ▸ List.mem_cons_self)
    rw [← hplace] at hdigit
    exact absurd hdigit (by decide)
  · rintro ⟨hfit, hlt⟩
    have hformat : formattedPath iologdir n = iologdir.append (.decimal n.toNat) := by
      rw [formattedPath, signed_bmod_of_lt (by omega)]
    rw [← hformat, iologPath_eq_iff, hformat, hlength]
    exact hfit

/-- A directory that fills the buffer leaves no room for a number. -/
theorem iologPath_of_long {iologdir : CString} (h : 254 ≤ iologdir.bytes.length) (n : UInt64) :
    iologPath iologdir n = iologdir.take 254 :=
  CString.ext (List.take_append_of_le_length h)

/-! ## The readers -/

/-- The value of `int iolognum` for the log with this index. -/
def iolognumOf (index : Nat) : Int := (index : Int).bmod (2 ^ 32)

/-- `sprintf(iologpath, "%s%d", argv[1], iolognum)`, in a buffer of 1024 bytes. -/
def readerIologpath (iologsdir : CString) (iolognum : Int) : Option CString :=
  let iologpath := iologsdir.append (.signed iolognum)
  if iologpath.bytes.length < 1024 then some iologpath else none

theorem iolognumOf_eq_iff (index : Nat) : iolognumOf index = index ↔ index < 2 ^ 31 := by
  unfold iolognumOf
  constructor
  · intro h
    have hlt : (index : Int).bmod (2 ^ 32) < (((2 ^ 32 : Nat) : Int) + 1) / 2 :=
      Int.bmod_lt (by decide)
    omega
  · intro h
    exact Int.bmod_eq_of_le (by omega) (by omega)

/-- The reader opens the name with the whole numeral. -/
theorem readerIologpath_eq_iff (iologdir : CString) (index : Nat) :
    readerIologpath iologdir (iolognumOf index) = some (iologdir.append (.decimal index)) ↔
      iologdir.bytes.length + (CString.decimal index).bytes.length < 1024 ∧ index < 2 ^ 31 := by
  have hnumeral : CString.decimal index = .signed (index : Int) := by
    rw [CString.signed, if_pos (Int.natCast_nonneg index), Int.toNat_natCast]
  have hsame : iologdir.append (.signed (iolognumOf index)) = iologdir.append (.decimal index) ↔
      index < 2 ^ 31 := by
    rw [← iolognumOf_eq_iff, hnumeral]
    refine ⟨fun h => CString.signed_injective (CString.ext ?_), fun h => by rw [h]⟩
    exact List.append_cancel_left (congrArg CString.bytes h)
  have hlength : (iologdir.append (.decimal index)).bytes.length =
      iologdir.bytes.length + (CString.decimal index).bytes.length := List.length_append
  unfold readerIologpath
  simp only
  constructor
  · intro h
    split at h
    · next hroom =>
      have heq := Option.some.inj h
      rw [heq, hlength] at hroom
      exact ⟨hroom, hsame.mp heq⟩
    · exact absurd h nofun
  · rintro ⟨hroom, hlt⟩
    have heq := hsame.mpr hlt
    simp only [heq, hlength, if_pos hroom]

/-! ## Names for the numbers of a set -/

/-- For every directory and all numbers that are used: the names are exact, no two
are the same, and the readers open them, exactly if the numerals leave the names
within 254 bytes and the numbers are `int`s. -/
theorem log_names_iff (iologdir : CString) (numbers : Set UInt64) :
    ((∀ n ∈ numbers, iologPath iologdir n = iologdir.append (.decimal n.toNat)) ∧
      Set.InjOn (iologPath iologdir) numbers ∧
      ∀ n ∈ numbers, readerIologpath iologdir (iolognumOf n.toNat) =
        some (iologPath iologdir n)) ↔
    ∀ n ∈ numbers,
      iologdir.bytes.length + (CString.decimal n.toNat).bytes.length ≤ 254 ∧
        n.toNat < 2 ^ 31 := by
  constructor
  · rintro ⟨hexact, -, hread⟩ n hn
    have hopened := hread n hn
    rw [hexact n hn, readerIologpath_eq_iff] at hopened
    exact ⟨((iologPath_exact_iff iologdir n).mp (hexact n hn)).1, hopened.2⟩
  · intro h
    have hexact : ∀ n ∈ numbers, iologPath iologdir n = iologdir.append (.decimal n.toNat) := by
      intro n hn
      obtain ⟨hfit, hlt⟩ := h n hn
      exact (iologPath_exact_iff iologdir n).mpr ⟨hfit, by omega⟩
    refine ⟨hexact, ?_, ?_⟩
    · intro m hm n hn heq
      rw [hexact m hm, hexact n hn] at heq
      have hnumerals := List.append_cancel_left (congrArg CString.bytes heq)
      exact UInt64.toNat_inj.mp (CString.decimal_injective (CString.ext hnumerals))
    · intro n hn
      obtain ⟨hfit, hlt⟩ := h n hn
      rw [hexact n hn, readerIologpath_eq_iff]
      exact ⟨by omega, hlt⟩

/-- A cache directory of 259 bytes. -/
def longCacheDir : FieldPath where
  bytes := [47] ++ List.replicate 257 97 ++ [47]
  noNul := by decide +kernel
  fits := by decide +kernel

/-- In it the logs 0 and 1 have one name. -/
theorem log_names_collide :
    longCacheDir.bytes.length = 259 ∧ longCacheDir.bytes.getLast? = some 47 ∧
    iologPath longCacheDir.toCString 0 = iologPath longCacheDir.toCString 1 ∧
    ¬Set.InjOn (iologPath longCacheDir.toCString) {0, 1} := by
  have hlong : 254 ≤ longCacheDir.toCString.bytes.length := by decide +kernel
  have hsame : iologPath longCacheDir.toCString 0 = iologPath longCacheDir.toCString 1 := by
    rw [iologPath_of_long hlong, iologPath_of_long hlong]
  refine ⟨by decide +kernel, by decide +kernel, hsame, fun hinj => ?_⟩
  exact absurd (hinj (.inl rfl) (.inr rfl) hsame) (by decide)

end RtBackup
