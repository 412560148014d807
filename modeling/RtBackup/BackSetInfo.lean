import RtBackup.Communicate

/-!
# Backup sets from Java (`rtcommunicate.c`)

`GetBackSetInfo` reads a byte array behind a running offset: the length of the array,
a count, the GUID and the directory behind their lengths, and the items, each a
length, a type and a name. It allocates the structure by the count and copies the
parts into their fields. Of the lengths only the first one is checked.

The model logs what is read from the array and what is written to which field.

Results:
1. `getIntFromBuffer_leInt`: the decoder reads little-endian signed words, whatever
   the signs of the bytes.
2. `readItems_safe_iff`: the arrays whose items are read and stored inside.
3. `parser_safe_iff`: the arrays that are rejected, or parsed without an access
   outside.
-/

namespace RtBackup

open ByteFile Blocks

/-! ## Integers in the array -/

/-- The bytes are `char`s with a sign; they are shifted before they are masked. -/
def getIntFromBuffer (pBuffer : Bytes) : Int :=
  let char := fun i => (pBuffer.getD i 0).toBitVec.signExtend 32
  ((0x000000FF#32 &&& char 0) + (0x0000FF00#32 &&& char 1 <<< 8) +
    (0x00FF0000#32 &&& char 2 <<< 16) + (0xFF000000#32 &&& char 3 <<< 24)).toInt

def IsInt (v : Int) : Prop := -2 ^ 31 ≤ v ∧ v < 2 ^ 31

instance (v : Int) : Decidable (IsInt v) := inferInstanceAs (Decidable (_ ∧ _))

/-- An `int` as it stands in memory. -/
def leInt (v : Int) : Bytes := leBytes 4 (v % 2 ^ 32).toNat

theorem mask_fin : ∀ n : Fin 256,
    (0x000000FF#32 &&& (BitVec.ofFin (w := 8) n).signExtend 32).toNat = n.val ∧
    (0x0000FF00#32 &&& (BitVec.ofFin (w := 8) n).signExtend 32 <<< 8).toNat = n.val * 2 ^ 8 ∧
    (0x00FF0000#32 &&& (BitVec.ofFin (w := 8) n).signExtend 32 <<< 16).toNat = n.val * 2 ^ 16 ∧
    (0xFF000000#32 &&& (BitVec.ofFin (w := 8) n).signExtend 32 <<< 24).toNat = n.val * 2 ^ 24 := by
  decide +kernel

/-- The masks remove the sign that a shifted byte brings. -/
theorem mask_char (b : UInt8) :
    (0x000000FF#32 &&& b.toBitVec.signExtend 32).toNat = b.toNat ∧
    (0x0000FF00#32 &&& b.toBitVec.signExtend 32 <<< 8).toNat = b.toNat * 2 ^ 8 ∧
    (0x00FF0000#32 &&& b.toBitVec.signExtend 32 <<< 16).toNat = b.toNat * 2 ^ 16 ∧
    (0xFF000000#32 &&& b.toBitVec.signExtend 32 <<< 24).toNat = b.toNat * 2 ^ 24 :=
  mask_fin b.toBitVec.toFin

theorem getIntFromBuffer_eq (b₀ b₁ b₂ b₃ : UInt8) :
    getIntFromBuffer [b₀, b₁, b₂, b₃] = toInt (leVal [b₀, b₁, b₂, b₃]) := by
  obtain ⟨h₀, -⟩ := mask_char b₀
  obtain ⟨-, h₁, -⟩ := mask_char b₁
  obtain ⟨-, -, h₂, -⟩ := mask_char b₂
  obtain ⟨-, -, -, h₃⟩ := mask_char b₃
  have hlt := leVal_lt [b₀, b₁, b₂, b₃]
  have hval : leVal [b₀, b₁, b₂, b₃] = b₀.toNat + b₁.toNat * 2 ^ 8 + b₂.toNat * 2 ^ 16 +
      b₃.toNat * 2 ^ 24 := by
    simp only [leVal]
    omega
  have hlen : [b₀, b₁, b₂, b₃].length = 4 := rfl
  rw [getIntFromBuffer, BitVec.toInt_eq_toNat_bmod, toInt]
  congr 2
  rw [hval, hlen] at hlt
  simp only [BitVec.toNat_add, List.getD_cons_zero, List.getD_cons_succ, h₀, h₁, h₂, h₃, hval]
  omega

theorem exists_four {bs : Bytes} (h : bs.length = 4) : ∃ b₀ b₁ b₂ b₃, bs = [b₀, b₁, b₂, b₃] := by
  match bs, h with
  | [b₀, b₁, b₂, b₃], _ => exact ⟨b₀, b₁, b₂, b₃, rfl⟩

theorem isInt_toInt (n : Int) : IsInt (toInt n) := by
  have hlow := Int.le_bmod (x := n) (m := 2 ^ 32) (by decide)
  have hhigh := Int.bmod_lt (x := n) (m := 2 ^ 32) (by decide)
  exact ⟨hlow, hhigh⟩

theorem toInt_eq {v : Int} (h : IsInt v) : toInt v = v := by
  obtain ⟨hlow, hhigh⟩ := h
  exact Int.bmod_eq_of_le hlow hhigh

@[simp] theorem length_leInt (v : Int) : (leInt v).length = 4 := leBytes_length _ _

theorem leVal_leInt (v : Int) : (leVal (leInt v) : Int) = v % 2 ^ 32 := by
  rw [leInt, leVal_leBytes]
  omega

/-- The decoder gives back the `int` of four bytes. -/
theorem getIntFromBuffer_leInt {v : Int} (h : IsInt v) : getIntFromBuffer (leInt v) = v := by
  obtain ⟨b₀, b₁, b₂, b₃, hbs⟩ := exists_four (length_leInt v)
  rw [hbs, getIntFromBuffer_eq, ← hbs, leVal_leInt]
  exact (Int.emod_bmod v (2 ^ 32)).trans (toInt_eq h)

/-- Every four bytes are an `int`. -/
theorem leInt_getIntFromBuffer {bs : Bytes} (h : bs.length = 4) :
    leInt (getIntFromBuffer bs) = bs ∧ IsInt (getIntFromBuffer bs) := by
  obtain ⟨b₀, b₁, b₂, b₃, rfl⟩ := exists_four h
  rw [getIntFromBuffer_eq]
  refine ⟨?_, isInt_toInt _⟩
  have hlt := leVal_lt [b₀, b₁, b₂, b₃]
  have hval : (toInt (leVal [b₀, b₁, b₂, b₃]) % 2 ^ 32).toNat = leVal [b₀, b₁, b₂, b₃] := by
    have hmod := Int.bmod_emod (x := (leVal [b₀, b₁, b₂, b₃] : Int)) (m := 2 ^ 32)
    rw [toInt]
    rw [h] at hlt
    omega
  rw [leInt, hval]
  exact leBytes_leVal [b₀, b₁, b₂, b₃]

/-! ## `GetBackSetInfo` -/

/-- A Java byte array. -/
structure JByteArray where
  bytes : Bytes
  length_lt : bytes.length < 2 ^ 31

/-- Whether `GetByteArrayElements` gives the elements, and which sizes `malloc`
serves. -/
structure JniCall where
  getByteArrayElements : Bool
  malloc : Nat → Bool

/-- The fields of a `REALTIME_BACKUP_DATA` that are written. -/
inductive Field
  | ulSize
  | guidSetId
  | ulFilterItemCounts
  | wszBakCacheDir
  | ulFileType (i : Nat)
  | wszFilterName (i : Nat)
  deriving DecidableEq

def Field.offset : Field → Nat
  | .ulSize => 0
  | .guidSetId => BackupData.guidSetIdOffset
  | .ulFilterItemCounts => BackupData.ulFilterItemCountsOffset
  | .wszBakCacheDir => BackupData.wszBakCacheDirOffset
  | .ulFileType i => BackupData.filterItemOffset i
  | .wszFilterName i => BackupData.wszFilterNameOffset i

/-- The bytes that may be written to a field; a string leaves room for its
terminator. -/
def Field.room : Field → Nat
  | .guidSetId => 16
  | .wszBakCacheDir | .wszFilterName _ => filereplMaxPath - 1
  | .ulSize | .ulFilterItemCounts | .ulFileType _ => 4

/-- A read of `n` bytes of the array, and a write of `n` bytes to a field of a
structure of `allocated` bytes. -/
inductive Access
  | read (iOffset : Int) (n : Nat)
  | write (field : Field) (n allocated : Nat)
  deriving DecidableEq

def Access.Inside (szData : Bytes) : Access → Prop
  | .read iOffset n => 0 ≤ iOffset ∧ iOffset + n ≤ szData.length
  | .write field n allocated => n ≤ field.room ∧ field.offset + n ≤ allocated

/-- `GetIntFromBuffer(szData + iOffset)`. -/
def readInt (szData : Bytes) (iOffset : Int) : Accessing Access Int where
  log := [.read iOffset 4]
  result :=
    if 0 ≤ iOffset ∧ iOffset + 4 ≤ szData.length then
      some (getIntFromBuffer (pread szData iOffset.toNat 4))
    else none

/-- `memcpy` of a part of the array to a field. -/
def memcpyTo (szData : Bytes) (iOffset n : Int) (data : Bytes) (field : Field) :
    Accessing Access Bytes where
  log := [.read iOffset (sizeT n), .write field (sizeT n) data.length]
  result :=
    if 0 ≤ iOffset ∧ iOffset + sizeT n ≤ szData.length then
      store data field.offset (pread szData iOffset.toNat (sizeT n))
    else none

def assign (data : Bytes) (field : Field) (v : Int) : Accessing Access Bytes where
  log := [.write field 4 data.length]
  result := store data field.offset (leInt v)

/-- The loop over the items from `i` on, of which `n` are left. -/
def readItems (szData : Bytes) : Nat → Nat → Int → Bytes → Accessing Access Bytes
  | 0, _, _, data => pure data
  | n + 1, i, iOffset, data => do
    let iItemLen ← readInt szData iOffset
    let iOffset := toInt (iOffset + 4)
    let ulFileType ← readInt szData iOffset
    let iOffset := toInt (iOffset + 4)
    let data ← assign data (.ulFileType i) ulFileType
    let nameLen := toInt (iItemLen - 4)
    let data ← memcpyTo szData iOffset nameLen data (.wszFilterName i)
    readItems szData n (i + 1) (toInt (iOffset + nameLen)) data

/-- `RT_BACKSET_LEN`. -/
def rtBacksetLen (iItemCount : Int) : Int := toInt (548 + 264 * iItemCount)

/-- `GetBackSetInfo` from the count on. `memset` through the `NULL` of a `malloc` that
fails is undefined. -/
def readBackSet (malloc : Nat → Bool) (szData : Bytes) : Accessing Access Bytes := do
  let iOffset := 4
  let iItemCount ← readInt szData iOffset
  let iOffset := iOffset + 4
  let len := rtBacksetLen iItemCount
  if ¬ malloc (sizeT len) then ⟨[], none⟩
  else do
    let data ← assign (zeros (sizeT len)) .ulSize len
    let data ← assign data .ulFilterItemCounts iItemCount
    let iGuidLen ← readInt szData iOffset
    let iOffset := iOffset + 4
    let data ← memcpyTo szData iOffset iGuidLen data .guidSetId
    let iOffset := toInt (iOffset + iGuidLen)
    let iCacheLen ← readInt szData iOffset
    let iOffset := toInt (iOffset + 4)
    let data ← memcpyTo szData iOffset iCacheLen data .wszBakCacheDir
    let iOffset := toInt (iOffset + iCacheLen)
    readItems szData iItemCount.toNat 0 iOffset data

/-- The structure, or the inner `none` for `NULL`. `GetIntFromBuffer(NULL)` is 0. -/
def getBackSetInfo (env : JniCall) (backupSet : JByteArray) : Accessing Access (Option Bytes) := do
  let szData := backupSet.bytes
  let iSize := szData.length
  if iSize ≤ 4 then pure none
  else do
    let iInfoSize ← if env.getByteArrayElements then readInt szData 0 else pure 0
    if iSize ≠ iInfoSize then pure none
    else do
      let data ← readBackSet env.malloc szData
      pure (some data)

/-! ## Arrays -/

/-- An item of the array. -/
structure RawItem where
  ulFileType : UInt32
  wszFilterName : Bytes

def RawItem.encode (item : RawItem) : Bytes :=
  leInt (item.wszFilterName.length + 4) ++ (Codec.u32.enc item.ulFileType ++ item.wszFilterName)

/-- What an array says behind its length. -/
structure BackSet where
  iItemCount : Int
  guidSetId : Bytes
  wszBakCacheDir : Bytes
  items : List RawItem

def BackSet.encode (s : BackSet) : Bytes :=
  leInt s.iItemCount ++ (leInt s.guidSetId.length ++ (s.guidSetId ++
    (leInt s.wszBakCacheDir.length ++ (s.wszBakCacheDir ++ s.items.flatMap RawItem.encode))))

/-! ## Single accesses -/

section

variable {α : Type} {szData data rest : Bytes} {iOffset : Int}

theorem readInt_of_rest {v : Int} (h : Rest szData iOffset (leInt v ++ rest)) (hv : IsInt v) :
    (readInt szData iOffset).Safe (Access.Inside szData) ∧
      (readInt szData iOffset).result = some v := by
  have hin : 0 ≤ iOffset ∧ iOffset + 4 ≤ szData.length := (h.inside_iff 4).mpr (by simp)
  have hread := h.pread_eq
  rw [length_leInt] at hread
  have hresult : (readInt szData iOffset).result = some v := by
    rw [readInt, if_pos hin, hread, getIntFromBuffer_leInt hv]
  exact ⟨⟨List.forall_mem_singleton.mpr hin, hresult ▸ Option.some_ne_none v⟩, hresult⟩

theorem result_readInt_bind {v : Int} (h : Rest szData iOffset (leInt v ++ rest)) (hv : IsInt v)
    (f : Int → Accessing Access α) : (readInt szData iOffset >>= f).result = (f v).result := by
  rw [Accessing.result_bind, (readInt_of_rest h hv).2, Option.bind_some]

/-- A word is read where there are four bytes. -/
theorem safe_readInt_bind (h : Rest szData iOffset rest) {f : Int → Accessing Access α} :
    (readInt szData iOffset >>= f).Safe (Access.Inside szData) ↔
      ∃ v rest', IsInt v ∧ rest = leInt v ++ rest' ∧ (f v).Safe (Access.Inside szData) := by
  rw [Accessing.safe_bind]
  constructor
  · rintro ⟨⟨hlog, -⟩, hf⟩
    have hin : 0 ≤ iOffset ∧ iOffset + 4 ≤ szData.length := hlog _ List.mem_cons_self
    obtain ⟨bs, rest', rfl, hbs⟩ := exists_append_of_le ((h.inside_iff 4).mp hin)
    obtain ⟨heq, hv⟩ := leInt_getIntFromBuffer hbs
    rw [← heq] at h ⊢
    exact ⟨_, rest', hv, rfl, hf _ (readInt_of_rest h hv).2⟩
  · rintro ⟨v, rest', hv, rfl, hf⟩
    obtain ⟨hsafe, hresult⟩ := readInt_of_rest h hv
    refine ⟨hsafe, fun a ha => ?_⟩
    obtain rfl := Option.some.inj (hresult.symm.trans ha)
    exact hf

theorem Field.room_lt (field : Field) : field.room < 2 ^ 31 := by
  unfold Field.room
  split <;> decide

/-- A length that is negative is huge as a `size_t`. -/
theorem sizeT_eq_iff {n : Int} (hn : IsInt n) {k : Nat} (hk : k < 2 ^ 31) :
    sizeT n = k ↔ n = k := by
  obtain ⟨hlow, hhigh⟩ := hn
  rw [sizeT]
  omega

theorem memcpyTo_of_rest {n : Int} {bs : Bytes} (h : Rest szData iOffset (bs ++ rest))
    (hn : sizeT n = bs.length) (field : Field) :
    (memcpyTo szData iOffset n data field).result = store data field.offset bs := by
  have hin : 0 ≤ iOffset ∧ iOffset + bs.length ≤ szData.length :=
    (h.inside_iff _).mpr (by rw [List.length_append]; exact Nat.le_add_right _ _)
  rw [memcpyTo, hn, if_pos hin, h.pread_eq]

/-- A part is copied if the array has it, its field has room for it, and the block has
the field. -/
theorem safe_memcpyTo_bind (h : Rest szData iOffset rest) {n : Int} (hn : IsInt n) {field : Field}
    {f : Bytes → Accessing Access α} :
    (memcpyTo szData iOffset n data field >>= f).Safe (Access.Inside szData) ↔
      ∃ bs rest' data', rest = bs ++ rest' ∧ n = bs.length ∧ bs.length ≤ field.room ∧
        store data field.offset bs = some data' ∧ (f data').Safe (Access.Inside szData) := by
  rw [Accessing.safe_bind]
  constructor
  · rintro ⟨⟨hlog, hdef⟩, hf⟩
    have hin : 0 ≤ iOffset ∧ iOffset + sizeT n ≤ szData.length := hlog _ List.mem_cons_self
    have hout : sizeT n ≤ field.room ∧ field.offset + sizeT n ≤ data.length :=
      hlog _ (List.mem_cons_of_mem _ List.mem_cons_self)
    obtain ⟨bs, rest', rfl, hbs⟩ := exists_append_of_le ((h.inside_iff _).mp hin)
    have hresult : (memcpyTo szData iOffset n data field).result = store data field.offset bs :=
      memcpyTo_of_rest h hbs.symm field
    rw [← hbs] at hout
    obtain ⟨data', hstore⟩ := Option.isSome_iff_exists.mp (store_isSome_iff.mpr hout.2)
    have hlt := Nat.lt_of_le_of_lt hout.1 field.room_lt
    exact ⟨bs, rest', data', rfl, (sizeT_eq_iff hn hlt).mp hbs.symm, hout.1, hstore,
      hf data' (hresult.trans hstore)⟩
  · rintro ⟨bs, rest', data', rfl, hbs, hroom, hstore, hf⟩
    have hn' : sizeT n = bs.length :=
      (sizeT_eq_iff hn (Nat.lt_of_le_of_lt hroom field.room_lt)).mpr hbs
    have hresult := (memcpyTo_of_rest h hn' field).trans hstore
    have hin : Access.Inside szData (.read iOffset (sizeT n)) := by
      rw [hn']
      exact (h.inside_iff _).mpr (by rw [List.length_append]; exact Nat.le_add_right _ _)
    have hout : Access.Inside szData (.write field (sizeT n) data.length) := by
      rw [hn']
      exact ⟨hroom, (store_eq_some hstore).1⟩
    refine ⟨⟨?_, hresult ▸ Option.some_ne_none data'⟩, fun a ha => ?_⟩
    · exact List.forall_mem_cons.mpr ⟨hin, List.forall_mem_singleton.mpr hout⟩
    · obtain rfl := Option.some.inj (hresult.symm.trans ha)
      exact hf

theorem safe_assign_bind {field : Field} (hroom : field.room = 4) {v : Int}
    {f : Bytes → Accessing Access α} :
    (assign data field v >>= f).Safe (Access.Inside szData) ↔
      ∃ data', store data field.offset (leInt v) = some data' ∧
        (f data').Safe (Access.Inside szData) := by
  rw [Accessing.safe_bind]
  constructor
  · rintro ⟨⟨-, hdef⟩, hf⟩
    obtain ⟨data', hstore⟩ := Option.ne_none_iff_exists'.mp hdef
    exact ⟨data', hstore, hf data' hstore⟩
  · rintro ⟨data', hstore, hf⟩
    have hresult : (assign data field v).result = some data' := hstore
    have hle := (store_eq_some hstore).1
    rw [length_leInt] at hle
    refine ⟨⟨List.forall_mem_singleton.mpr ⟨hroom.ge, hle⟩,
      hresult ▸ Option.some_ne_none data'⟩, fun a ha => ?_⟩
    obtain rfl := Option.some.inj (hresult.symm.trans ha)
    exact hf

/-- The running offset is an `int`, and does not wrap inside the array. -/
theorem rest_advance {bs : Bytes} (h : Rest szData iOffset (bs ++ rest))
    (hlen : szData.length < 2 ^ 31) : Rest szData (toInt (iOffset + bs.length)) rest := by
  have hnext := h.advance
  obtain ⟨hlow, hhigh⟩ := hnext.offset_le
  rwa [toInt_eq ⟨by omega, by omega⟩]

theorem rest_advance_int {v : Int} (h : Rest szData iOffset (leInt v ++ rest))
    (hlen : szData.length < 2 ^ 31) : Rest szData (toInt (iOffset + 4)) rest := by
  have hnext := rest_advance h hlen
  rwa [length_leInt] at hnext

end

/-! ## The items -/

/-- The items from `i` on have names for their fields, in a structure of `allocated`
bytes. -/
def RoomFor (allocated : Nat) : Nat → List RawItem → Prop
  | _, [] => True
  | i, item :: items =>
    (item.wszFilterName.length < filereplMaxPath ∧
      BackupData.wszFilterNameOffset i + item.wszFilterName.length ≤ allocated) ∧
    RoomFor allocated (i + 1) items

section

variable {szData data rest : Bytes} {iOffset : Int}

/-- A length of four more than the name, without a wrap. -/
theorem toInt_sub_four {v : Int} (hv : IsInt v) {k : Nat} (hk : k < 2 ^ 30) :
    toInt (v - 4) = k ↔ v = k + 4 := by
  obtain ⟨hlow, hhigh⟩ := hv
  constructor
  · intro h
    have hmod := Int.bmod_emod (x := v - 4) (m := 2 ^ 32)
    rw [toInt] at h
    rw [h] at hmod
    omega
  · rintro rfl
    rw [add_sub_cancel_right]
    exact toInt_eq ⟨by omega, by omega⟩

theorem u32_enc_dec {bs : Bytes} (h : bs.length = 4) : Codec.u32.enc (Codec.u32.dec bs) = bs := by
  have hlt := leVal_lt bs
  have hval : (UInt32.ofNat (leVal bs)).toNat = leVal bs := by
    rw [UInt32.toNat_ofNat', Nat.mod_eq_of_lt (by rwa [h] at hlt)]
  show leBytes 4 (UInt32.ofNat (leVal bs)).toNat = bs
  rw [hval, ← h, leBytes_leVal]

theorem exists_leInt_eq_enc (ulFileType : UInt32) :
    ∃ v, IsInt v ∧ leInt v = Codec.u32.enc ulFileType := by
  obtain ⟨heq, hv⟩ := leInt_getIntFromBuffer (Codec.u32.enc_length ulFileType)
  exact ⟨_, hv, heq⟩

theorem readItems_succ (n i : Nat) :
    readItems szData (n + 1) i iOffset data = (do
      let iItemLen ← readInt szData iOffset
      let ulFileType ← readInt szData (toInt (iOffset + 4))
      let data ← assign data (.ulFileType i) ulFileType
      let data ← memcpyTo szData (toInt (toInt (iOffset + 4) + 4)) (toInt (iItemLen - 4)) data
        (.wszFilterName i)
      readItems szData n (i + 1)
        (toInt (toInt (toInt (iOffset + 4) + 4) + toInt (iItemLen - 4))) data) := by
  exact rfl

/-- One iteration of the loop: the array has the item, the structure has room for it,
and `P` holds of what is left if the other iterations stay inside from there. -/
theorem safe_readItems_succ (hlen : szData.length < 2 ^ 31) (h : Rest szData iOffset rest)
    (n i : Nat) {P : Bytes → Prop} (hP : ∀ {next : Int} {rest' data' : Bytes},
      Rest szData next rest' → data'.length = data.length →
      ((readItems szData n (i + 1) next data').Safe (Access.Inside szData) ↔ P rest')) :
    (readItems szData (n + 1) i iOffset data).Safe (Access.Inside szData) ↔
      ∃ (item : RawItem) (rest' : Bytes), rest = item.encode ++ rest' ∧
        (item.wszFilterName.length < filereplMaxPath ∧
          BackupData.wszFilterNameOffset i + item.wszFilterName.length ≤ data.length) ∧
        P rest' := by
  have hmax : filereplMaxPath = 260 := rfl
  rw [readItems_succ]
  constructor
  · intro hsafe
    obtain ⟨v, r₁, hv, rfl, h₁⟩ := (safe_readInt_bind h).mp hsafe
    have hr₁ := rest_advance_int h hlen
    obtain ⟨t, r₂, ht, rfl, h₂⟩ := (safe_readInt_bind hr₁).mp h₁
    have hr₂ := rest_advance_int hr₁ hlen
    obtain ⟨data₁, hstore₁, h₃⟩ := (safe_assign_bind rfl).mp h₂
    obtain ⟨bs, r₃, data₂, rfl, hbs, hroom, hstore₂, h₄⟩ :=
      (safe_memcpyTo_bind hr₂ (isInt_toInt _)).mp h₃
    have hr₃ := rest_advance hr₂ hlen
    rw [← hbs] at hr₃
    have hlt : bs.length < filereplMaxPath := Nat.lt_of_le_sub_one (by decide) hroom
    obtain rfl := (toInt_sub_four hv (by omega)).mp hbs
    have hlen₁ := length_store hstore₁
    have hend := (store_eq_some hstore₂).1
    rw [hlen₁] at hend
    refine ⟨⟨Codec.u32.dec (leInt t), bs⟩, r₃, ?_, ⟨hlt, hend⟩,
      (hP hr₃ ((length_store hstore₂).trans hlen₁)).mp h₄⟩
    rw [RawItem.encode, u32_enc_dec (length_leInt t)]
    simp only [List.append_assoc]
  · rintro ⟨⟨ulFileType, bs⟩, rest', rfl, ⟨hlt, hend⟩, hrest⟩
    simp only at hlt hend
    obtain ⟨t, ht, henc⟩ := exists_leInt_eq_enc ulFileType
    rw [RawItem.encode, ← henc] at h
    simp only [List.append_assoc] at h
    have hv : IsInt (bs.length + 4) := ⟨by omega, by omega⟩
    have hr₁ := rest_advance_int h hlen
    have hr₂ := rest_advance_int hr₁ hlen
    have hr₃ := rest_advance hr₂ hlen
    have hbs : toInt ((bs.length + 4 : Int) - 4) = bs.length :=
      (toInt_sub_four hv (by omega)).mpr rfl
    have hsub : BackupData.wszFilterNameOffset i = BackupData.filterItemOffset i + 4 := rfl
    have htype : (Field.ulFileType i).offset + (leInt t).length ≤ data.length := by
      rw [length_leInt, Field.offset]
      omega
    obtain ⟨data₁, hstore₁, hlen₁⟩ := exists_store htype
    have hname : (Field.wszFilterName i).offset + bs.length ≤ data₁.length := hlen₁ ▸ hend
    obtain ⟨data₂, hstore₂, hlen₂⟩ := exists_store hname
    refine (safe_readInt_bind h).mpr ⟨_, _, hv, rfl, ?_⟩
    refine (safe_readInt_bind hr₁).mpr ⟨_, _, ht, rfl, ?_⟩
    refine (safe_assign_bind rfl).mpr ⟨data₁, hstore₁, ?_⟩
    refine (safe_memcpyTo_bind hr₂ (isInt_toInt _)).mpr ⟨bs, _, data₂, rfl, hbs,
      Nat.le_sub_one_of_lt hlt, hstore₂, ?_⟩
    rw [hbs]
    exact (hP hr₃ (hlen₂.trans hlen₁)).mpr hrest

/-- The items are read and stored inside if and only if the array has them, and the
structure has room for them. -/
theorem readItems_safe_iff (hlen : szData.length < 2 ^ 31) (h : Rest szData iOffset rest)
    (n i : Nat) :
    (readItems szData n i iOffset data).Safe (Access.Inside szData) ↔
      ∃ (items : List RawItem) (rest' : Bytes), rest = items.flatMap RawItem.encode ++ rest' ∧
        items.length = n ∧ RoomFor data.length i items := by
  induction n generalizing i iOffset data rest with
  | zero => exact iff_of_true (Accessing.safe_pure _) ⟨[], rest, rfl, rfl, trivial⟩
  | succ n ih =>
    rw [safe_readItems_succ hlen h n i fun hnext hdata => hdata ▸ ih hnext (i + 1)]
    constructor
    · rintro ⟨item, _, rfl, hitem, items, rest', rfl, hitems, hroom⟩
      refine ⟨item :: items, rest', ?_, congrArg Nat.succ hitems, hitem, hroom⟩
      rw [List.flatMap_cons, List.append_assoc]
    · rintro ⟨items, rest', rfl, hitems, hroom⟩
      obtain ⟨item, items, rfl⟩ := List.exists_cons_of_length_eq_add_one hitems
      refine ⟨item, _, ?_, hroom.1, items, rest', rfl, Nat.succ.inj hitems, hroom.2⟩
      rw [List.flatMap_cons, List.append_assoc]

end

/-! ## Room for the items -/

/-- The parts have lengths and a count for which every access is inside. -/
structure BackSet.Fits (malloc : Nat → Bool) (s : BackSet) : Prop where
  isInt : IsInt s.iItemCount
  count : s.items.length = s.iItemCount.toNat
  allocated : malloc (sizeT (rtBacksetLen s.iItemCount)) = true
  guidSetId : s.guidSetId.length ≤ 16
  wszBakCacheDir : s.wszBakCacheDir.length < filereplMaxPath
  items : ∀ item ∈ s.items, item.wszFilterName.length < filereplMaxPath
  dirInside : BackupData.wszBakCacheDirOffset + s.wszBakCacheDir.length ≤
    rtBacksetLen s.iItemCount
  noWrap : 0 < s.iItemCount → 548 + 264 * s.iItemCount < 2 ^ 31

theorem RoomFor.names {L i : Nat} {items : List RawItem} (h : RoomFor L i items) :
    ∀ item ∈ items, item.wszFilterName.length < filereplMaxPath := by
  induction items generalizing i with
  | nil => exact nofun
  | cons item items ih => exact List.forall_mem_cons.mpr ⟨h.1.1, ih h.2⟩

/-- The last item starts inside. -/
theorem RoomFor.last {L i : Nat} {items : List RawItem} (h : RoomFor L i items)
    (hne : items ≠ []) : BackupData.filterItemOffset (i + items.length) ≤ L + 260 := by
  induction items generalizing i with
  | nil => exact absurd rfl hne
  | cons item items ih =>
    cases items with
    | nil =>
      have hle := h.1.2
      rw [BackupData.wszFilterNameOffset, BackupData.filterItemOffset] at hle
      rw [List.length_singleton, BackupData.filterItemOffset]
      omega
    | cons next items =>
      have hlast := ih h.2 (List.cons_ne_nil _ _)
      rwa [List.length_cons, Nat.add_comm (List.length _), ← Nat.add_assoc]

theorem roomFor_of_le {L i : Nat} {items : List RawItem}
    (hnames : ∀ item ∈ items, item.wszFilterName.length < filereplMaxPath)
    (h : BackupData.filterItemOffset (i + items.length) ≤ L) : RoomFor L i items := by
  induction items generalizing i with
  | nil => trivial
  | cons item items ih =>
    obtain ⟨hitem, hrest⟩ := List.forall_mem_cons.mp hnames
    rw [List.length_cons, Nat.add_comm items.length, ← Nat.add_assoc] at h
    refine ⟨⟨hitem, ?_⟩, ih hrest h⟩
    have hmax : filereplMaxPath = 260 := rfl
    rw [BackupData.filterItemOffset] at h
    rw [BackupData.wszFilterNameOffset, BackupData.filterItemOffset]
    omega

/-- The size that the count gives, when `malloc` serves it, has room for the items if
and only if it did not wrap. -/
theorem roomFor_iff {s : BackSet} (hcount : s.items.length = s.iItemCount.toNat)
    (hserved : sizeT (rtBacksetLen s.iItemCount) < 2 ^ 63) :
    RoomFor (sizeT (rtBacksetLen s.iItemCount)) 0 s.items ↔
      (∀ item ∈ s.items, item.wszFilterName.length < filereplMaxPath) ∧
        (0 < s.iItemCount → 548 + 264 * s.iItemCount < 2 ^ 31) := by
  obtain ⟨hlow, hhigh⟩ := isInt_toInt (548 + 264 * s.iItemCount)
  have hmod := Int.bmod_emod (x := 548 + 264 * s.iItemCount) (m := 2 ^ 32)
  have hnn : 0 ≤ rtBacksetLen s.iItemCount := by
    rw [rtBacksetLen, sizeT] at hserved
    rw [rtBacksetLen]
    omega
  have hsize : (sizeT (rtBacksetLen s.iItemCount) : Int) = rtBacksetLen s.iItemCount := by
    rw [rtBacksetLen] at hnn ⊢
    rw [sizeT]
    omega
  constructor
  · intro h
    refine ⟨h.names, fun hpos => ?_⟩
    have hne : s.items ≠ [] := by
      intro hnil
      rw [hnil, List.length_nil] at hcount
      omega
    have hlast := h.last hne
    rw [Nat.zero_add, hcount, BackupData.filterItemOffset] at hlast
    rw [rtBacksetLen] at hsize hnn hlast
    rw [toInt] at hsize hnn hlow hhigh hlast
    omega
  · rintro ⟨hnames, hwrap⟩
    rcases Int.lt_or_le 0 s.iItemCount with hpos | hneg
    · have hsum : rtBacksetLen s.iItemCount = 548 + 264 * s.iItemCount :=
        toInt_eq ⟨by omega, hwrap hpos⟩
      refine roomFor_of_le hnames ?_
      rw [Nat.zero_add, hcount, BackupData.filterItemOffset]
      omega
    · have hnil : s.items = [] := List.eq_nil_of_length_eq_zero (by omega)
      rw [hnil]
      trivial

/-! ## The parser -/

section

variable {malloc : Nat → Bool} {szData rest : Bytes}

theorem safe_malloc {α : Type} {n : Nat} {x : Accessing Access α} :
    (if ¬ malloc n then ⟨[], none⟩ else x).Safe (Access.Inside szData) ↔
      malloc n = true ∧ x.Safe (Access.Inside szData) := by
  split
  · next h => exact iff_of_false (Accessing.not_safe_of_none rfl) fun hx => h hx.1
  · next h => exact (and_iff_right (not_not.mp h)).symm

/-- A structure of a size that `malloc` serves has a size that is not negative. -/
theorem sizeT_rtBacksetLen (hmalloc : ∀ n, malloc n = true → n < 2 ^ 63) {c : Int}
    (h : malloc (sizeT (rtBacksetLen c)) = true) :
    (sizeT (rtBacksetLen c) : Int) = rtBacksetLen c := by
  have hserved := hmalloc _ h
  obtain ⟨hlow, hhigh⟩ := isInt_toInt (548 + 264 * c)
  rw [sizeT, rtBacksetLen] at hserved
  rw [sizeT, rtBacksetLen]
  omega

theorem readBackSet_eq (malloc : Nat → Bool) (szData : Bytes) :
    readBackSet malloc szData = (do
      let iItemCount ← readInt szData 4
      if ¬ malloc (sizeT (rtBacksetLen iItemCount)) then ⟨[], none⟩
      else do
        let data ← assign (zeros (sizeT (rtBacksetLen iItemCount))) .ulSize
          (rtBacksetLen iItemCount)
        let data ← assign data .ulFilterItemCounts iItemCount
        let iGuidLen ← readInt szData (4 + 4)
        let data ← memcpyTo szData (4 + 4 + 4) iGuidLen data .guidSetId
        let iCacheLen ← readInt szData (toInt (4 + 4 + 4 + iGuidLen))
        let data ← memcpyTo szData (toInt (toInt (4 + 4 + 4 + iGuidLen) + 4)) iCacheLen data
          .wszBakCacheDir
        readItems szData iItemCount.toNat 0
          (toInt (toInt (toInt (4 + 4 + 4 + iGuidLen) + 4) + iCacheLen)) data) := by
  unfold readBackSet
  rfl

/-- An array that is read and stored inside has its parts, and they fit. -/
theorem exists_fits_of_readBackSet_safe (hmalloc : ∀ n, malloc n = true → n < 2 ^ 63)
    (hlen : szData.length < 2 ^ 31) (h : Rest szData 4 rest)
    (hsafe : (readBackSet malloc szData).Safe (Access.Inside szData)) :
    ∃ (s : BackSet) (rest' : Bytes), rest = s.encode ++ rest' ∧ s.Fits malloc := by
  rw [readBackSet_eq] at hsafe
  obtain ⟨c, r₁, hc, rfl, hsafe⟩ := (safe_readInt_bind h).mp hsafe
  have hr₁ : Rest szData (4 + 4) r₁ := rest_advance_int h hlen
  obtain ⟨halloc, hsafe⟩ := safe_malloc.mp hsafe
  obtain ⟨data₁, hstore₁, hsafe⟩ := (safe_assign_bind rfl).mp hsafe
  obtain ⟨data₂, hstore₂, hsafe⟩ := (safe_assign_bind rfl).mp hsafe
  obtain ⟨g, r₂, hg, rfl, hsafe⟩ := (safe_readInt_bind hr₁).mp hsafe
  have hr₂ : Rest szData (4 + 4 + 4) r₂ := rest_advance_int hr₁ hlen
  obtain ⟨guid, r₃, data₃, rfl, rfl, hguid, hstore₃, hsafe⟩ :=
    (safe_memcpyTo_bind hr₂ hg).mp hsafe
  have hr₃ := rest_advance hr₂ hlen
  obtain ⟨k, r₄, hk, rfl, hsafe⟩ := (safe_readInt_bind hr₃).mp hsafe
  have hr₄ := rest_advance_int hr₃ hlen
  obtain ⟨dir, r₅, data₄, rfl, rfl, hdir, hstore₄, hsafe⟩ :=
    (safe_memcpyTo_bind hr₄ hk).mp hsafe
  have hr₅ := rest_advance hr₄ hlen
  obtain ⟨items, rest', rfl, hitems, hroom⟩ := (readItems_safe_iff hlen hr₅ _ _).mp hsafe
  have hlen₃ : data₃.length = sizeT (rtBacksetLen c) := by
    rw [length_store hstore₃, length_store hstore₂, length_store hstore₁, length_zeros]
  have hend := (store_eq_some hstore₄).1
  rw [length_store hstore₄, hlen₃] at hroom
  rw [hlen₃] at hend
  let s : BackSet := ⟨c, guid, dir, items⟩
  obtain ⟨hnames, hwrap⟩ := (@roomFor_iff s hitems (hmalloc _ halloc)).mp hroom
  refine ⟨s, rest', ?_, ⟨hc, hitems, halloc, hguid, Nat.lt_of_le_sub_one (by decide) hdir, hnames,
    ?_, hwrap⟩⟩
  · simp only [s, BackSet.encode, List.append_assoc]
  · rw [← sizeT_rtBacksetLen hmalloc halloc]
    exact Int.ofNat_le.mpr hend

/-- The fields in front of the items are stored into a block that has the last one. -/
theorem exists_front_stores {L : Nat} (len c : Int) {guid dir : Bytes} (hguid : guid.length ≤ 16)
    (hdir : Field.wszBakCacheDir.offset + dir.length ≤ L) :
    ∃ data₁ data₂ data₃ data₄, store (zeros L) Field.ulSize.offset (leInt len) = some data₁ ∧
      store data₁ Field.ulFilterItemCounts.offset (leInt c) = some data₂ ∧
      store data₂ Field.guidSetId.offset guid = some data₃ ∧
      store data₃ Field.wszBakCacheDir.offset dir = some data₄ ∧ data₄.length = L := by
  have hle : Field.wszBakCacheDir.offset ≤ L := Nat.le_of_add_right_le hdir
  have hsizeRoom : Field.ulSize.offset + (leInt len).length ≤ (zeros L).length := by
    rw [length_zeros, length_leInt]
    exact Nat.le_trans (by decide) hle
  obtain ⟨data₁, hstore₁, hlen₁⟩ := exists_store hsizeRoom
  rw [length_zeros] at hlen₁
  have hcountRoom : Field.ulFilterItemCounts.offset + (leInt c).length ≤ data₁.length := by
    rw [hlen₁, length_leInt]
    exact hle
  obtain ⟨data₂, hstore₂, hlen₂⟩ := exists_store hcountRoom
  have hguidRoom : Field.guidSetId.offset + guid.length ≤ data₂.length := by
    rw [hlen₂, hlen₁]
    exact Nat.le_trans (Nat.add_le_add_left hguid 4) (Nat.le_trans (by decide) hle)
  obtain ⟨data₃, hstore₃, hlen₃⟩ := exists_store hguidRoom
  have hlenL : data₃.length = L := by rw [hlen₃, hlen₂, hlen₁]
  obtain ⟨data₄, hstore₄, hlen₄⟩ := exists_store (hlenL.symm ▸ hdir)
  exact ⟨data₁, data₂, data₃, data₄, hstore₁, hstore₂, hstore₃, hstore₄, hlen₄.trans hlenL⟩

/-- Parts that fit are read and stored inside. -/
theorem BackSet.Fits.readBackSet_safe {s : BackSet} (hfits : s.Fits malloc)
    (hmalloc : ∀ n, malloc n = true → n < 2 ^ 63) (hlen : szData.length < 2 ^ 31)
    (h : Rest szData 4 (s.encode ++ rest)) :
    (readBackSet malloc szData).Safe (Access.Inside szData) := by
  obtain ⟨c, guid, dir, items⟩ := s
  obtain ⟨hc, hitems, halloc, hguid, hdir, hnames, hend, hwrap⟩ := hfits
  simp only at hc hitems halloc hguid hdir hnames hend hwrap
  simp only [BackSet.encode, List.append_assoc] at h
  have hr₁ : Rest szData (4 + 4) _ := rest_advance_int h hlen
  have hr₂ : Rest szData (4 + 4 + 4) _ := rest_advance_int hr₁ hlen
  have hr₃ := rest_advance hr₂ hlen
  have hr₄ := rest_advance_int hr₃ hlen
  have hr₅ := rest_advance hr₄ hlen
  have hroom : RoomFor (sizeT (rtBacksetLen c)) 0 items :=
    (@roomFor_iff ⟨c, guid, dir, items⟩ hitems (hmalloc _ halloc)).mpr ⟨hnames, hwrap⟩
  have hfixed : Field.wszBakCacheDir.offset + dir.length ≤ sizeT (rtBacksetLen c) := by
    rw [← sizeT_rtBacksetLen hmalloc halloc] at hend
    exact Int.ofNat_le.mp hend
  obtain ⟨data₁, data₂, data₃, data₄, hstore₁, hstore₂, hstore₃, hstore₄, hlen₄⟩ :=
    exists_front_stores (rtBacksetLen c) c hguid hfixed
  have hmax : filereplMaxPath = 260 := rfl
  have hg : IsInt guid.length := ⟨by omega, by omega⟩
  have hk : IsInt dir.length := ⟨by omega, by omega⟩
  rw [readBackSet_eq]
  refine (safe_readInt_bind h).mpr ⟨c, _, hc, rfl, safe_malloc.mpr ⟨halloc, ?_⟩⟩
  refine (safe_assign_bind rfl).mpr ⟨data₁, hstore₁, ?_⟩
  refine (safe_assign_bind rfl).mpr ⟨data₂, hstore₂, ?_⟩
  refine (safe_readInt_bind hr₁).mpr ⟨_, _, hg, rfl, ?_⟩
  refine (safe_memcpyTo_bind hr₂ hg).mpr ⟨guid, _, data₃, rfl, rfl, hguid, hstore₃, ?_⟩
  refine (safe_readInt_bind hr₃).mpr ⟨_, _, hk, rfl, ?_⟩
  refine (safe_memcpyTo_bind hr₄ hk).mpr ⟨dir, _, data₄, rfl, rfl,
    Nat.le_sub_one_of_lt hdir, hstore₄, ?_⟩
  exact (readItems_safe_iff hlen hr₅ _ _).mpr ⟨items, rest, rfl, hitems, hlen₄ ▸ hroom⟩

/-- The array is read and stored inside if and only if it has its parts, and they
fit. -/
theorem readBackSet_safe_iff (hmalloc : ∀ n, malloc n = true → n < 2 ^ 63)
    (hlen : szData.length < 2 ^ 31) (h : Rest szData 4 rest) :
    (readBackSet malloc szData).Safe (Access.Inside szData) ↔
      ∃ (s : BackSet) (rest' : Bytes), rest = s.encode ++ rest' ∧ s.Fits malloc := by
  constructor
  · exact exists_fits_of_readBackSet_safe hmalloc hlen h
  · rintro ⟨s, rest', rfl, hfits⟩
    exact hfits.readBackSet_safe hmalloc hlen h

end

/-! ## Arrays from Java -/

/-- The array is too short, cannot be read, or does not start with its length. -/
def Rejected (env : JniCall) (backupSet : JByteArray) : Prop :=
  backupSet.bytes.length ≤ 4 ∨ env.getByteArrayElements = false ∨
    backupSet.bytes.take 4 ≠ leInt backupSet.bytes.length

/-- `NULL` is returned, or every access is inside. -/
def NullOrInside (env : JniCall) (backupSet : JByteArray) : Prop :=
  (getBackSetInfo env backupSet).result = some none ∨
    (getBackSetInfo env backupSet).Safe (Access.Inside backupSet.bytes)

theorem length_isInt (backupSet : JByteArray) : IsInt backupSet.bytes.length := by
  have hlt := backupSet.length_lt
  exact ⟨by omega, by omega⟩

theorem getBackSetInfo_of_rejected {env : JniCall} {backupSet : JByteArray}
    (h : Rejected env backupSet) : (getBackSetInfo env backupSet).result = some none := by
  unfold getBackSetInfo
  simp only
  split
  · rfl
  · next hlen =>
    cases helems : env.getByteArrayElements with
    | false =>
      have hpos : (backupSet.bytes.length : Int) ≠ 0 := by omega
      rw [if_neg Bool.false_ne_true, Accessing.result_bind]
      show (if (backupSet.bytes.length : Int) ≠ 0 then _ else _ : Accessing Access _).result = _
      rw [if_pos hpos]
      rfl
    | true =>
      have hfirst : backupSet.bytes.take 4 ≠ leInt backupSet.bytes.length :=
        (h.resolve_left hlen).resolve_left (by simp [helems])
      obtain ⟨bs, rest, hbytes, hbs⟩ := exists_append_of_le (Nat.le_of_not_le hlen)
      obtain ⟨heq, hv⟩ := leInt_getIntFromBuffer hbs
      have hstart : Rest backupSet.bytes 0 (leInt (getIntFromBuffer bs) ++ rest) := by
        rw [heq, ← hbytes]
        exact Rest.start _
      have hne : (backupSet.bytes.length : Int) ≠ getIntFromBuffer bs := by
        intro hsame
        rw [hsame, heq, hbytes, List.take_left' hbs] at hfirst
        exact hfirst rfl
      rw [if_pos rfl, result_readInt_bind hstart hv, if_pos hne]
      rfl

/-- An array that starts with its length is read from the count on. -/
theorem getBackSetInfo_of_accepted {env : JniCall} {backupSet : JByteArray}
    (h : ¬ Rejected env backupSet) :
    ∃ rest, backupSet.bytes = leInt backupSet.bytes.length ++ rest ∧
      Rest backupSet.bytes 4 rest ∧
      (getBackSetInfo env backupSet).result =
        (readBackSet env.malloc backupSet.bytes).result.map some ∧
      ((getBackSetInfo env backupSet).Safe (Access.Inside backupSet.bytes) ↔
        (readBackSet env.malloc backupSet.bytes).Safe (Access.Inside backupSet.bytes)) := by
  obtain ⟨hlen, helems, hfirst⟩ : ¬ backupSet.bytes.length ≤ 4 ∧
      env.getByteArrayElements = true ∧
      backupSet.bytes.take 4 = leInt backupSet.bytes.length := by
    simpa [Rejected] using h
  have hbytes : backupSet.bytes = leInt backupSet.bytes.length ++ backupSet.bytes.drop 4 := by
    rw [← hfirst, List.take_append_drop]
  have hv := length_isInt backupSet
  have hstart : Rest backupSet.bytes 0
      (leInt backupSet.bytes.length ++ backupSet.bytes.drop 4) := by
    rw [← hbytes]
    exact Rest.start _
  have heq : getBackSetInfo env backupSet = (do
      let iInfoSize ← readInt backupSet.bytes 0
      if (backupSet.bytes.length : Int) ≠ iInfoSize then pure none
      else do
        let data ← readBackSet env.malloc backupSet.bytes
        pure (some data)) := by
    unfold getBackSetInfo
    simp only [if_neg hlen, helems, if_true]
  refine ⟨_, hbytes, rest_advance_int hstart backupSet.length_lt, ?_, ?_⟩
  · rw [heq, result_readInt_bind hstart hv, if_neg (not_not.mpr rfl), Accessing.result_bind]
    cases (readBackSet env.malloc backupSet.bytes).result <;> rfl
  · obtain ⟨hsafe, hresult⟩ := readInt_of_rest hstart hv
    rw [heq, Accessing.safe_bind, and_iff_right hsafe, hresult]
    constructor
    · intro hnext
      have hread := hnext _ rfl
      rw [if_neg (not_not.mpr rfl)] at hread
      exact Accessing.safe_bind_pure.mp hread
    · intro hread a ha
      obtain rfl := Option.some.inj ha
      rw [if_neg (not_not.mpr rfl)]
      exact Accessing.safe_bind_pure.mpr hread

/-- `NULL` is returned, or every access is inside, if and only if the array is
rejected, or has its parts behind its length, and they fit. -/
theorem parser_safe_iff (env : JniCall) (hmalloc : ∀ n, env.malloc n = true → n < 2 ^ 63)
    (backupSet : JByteArray) :
    NullOrInside env backupSet ↔
      Rejected env backupSet ∨ ∃ (s : BackSet) (rest : Bytes), s.Fits env.malloc ∧
        backupSet.bytes = leInt backupSet.bytes.length ++ (s.encode ++ rest) := by
  by_cases hrej : Rejected env backupSet
  · exact iff_of_true (.inl (getBackSetInfo_of_rejected hrej)) (.inl hrej)
  · obtain ⟨rest, hbytes, hrest, hresult, hsafe⟩ := getBackSetInfo_of_accepted hrej
    have hnull : (getBackSetInfo env backupSet).result ≠ some none := by
      rw [hresult]
      cases (readBackSet env.malloc backupSet.bytes).result <;> exact nofun
    rw [NullOrInside, or_iff_right hnull, or_iff_right hrej, hsafe,
      readBackSet_safe_iff hmalloc backupSet.length_lt hrest]
    constructor
    · rintro ⟨s, rest', rfl, hfits⟩
      exact ⟨s, rest', hfits, hbytes⟩
    · rintro ⟨s, rest', hfits, hparts⟩
      exact ⟨s, rest', List.append_cancel_left (hbytes.symm.trans hparts), hfits⟩

/-! ## Concrete arrays -/

/-- A process with some memory. -/
def smallHeap : JniCall where
  getByteArrayElements := true
  malloc n := decide (n < 65536)

/-- A set with the directory `/c` and the file `/a`. -/
def oneFileSet : BackSet where
  iItemCount := 1
  guidSetId := List.replicate 16 1
  wszBakCacheDir := [47, 99]
  items := [⟨0, [47, 97]⟩]

def oneFileArray : JByteArray where
  bytes := leInt 44 ++ oneFileSet.encode
  length_lt := by decide

theorem parser_safe_iff_one_file : NullOrInside smallHeap oneFileArray :=
  (parser_safe_iff smallHeap
    (fun _ h => Nat.lt_trans (of_decide_eq_true h) (by decide)) oneFileArray).mpr
    (.inr ⟨oneFileSet, [], ⟨by decide, rfl, by decide, by decide, by decide, by decide, by decide,
      by decide⟩, by decide⟩)

/-- A set without items whose directory has the length -1. -/
def negativeLength : JByteArray where
  bytes := leInt 32 ++ (leInt 0 ++ (leInt 16 ++ (List.replicate 16 1 ++ leInt (-1))))
  length_lt := by decide

/-- The length is not checked: the copy is of `2 ^ 64 - 1` bytes. -/
theorem negative_length_copied :
    ¬ NullOrInside smallHeap negativeLength ∧
      Access.write .wszBakCacheDir (2 ^ 64 - 1) 548 ∈
        (getBackSetInfo smallHeap negativeLength).log := by
  have hnone : (getBackSetInfo smallHeap negativeLength).result = none := by decide +kernel
  refine ⟨?_, by decide +kernel⟩
  rintro (hnull | hsafe)
  · exact absurd (hnone.symm.trans hnull) nofun
  · exact hsafe.2 hnone

end RtBackup
