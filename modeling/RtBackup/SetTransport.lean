import RtBackup.BackSetInfo

/-!
# A backup set from Java to the driver

The array that Java gives is parsed into a structure (`BackSetInfo`), the structure
is sent (`Communicate`), and the driver reads the message (`Netlink`). The sizes are
computed three times: the parser allocates by the count of the items, the sender
corrects `ulSize` by two structure sizes, and the driver steps by the size of an
item.

Results:
1. `readBackSet_returns`: the structure that the parser builds is the set with zeros
   behind its strings.
2. `Carries.sees`: the driver sees in a message the set whose structure it carries.
3. `set_reaches_driver`: a well-formed array reaches the driver.
-/

namespace RtBackup

open ByteFile BoundedReads Blocks Runs

/-! ## The structure of a set -/

def RawItem.image (item : RawItem) : Bytes :=
  Codec.u32.enc item.ulFileType ++
    (item.wszFilterName ++ zeros (filereplMaxPath - item.wszFilterName.length))

/-- The fields in front of the directory. -/
def BackSet.front (s : BackSet) : Bytes :=
  leInt (rtBacksetLen s.iItemCount) ++ (s.guidSetId ++ leInt s.iItemCount)

/-- The items, and the room for one more. -/
def BackSet.itemArea (s : BackSet) : Bytes := s.items.flatMap RawItem.image ++ zeros 264

/-- The structure with zeros behind its strings. -/
def BackSet.image (s : BackSet) : Bytes :=
  s.front ++ (s.wszBakCacheDir ++
    (zeros (filereplMaxPath - s.wszBakCacheDir.length) ++ s.itemArea))

/-- A set as Java should send it. -/
structure BackSet.WellFormed (s : BackSet) : Prop where
  count : s.iItemCount = s.items.length
  guidSetId : s.guidSetId.length = 16
  dirLength : s.wszBakCacheDir.length < filereplMaxPath - 1
  dirNoNul : 0 ∉ s.wszBakCacheDir
  names : ∀ item ∈ s.items, item.wszFilterName.length < filereplMaxPath ∧ 0 ∉ item.wszFilterName

theorem RawItem.length_image {item : RawItem} (h : item.wszFilterName.length < filereplMaxPath) :
    item.image.length = 264 := by
  have hmax : filereplMaxPath = 260 := rfl
  have htype : (Codec.u32.enc item.ulFileType).length = 4 := Codec.u32.enc_length _
  simp only [RawItem.image, List.length_append, length_zeros, htype]
  omega

theorem RawItem.image_append (item : RawItem) (items : List RawItem) (front back : Bytes) :
    (front ++ item.image) ++ (items.flatMap RawItem.image ++ back) =
      front ++ ((item :: items).flatMap RawItem.image ++ back) := by
  rw [List.flatMap_cons]
  simp only [List.append_assoc]

/-! ## What the parser builds -/

section

variable {szData data data' rest : Bytes} {iOffset : Int}

theorem readInt_returns {v : Int} (h : Rest szData iOffset (leInt v ++ rest)) (hv : IsInt v) :
    (readInt szData iOffset).Returns v := (readInt_of_rest h hv).2

theorem assign_returns {field : Field} {v : Int}
    (h : store data field.offset (leInt v) = some data') : (assign data field v).Returns data' := h

theorem memcpyTo_returns {bs : Bytes} (hrest : Rest szData iOffset (bs ++ rest))
    (hlen : bs.length < 2 ^ 31) {field : Field} (h : store data field.offset bs = some data') :
    (memcpyTo szData iOffset bs.length data field).Returns data' := by
  have hsize : sizeT bs.length = bs.length :=
    (sizeT_eq_iff ⟨by omega, by omega⟩ hlen).mpr rfl
  exact (memcpyTo_of_rest hrest hsize field).trans h

/-- The two writes of an item to its place. -/
theorem RawItem.store_image {item : RawItem} (hname : item.wszFilterName.length < filereplMaxPath)
    {i : Nat} {front : Bytes} (hfront : front.length = BackupData.filterItemOffset i) (k : Nat) :
    ∃ data, store (front ++ zeros (264 + k)) (Field.ulFileType i).offset
          (Codec.u32.enc item.ulFileType) = some data ∧
      store data (Field.wszFilterName i).offset item.wszFilterName =
        some ((front ++ item.image) ++ zeros k) := by
  have hmax : filereplMaxPath = 260 := rfl
  have htype : (Codec.u32.enc item.ulFileType).length = 4 := Codec.u32.enc_length _
  let behind : Bytes := zeros (filereplMaxPath - item.wszFilterName.length) ++ zeros k
  have hzeros : zeros (264 + k) = zeros 4 ++ (zeros item.wszFilterName.length ++ behind) := by
    simp only [behind, ← zeros_add]
    congr 1
    omega
  have hoff : (front ++ Codec.u32.enc item.ulFileType).length = (Field.wszFilterName i).offset := by
    rw [List.length_append, hfront, htype]
    rfl
  rw [hzeros]
  refine ⟨_, store_append hfront ((length_zeros 4).trans htype.symm), ?_⟩
  rw [← List.append_assoc front, store_append hoff (length_zeros _), RawItem.image]
  simp only [behind, List.append_assoc]

/-- The loop writes the items, each with zeros behind its name. -/
theorem readItems_returns (hlen : szData.length < 2 ^ 31) {items : List RawItem}
    (hnames : ∀ item ∈ items, item.wszFilterName.length < filereplMaxPath)
    (h : Rest szData iOffset (items.flatMap RawItem.encode ++ rest)) {i : Nat} {front : Bytes}
    (hfront : front.length = BackupData.filterItemOffset i) (k : Nat) :
    (readItems szData items.length i iOffset (front ++ zeros (264 * items.length + k))).Returns
      (front ++ (items.flatMap RawItem.image ++ zeros k)) := by
  induction items generalizing i iOffset front with
  | nil =>
    rw [List.length_nil, Nat.mul_zero, Nat.zero_add]
    exact Accessing.returns_pure _
  | cons item items ih =>
    obtain ⟨hname, hnames⟩ := List.forall_mem_cons.mp hnames
    have hmax : filereplMaxPath = 260 := rfl
    obtain ⟨t, ht, henc⟩ := exists_leInt_eq_enc item.ulFileType
    rw [List.flatMap_cons, RawItem.encode, ← henc] at h
    simp only [List.append_assoc] at h
    have hv : IsInt (item.wszFilterName.length + 4) := ⟨by omega, by omega⟩
    have hr₁ := rest_advance_int h hlen
    have hr₂ := rest_advance_int hr₁ hlen
    have hr₃ := rest_advance hr₂ hlen
    have hsub : toInt ((item.wszFilterName.length + 4 : Int) - 4) = item.wszFilterName.length :=
      (toInt_sub_four hv (by omega)).mpr rfl
    obtain ⟨data, hstore₁, hstore₂⟩ := item.store_image hname hfront (264 * items.length + k)
    rw [← henc] at hstore₁
    have hroom : 264 * (item :: items).length + k = 264 + (264 * items.length + k) := by
      rw [List.length_cons]
      omega
    have hnext : (front ++ item.image).length = BackupData.filterItemOffset (i + 1) := by
      rw [List.length_append, hfront, RawItem.length_image hname, BackupData.filterItemOffset,
        BackupData.filterItemOffset]
      omega
    have hall := ih hnames hr₃ hnext
    rw [RawItem.image_append] at hall
    rw [hroom, List.length_cons, readItems_succ]
    refine Accessing.returns_bind (readInt_returns h hv) ?_
    refine Accessing.returns_bind (readInt_returns hr₁ ht) ?_
    refine Accessing.returns_bind (assign_returns hstore₁) ?_
    rw [hsub]
    refine Accessing.returns_bind (memcpyTo_returns hr₂ (by omega) hstore₂) ?_
    exact hall

variable {s : BackSet} {malloc : Nat → Bool}

/-- The size of the structure. -/
def BackSet.structLen (s : BackSet) : Nat := sizeofRealtimeBackupData + 264 * s.items.length

theorem BackSet.rtBacksetLen_eq (hcount : s.iItemCount = s.items.length)
    (hmax : backupDataOffset + s.structLen ≤ maxMsgLen) :
    rtBacksetLen s.iItemCount = s.structLen := by
  have hlen : s.structLen = 548 + 264 * s.items.length := rfl
  have hoff : backupDataOffset = 8 := rfl
  have hbuf : maxMsgLen = 1048576 := rfl
  rw [rtBacksetLen, hcount, toInt_eq ⟨by omega, by omega⟩, hlen]
  omega

/-- The zeros behind the fields in front of the directory. -/
def BackSet.behind (s : BackSet) : Bytes :=
  zeros s.wszBakCacheDir.length ++ (zeros (filereplMaxPath - s.wszBakCacheDir.length) ++
    zeros (264 * s.items.length + 264))

theorem BackSet.length_front (hguid : s.guidSetId.length = 16) :
    s.front.length = Field.wszBakCacheDir.offset := by
  rw [BackSet.front, List.length_append, List.length_append, length_leInt, length_leInt, hguid]
  rfl

/-- The three writes in front of the directory. -/
theorem BackSet.WellFormed.store_front (hs : s.WellFormed) (size : Int) :
    store (zeros s.structLen) Field.ulSize.offset (leInt size) =
        some (leInt size ++ (zeros 16 ++ (zeros 4 ++ s.behind))) ∧
      store (leInt size ++ (zeros 16 ++ (zeros 4 ++ s.behind))) Field.ulFilterItemCounts.offset
          (leInt s.iItemCount) =
        some (leInt size ++ (zeros 16 ++ (leInt s.iItemCount ++ s.behind))) ∧
      store (leInt size ++ (zeros 16 ++ (leInt s.iItemCount ++ s.behind))) Field.guidSetId.offset
          s.guidSetId =
        some ((leInt size ++ (s.guidSetId ++ leInt s.iItemCount)) ++ s.behind) := by
  have hmaxPath : filereplMaxPath = 260 := rfl
  have hstruct : s.structLen = 548 + 264 * s.items.length := rfl
  have hdir := hs.dirLength
  have hfour : ∀ v, (zeros 4).length = (leInt v).length := fun v =>
    (length_zeros 4).trans (length_leInt v).symm
  have hzeros : zeros s.structLen = zeros 4 ++ (zeros 16 ++ (zeros 4 ++ s.behind)) := by
    simp only [BackSet.behind, ← zeros_add]
    congr 1
    omega
  have hcountOff : (leInt size ++ zeros 16).length = Field.ulFilterItemCounts.offset := by
    rw [List.length_append, length_leInt, length_zeros]
    rfl
  have hguidOff : (leInt size).length = Field.guidSetId.offset := length_leInt _
  refine ⟨?_, ?_, ?_⟩
  · rw [hzeros]
    exact store_append (x := []) rfl (hfour _)
  · rw [← List.append_assoc (leInt size), store_append hcountOff (hfour _), List.append_assoc]
  · rw [store_append hguidOff ((length_zeros 16).trans hs.guidSetId.symm)]
    simp only [List.append_assoc]

/-- The parser is the writes to the fixed fields and the loop. -/
theorem readBackSet_of_stores {data₁ data₂ data₃ data₄ data₅ : Bytes}
    (hc : IsInt s.iItemCount) (hguid : s.guidSetId.length < 2 ^ 31)
    (hdir : s.wszBakCacheDir.length < 2 ^ 31)
    (halloc : malloc (sizeT (rtBacksetLen s.iItemCount)) = true) (hlen : szData.length < 2 ^ 31)
    (h : Rest szData 4 (s.encode ++ rest))
    (hstore₁ : store (zeros (sizeT (rtBacksetLen s.iItemCount))) Field.ulSize.offset
      (leInt (rtBacksetLen s.iItemCount)) = some data₁)
    (hstore₂ : store data₁ Field.ulFilterItemCounts.offset (leInt s.iItemCount) = some data₂)
    (hstore₃ : store data₂ Field.guidSetId.offset s.guidSetId = some data₃)
    (hstore₄ : store data₃ Field.wszBakCacheDir.offset s.wszBakCacheDir = some data₄)
    (hitems : ∀ iOffset, Rest szData iOffset (s.items.flatMap RawItem.encode ++ rest) →
      (readItems szData s.iItemCount.toNat 0 iOffset data₄).Returns data₅) :
    (readBackSet malloc szData).Returns data₅ := by
  have hg : IsInt s.guidSetId.length := ⟨by omega, by omega⟩
  have hk : IsInt s.wszBakCacheDir.length := ⟨by omega, by omega⟩
  simp only [BackSet.encode, List.append_assoc] at h
  have hr₁ : Rest szData (4 + 4) _ := rest_advance_int h hlen
  have hr₂ : Rest szData (4 + 4 + 4) _ := rest_advance_int hr₁ hlen
  have hr₃ := rest_advance hr₂ hlen
  have hr₄ := rest_advance_int hr₃ hlen
  have hr₅ := rest_advance hr₄ hlen
  rw [readBackSet_eq]
  refine Accessing.returns_bind (readInt_returns h hc) ?_
  rw [if_neg (not_not.mpr halloc)]
  refine Accessing.returns_bind (assign_returns hstore₁) ?_
  refine Accessing.returns_bind (assign_returns hstore₂) ?_
  refine Accessing.returns_bind (readInt_returns hr₁ hg) ?_
  refine Accessing.returns_bind (memcpyTo_returns hr₂ hguid hstore₃) ?_
  refine Accessing.returns_bind (readInt_returns hr₃ hk) ?_
  refine Accessing.returns_bind (memcpyTo_returns hr₄ hdir hstore₄) ?_
  exact hitems _ hr₅

/-- The structure that is built is the set with zeros behind its strings. -/
theorem readBackSet_returns (hs : s.WellFormed)
    (hmax : backupDataOffset + s.structLen ≤ maxMsgLen) (halloc : malloc s.structLen = true)
    (hlen : szData.length < 2 ^ 31) (h : Rest szData 4 (s.encode ++ rest)) :
    (readBackSet malloc szData).Returns s.image := by
  have hmaxPath : filereplMaxPath = 260 := rfl
  have hstruct : s.structLen = 548 + 264 * s.items.length := rfl
  have hbuf : maxMsgLen = 1048576 := rfl
  have hdir := hs.dirLength
  have hguid := hs.guidSetId
  have hsizeT : sizeT (rtBacksetLen s.iItemCount) = s.structLen := by
    rw [BackSet.rtBacksetLen_eq hs.count hmax]
    exact (sizeT_eq_iff ⟨by omega, by omega⟩ (by omega)).mpr rfl
  have hc : IsInt s.iItemCount := by
    rw [hs.count]
    exact ⟨by omega, by omega⟩
  obtain ⟨hstore₁, hstore₂, hstore₃⟩ := hs.store_front (rtBacksetLen s.iItemCount)
  rw [← BackSet.front] at hstore₃
  have hstore₄ : store (s.front ++ s.behind) Field.wszBakCacheDir.offset s.wszBakCacheDir =
      some ((s.front ++ (s.wszBakCacheDir ++
        zeros (filereplMaxPath - s.wszBakCacheDir.length))) ++
          zeros (264 * s.items.length + 264)) := by
    rw [BackSet.behind, store_append (BackSet.length_front hs.guidSetId) (length_zeros _)]
    simp only [List.append_assoc]
  have hfixed : (s.front ++ (s.wszBakCacheDir ++
      zeros (filereplMaxPath - s.wszBakCacheDir.length))).length =
        BackupData.filterItemOffset 0 := by
    rw [List.length_append, (BackSet.length_front hs.guidSetId), List.length_append, length_zeros,
      BackupData.filterItemOffset, Field.offset, BackupData.wszBakCacheDirOffset]
    omega
  refine readBackSet_of_stores hc (by omega) (by omega) (hsizeT.symm ▸ halloc) hlen h
    (hsizeT.symm ▸ hstore₁) hstore₂ hstore₃ hstore₄ fun iOffset hrest => ?_
  have himage : s.image = (s.front ++ (s.wszBakCacheDir ++
      zeros (filereplMaxPath - s.wszBakCacheDir.length))) ++
        (s.items.flatMap RawItem.image ++ zeros 264) := by
    rw [BackSet.image, BackSet.itemArea]
    simp only [List.append_assoc]
  rw [hs.count, Int.toNat_natCast, himage]
  exact readItems_returns hlen (fun item hitem => (hs.names item hitem).1) hrest hfixed 264

end

/-! ## What the structure holds -/

/-- The fields of a structure are those of the set, with the strings ended in theirs. -/
structure BackSet.StoredIn (s : BackSet) (data : Bytes) : Prop where
  length : data.length = s.structLen
  ulSize : BackupData.ulSize data = s.structLen
  ulFilterItemCounts : BackupData.ulFilterItemCounts data = s.items.length
  guidSetId : pread data BackupData.guidSetIdOffset 16 = s.guidSetId
  wszBakCacheDir : stringIn data BackupData.wszBakCacheDirOffset filereplMaxPath =
    some s.wszBakCacheDir
  ulFileType : ∀ i (hi : i < s.items.length),
    pread data (BackupData.filterItemOffset i) 4 = Codec.u32.enc s.items[i].ulFileType
  wszFilterName : ∀ i (hi : i < s.items.length),
    stringIn data (BackupData.wszFilterNameOffset i) filereplMaxPath =
      some s.items[i].wszFilterName

section

variable {s : BackSet} {data : Bytes}

theorem leVal_leInt_natCast {n : Nat} (h : n < 2 ^ 31) : leVal (leInt n) = n := by
  have hval := leVal_leInt (n : Int)
  omega

/-- A string with zeros behind it in its field. -/
theorem stringIn_zeros {x z : Bytes} {str : Bytes} {off size : Nat} (hx : x.length = off)
    (hstr : 0 ∉ str) (hlen : str.length < size) :
    stringIn (x ++ (str ++ (zeros (size - str.length) ++ z))) off size = some str := by
  obtain ⟨k, hk⟩ : ∃ k, size - str.length = k + 1 := ⟨size - str.length - 1, by omega⟩
  rw [hk]
  exact stringIn_eq_some_iff.mpr ⟨x, zeros k ++ z, rfl, hx, hstr, hlen⟩

theorem RawItem.image_stored {item : RawItem} (hlen : item.wszFilterName.length < filereplMaxPath)
    (hname : 0 ∉ item.wszFilterName) :
    pread item.image 0 4 = Codec.u32.enc item.ulFileType ∧
      stringIn item.image 4 filereplMaxPath = some item.wszFilterName := by
  have htype : (Codec.u32.enc item.ulFileType).length = 4 := Codec.u32.enc_length _
  constructor
  · exact pread_append (x := []) rfl htype
  · have hstring := @stringIn_zeros _ [] _ _ _ htype hname hlen
    rwa [List.append_nil] at hstring

/-- Each item is found at its offset. -/
theorem BackSet.pread_image (hguid : s.guidSetId.length = 16)
    (hdir : s.wszBakCacheDir.length < filereplMaxPath)
    (hnames : ∀ item ∈ s.items, item.wszFilterName.length < filereplMaxPath) {i : Nat}
    (hi : i < s.items.length) :
    pread s.image (BackupData.filterItemOffset i) 264 = s.items[i].image := by
  have hmaxPath : filereplMaxPath = 260 := rfl
  have hfixed : (s.front ++ (s.wszBakCacheDir ++
      zeros (filereplMaxPath - s.wszBakCacheDir.length))).length = 284 := by
    rw [List.length_append, BackSet.length_front hguid, List.length_append, length_zeros,
      Field.offset, BackupData.wszBakCacheDirOffset]
    omega
  have himage : s.image = (s.front ++ (s.wszBakCacheDir ++
      zeros (filereplMaxPath - s.wszBakCacheDir.length))) ++ s.itemArea := by
    rw [BackSet.image]
    simp only [List.append_assoc]
  rw [himage, BackupData.filterItemOffset, pread_append_right hfixed, BackSet.itemArea]
  exact pread_flatMap (fun item hitem => RawItem.length_image (hnames item hitem)) hi _

/-- The image stores its set, if the strings are shorter than their fields. -/
theorem BackSet.image_stored (hcount : s.iItemCount = s.items.length)
    (hguid : s.guidSetId.length = 16)
    (hdir : s.wszBakCacheDir.length < filereplMaxPath ∧ 0 ∉ s.wszBakCacheDir)
    (hnames : ∀ item ∈ s.items,
      item.wszFilterName.length < filereplMaxPath ∧ 0 ∉ item.wszFilterName)
    (hmax : backupDataOffset + s.structLen ≤ maxMsgLen) : s.StoredIn s.image := by
  have hmaxPath : filereplMaxPath = 260 := rfl
  have hstruct : s.structLen = 548 + 264 * s.items.length := rfl
  have hbuf : maxMsgLen = 1048576 := rfl
  have hsize := BackSet.rtBacksetLen_eq hcount hmax
  have hitemLen : ∀ item ∈ s.items, item.image.length = 264 := fun item hitem =>
    RawItem.length_image (hnames item hitem).1
  have hitem := fun i hi =>
    @BackSet.pread_image s hguid hdir.1 (fun item h => (hnames item h).1) i hi
  refine ⟨?_, ?_, ?_, ?_, ?_, fun i hi => ?_, fun i hi => ?_⟩
  · have hoff : Field.wszBakCacheDir.offset = 24 := rfl
    have hfield : s.wszBakCacheDir.length + (filereplMaxPath - s.wszBakCacheDir.length) = 260 :=
      Nat.add_sub_cancel' hdir.1.le
    rw [BackSet.image, List.length_append, BackSet.length_front hguid, List.length_append,
      List.length_append, length_zeros, BackSet.itemArea, List.length_append,
      length_flatMap hitemLen, length_zeros, hoff, hstruct, ← Nat.add_assoc s.wszBakCacheDir.length,
      hfield, Nat.add_comm (264 * _), ← Nat.add_assoc, ← Nat.add_assoc]
  · have hread : pread s.image 0 4 = leInt (rtBacksetLen s.iItemCount) := by
      rw [BackSet.image, BackSet.front, List.append_assoc]
      exact pread_append (x := []) rfl (length_leInt _)
    rw [BackupData.ulSize, hread, hsize, leVal_leInt_natCast (by omega)]
  · have hx : (leInt (rtBacksetLen s.iItemCount) ++ s.guidSetId).length =
        BackupData.ulFilterItemCountsOffset := by
      rw [List.length_append, length_leInt, hguid]
      rfl
    rw [BackupData.ulFilterItemCounts, BackSet.image, BackSet.front, ← List.append_assoc (leInt _),
      List.append_assoc, pread_append hx (length_leInt _), hcount, leVal_leInt_natCast (by omega)]
  · rw [BackSet.image, BackSet.front, List.append_assoc, List.append_assoc]
    exact pread_append (length_leInt _) hguid
  · exact stringIn_zeros (BackSet.length_front hguid) hdir.2 hdir.1
  · have hmem : s.items[i] ∈ s.items := List.getElem_mem hi
    have hpart : pread s.items[i].image 0 4 = pread s.image (BackupData.filterItemOffset i) 4 := by
      rw [← hitem i hi, pread_pread (by decide), Nat.add_zero]
    exact hpart.symm.trans (RawItem.image_stored (hnames _ hmem).1 (hnames _ hmem).2).1
  · have hmem : s.items[i] ∈ s.items := List.getElem_mem hi
    have hpart : pread s.items[i].image 4 filereplMaxPath =
        pread s.image (BackupData.wszFilterNameOffset i) filereplMaxPath := by
      rw [← hitem i hi, pread_pread (by decide)]
      rfl
    rw [stringIn, ← hpart]
    exact (RawItem.image_stored (hnames _ hmem).1 (hnames _ hmem).2).2

end

/-! ## What the sender makes of it -/

/-- The set with a separator behind its directory. -/
def BackSet.slashed (s : BackSet) : BackSet :=
  { s with wszBakCacheDir := s.wszBakCacheDir ++ [slash] }

section

variable {s : BackSet} {data : Bytes}

theorem BackSet.StoredIn.wellFormed (h : s.StoredIn data) : BackupData.WellFormed data where
  whole := h.ulSize ▸ Nat.le_add_right _ _
  inside := by rw [h.ulSize, h.length]
  items i hi := by
    rw [h.ulFilterItemCounts] at hi
    refine ⟨?_, by rw [h.wszFilterName i hi]; rfl⟩
    have hstruct : s.structLen = 548 + 264 * s.items.length := rfl
    rw [h.ulSize, hstruct, BackupData.filterItemOffset]
    omega

variable (hs : s.WellFormed) (hmax : backupDataOffset + s.structLen ≤ maxMsgLen)

include hs

theorem BackSet.WellFormed.appendSlash_image : appendSlash s.image = some s.slashed.image := by
  have hdir := hs.dirLength
  have hzeros : zeros (filereplMaxPath - s.wszBakCacheDir.length) =
      0 :: zeros (filereplMaxPath - (s.wszBakCacheDir ++ [slash]).length) := by
    rw [List.length_append, List.length_singleton, ← Nat.sub_sub]
    exact (congrArg zeros (Nat.sub_add_cancel (by omega)).symm).trans List.replicate_succ
  have hslashed : s.slashed.image = s.front ++ (s.wszBakCacheDir ++
      slash :: (zeros (filereplMaxPath - (s.wszBakCacheDir ++ [slash]).length) ++ s.itemArea)) := by
    show s.front ++ ((s.wszBakCacheDir ++ [slash]) ++ (_ ++ s.itemArea)) = _
    rw [List.append_assoc]
    rfl
  rw [hslashed, BackSet.image, hzeros]
  exact appendSlash_eq (BackSet.length_front hs.guidSetId) hs.dirNoNul

include hmax

theorem BackSet.WellFormed.image_stored : s.StoredIn s.image := by
  have hdir := hs.dirLength
  exact BackSet.image_stored hs.count hs.guidSetId ⟨by omega, hs.dirNoNul⟩ hs.names hmax

theorem BackSet.WellFormed.slashed_stored : s.slashed.StoredIn s.slashed.image := by
  have hdir := hs.dirLength
  refine BackSet.image_stored hs.count hs.guidSetId ⟨?_, ?_⟩ hs.names hmax
  · show (s.wszBakCacheDir ++ [slash]).length < filereplMaxPath
    rw [List.length_append, List.length_singleton]
    omega
  · exact ne_zero_of_append hs.dirNoNul (by decide)

theorem BackSet.WellFormed.sendConfig_eq {c : SendCall}
    (hc : c.Sends (backupDataOffset + s.structLen)) (ulType : UInt32) :
    ∃ message, sendConfig c (some s.image) ulType =
        some ⟨netOk, some s.slashed.image, some message⟩ ∧
      Carries message ulType s.slashed.image := by
  have hstored := hs.slashed_stored hmax
  have hedit := hs.appendSlash_image
  have hsize : BackupData.ulSize s.image = s.structLen := (hs.image_stored hmax).ulSize
  rw [← hsize] at hmax hc
  rw [← fnLen_eq hmax] at hc
  obtain ⟨sent, hsent⟩ := sendConfig_defined hc ulType hedit hstored.wellFormed
    (hstored.wszBakCacheDir ▸ rfl) (ulSize_appendSlash hedit ▸ hmax)
  obtain ⟨data', message, hedit', rfl, hcarries, -⟩ := sendConfig_eq_some hc hsent
  obtain rfl := Option.some.inj (hedit.symm.trans hedit')
  exact ⟨message, hsent, hcarries⟩

end

/-! ## What the driver sees -/

/-- The packet is the message. -/
structure SkBuff.Brings (skb : SkBuff) (message : Bytes) : Prop where
  len : skb.len = message.length
  data : skb.data.bytesAt 0 message.length = message

/-- The request that the set is, with a separator behind its directory. -/
def BackSet.request (s : BackSet) (hs : s.WellFormed) : RealtimeBackupData where
  guidSetId := ⟨s.guidSetId, hs.guidSetId⟩
  wszBakCacheDir :=
    { bytes := s.wszBakCacheDir ++ [slash]
      noNul := ne_zero_of_append hs.dirNoNul (by decide)
      fits := by
        have hdir := hs.dirLength
        rw [List.length_append, List.length_singleton]
        omega }
  filterItems := s.items.pmap
    (fun item h => ⟨item.ulFileType, ⟨⟨item.wszFilterName, h.2⟩, Nat.le_of_lt h.1⟩⟩) hs.names

/-- The packet is read inside its payload, and does what the notification does. -/
def Delivers (env : Env) (skb : SkBuff) (notification : Notification) (d : Driver) : Prop :=
  ∀ skbOk, (netlinkRecvPacket env skb skbOk d).Inside skb.nlmsgData skb.payload ∧
    (netlinkRecvPacket env skb skbOk d).result =
      some ((processNetlinkCmd env d notification).1,
        some (processNetlinkCmd env d notification).2.1)

section

variable {pfn : Memory} {payload : Nat} {data : Bytes} {s : BackSet}

/-- The driver reads a string of a stored structure as it was stored. -/
theorem string_of_stored {off size off' : Nat} {str : Bytes}
    (hread : pfn.bytesAt off size = pread data off' size)
    (hstr : stringIn data off' size = some str) (hle : off + size ≤ payload) :
    (Read.string off size).Inside pfn payload ∧
      (FieldString.ofField size (pfn.bytesAt off size)).bytes = str := by
  obtain ⟨-, -, -, -, -, hlt⟩ := stringIn_eq_some_iff.mp hstr
  unfold stringIn at hstr
  rw [← hread] at hstr
  split at hstr
  · next hz =>
    have hbytes : (FieldString.ofField size (pfn.bytesAt off size)).bytes = str := by
      have hlen : (pfn.bytesAt off size).length ≤ size := by
        rw [Memory.bytesAt, List.length_map, List.length_range]
      show cut ((pfn.bytesAt off size).take size) = str
      rw [List.take_of_length_le hlen]
      exact Option.some.inj hstr
    have hsome : pfn.stringAt off size =
        some (FieldString.ofField size (pfn.bytesAt off size)) := if_pos hz
    refine ⟨?_, hbytes⟩
    simp only [Read.Inside, hsome, hbytes]
    omega
  · cases hstr

/-- A stored structure that lies behind the type of a notification. -/
def InNotification (pfn : Memory) (data : Bytes) : Prop :=
  ∀ off n, off + n ≤ data.length →
    pfn.bytesAt (backupDataOffset + off) n = pread data off n

theorem BackSet.StoredIn.filterItemOffset_le (h : s.StoredIn data) {i : Nat}
    (hi : i < s.items.length) :
    BackupData.filterItemOffset i + 264 ≤ data.length := by
  have hstruct : s.structLen = 548 + 264 * s.items.length := rfl
  rw [h.length, hstruct, BackupData.filterItemOffset]
  omega

theorem BackSet.StoredIn.ulFilterItemCounts_eq (h : s.StoredIn data)
    (hlies : InNotification pfn data) : Pfn.ulFilterItemCounts pfn = s.items.length := by
  have hstruct : s.structLen = 548 + 264 * s.items.length := rfl
  have hle : BackupData.ulFilterItemCountsOffset + 4 ≤ data.length := by
    rw [h.length, hstruct]
    exact Nat.le_trans (by decide) (Nat.le_add_right _ _)
  have hread : pfn.bytesAt Pfn.ulFilterItemCountsOffset 4 =
      pread data BackupData.ulFilterItemCountsOffset 4 := hlies _ _ hle
  have hlt := leVal_lt (pread data BackupData.ulFilterItemCountsOffset 4)
  rw [length_pread hle] at hlt
  have hval : leVal (pread data BackupData.ulFilterItemCountsOffset 4) = s.items.length :=
    h.ulFilterItemCounts
  rw [hval] at hlt
  rw [Pfn.ulFilterItemCounts, hread]
  show (UInt32.ofNat (leVal (pread data _ 4))).toNat = _
  rw [hval, UInt32.toNat_ofNat']
  exact Nat.mod_eq_of_lt hlt

/-- The name of an item, where the driver looks for it. -/
theorem BackSet.StoredIn.wszFilterName_eq (h : s.StoredIn data)
    (hlies : InNotification pfn data)
    (hle : backupDataOffset + data.length ≤ payload) {i : Nat} (hi : i < s.items.length) :
    (Read.string (Pfn.wszFilterNameOffset i) filereplMaxPath).Inside pfn payload ∧
      (Pfn.filterItem pfn i).wszFilterName.bytes = s.items[i].wszFilterName := by
  have hitem := h.filterItemOffset_le hi
  have hoff : Pfn.wszFilterNameOffset i = backupDataOffset + BackupData.wszFilterNameOffset i := by
    rw [Pfn.wszFilterNameOffset, Pfn.filterItemOffset, BackupData.wszFilterNameOffset,
      BackupData.filterItemOffset, backupDataOffset]
    omega
  have hend : BackupData.wszFilterNameOffset i + filereplMaxPath =
      BackupData.filterItemOffset i + 264 := Nat.add_assoc _ _ _
  have hread := hlies (BackupData.wszFilterNameOffset i) filereplMaxPath (hend ▸ hitem)
  rw [← hoff] at hread
  exact string_of_stored hread (h.wszFilterName i hi) (by omega)

theorem BackSet.StoredIn.ulFileType_eq (h : s.StoredIn data) (hlies : InNotification pfn data)
    {i : Nat} (hi : i < s.items.length) :
    (Pfn.filterItem pfn i).ulFileType = s.items[i].ulFileType := by
  have hitem := h.filterItemOffset_le hi
  have hoff : Pfn.filterItemOffset i = backupDataOffset + BackupData.filterItemOffset i := by
    rw [Pfn.filterItemOffset, BackupData.filterItemOffset, backupDataOffset]
    omega
  have hread := hlies (BackupData.filterItemOffset i) 4 (by omega)
  rw [← hoff, h.ulFileType i hi] at hread
  show Codec.u32.dec (pfn.bytesAt (Pfn.filterItemOffset i) 4) = _
  rw [hread, Codec.dec_enc]

theorem filterItem_ext {item item' : FilterItem} (htype : item.ulFileType = item'.ulFileType)
    (hname : item.wszFilterName.bytes = item'.wszFilterName.bytes) : item = item' := by
  obtain ⟨type, name⟩ := item
  obtain ⟨type', name'⟩ := item'
  obtain rfl : type = type' := htype
  obtain rfl : name = name' := FieldString.ext hname
  rfl

/-- The request that the driver sees is the set. -/
theorem BackSet.StoredIn.request_eq {hs : s.WellFormed} (h : s.slashed.StoredIn data)
    (hlies : InNotification pfn data) (hle : backupDataOffset + data.length ≤ payload) :
    Pfn.request pfn (Pfn.ulFilterItemCounts pfn) = s.request hs ∧ Pfn.AddFits pfn payload := by
  have hwhole : sizeofRealtimeBackupData ≤ data.length := h.length ▸ Nat.le_add_right _ _
  have hcount : Pfn.ulFilterItemCounts pfn = s.items.length := h.ulFilterItemCounts_eq hlies
  have hguid : pfn.bytesAt Pfn.guidSetIdOffset 16 = s.guidSetId :=
    (hlies _ _ (Nat.le_trans (by decide) hwhole)).trans h.guidSetId
  have hdirLe : BackupData.wszBakCacheDirOffset + filereplMaxPath ≤ data.length :=
    Nat.le_trans (by decide) hwhole
  obtain ⟨hdirIn, hdir⟩ := string_of_stored (hlies _ _ hdirLe) h.wszBakCacheDir
    (Nat.le_trans (Nat.add_le_add_left hdirLe _) hle)
  have hitems : Pfn.filterItems pfn 0 s.items.length = (s.request hs).filterItems := by
    refine List.ext_getElem ?_ fun i hi _ => ?_
    · rw [Pfn.filterItems, List.length_map, List.length_range', BackSet.request, List.length_pmap]
    · rw [Pfn.filterItems, List.length_map, List.length_range'] at hi
      have hlt : i < s.slashed.items.length := hi
      have hname := (h.wszFilterName_eq hlies hle hlt).2
      have htype := h.ulFileType_eq hlies hlt
      simp only [Pfn.filterItems, BackSet.request, List.getElem_map, List.getElem_range',
        List.getElem_pmap]
      rw [Nat.zero_add, Nat.one_mul]
      exact filterItem_ext htype hname
  refine ⟨?_, hdirIn, fun i hi => ?_⟩
  · rw [hcount, Pfn.request, hitems]
    have hguidSet : Pfn.guidSetId pfn = ⟨s.guidSetId, hs.guidSetId⟩ := by
      rw [Pfn.guidSetId, hguid]
      exact GUID.ext (List.take_left' hs.guidSetId)
    have hdirField : FieldString.ofField filereplMaxPath
        (pfn.bytesAt Pfn.wszBakCacheDirOffset filereplMaxPath) = (s.request hs).wszBakCacheDir :=
      FieldString.ext hdir
    rw [hguidSet, hdirField]
    rfl
  · rw [hcount] at hi
    exact (h.wszFilterName_eq hlies hle hi).1

variable {skb : SkBuff} {message : Bytes} {ulType : UInt32}

theorem SkBuff.Brings.bytesAt (h : skb.Brings message) {off n : Nat}
    (hle : off + n ≤ message.length) : skb.data.bytesAt off n = pread message off n :=
  Memory.bytesAt_eq_pread h.data hle

theorem SkBuff.bytesAt_nlmsgData (skb : SkBuff) (off n : Nat) :
    skb.nlmsgData.bytesAt off n = skb.data.bytesAt (sizeofNlmsghdr + off) n := by
  simp only [Memory.bytesAt, SkBuff.nlmsgData, Nat.add_assoc]

theorem nlmsgSpace_bounds (n : Nat) :
    sizeofNlmsghdr + n ≤ nlmsgSpace n ∧ nlmsgSpace n ≤ sizeofNlmsghdr + n + 3 := by
  rw [nlmsgSpace]
  omega

/-- What the driver finds in the header of a message, and behind it. -/
theorem Carries.received (h : Carries message ulType data) (hbrings : skb.Brings message)
    (hlen : BackupData.ulSize data = data.length)
    (hmax : backupDataOffset + data.length ≤ maxMsgLen) :
    skb.nlmsgLen = message.length ∧ skb.nlmsgType = rtbGet ∧
      skb.nlmsgData.bytesAt 0 4 = Codec.u32.enc ulType ∧ InNotification skb.nlmsgData data := by
  have hoff : backupDataOffset = 8 := rfl
  obtain ⟨hspace, hspace'⟩ := nlmsgSpace_bounds (backupDataOffset + BackupData.ulSize data)
  rw [← h.length, hlen] at hspace hspace'
  have hheader : ∀ i m, i + m ≤ sizeofNlmsghdr →
      skb.data.bytesAt i m = pread (nlmsghdr message.length rtbCmd) i m := by
    intro i m hle
    have hread := hbrings.bytesAt (Nat.le_trans hle (Nat.le_of_add_right_le hspace))
    have hpart : pread message 0 sizeofNlmsghdr = nlmsghdr message.length rtbCmd := h.header
    rw [hread, ← hpart, pread_pread hle, Nat.zero_add]
  refine ⟨?_, ?_, ?_, fun off n hle => ?_⟩
  · have hfield : pread (nlmsghdr message.length rtbCmd) 0 4 = leBytes 4 message.length :=
      pread_append (x := []) rfl (leBytes_length _ _)
    have hlt : message.length < 256 ^ 4 := by
      have hbuf : maxMsgLen = 1048576 := rfl
      have hhdr : sizeofNlmsghdr = 16 := rfl
      omega
    rw [SkBuff.nlmsgLen, hheader 0 4 (by decide), hfield, leVal_leBytes, Nat.mod_eq_of_lt hlt]
  · have hfield : pread (nlmsghdr message.length rtbCmd) 4 2 = leBytes 2 rtbCmd :=
      pread_append (leBytes_length _ _) (leBytes_length _ _)
    rw [SkBuff.nlmsgType, hheader 4 2 (by decide), hfield, leVal_leBytes]
    rfl
  · rw [SkBuff.bytesAt_nlmsgData, hbrings.bytesAt (by omega)]
    exact h.type
  · rw [SkBuff.bytesAt_nlmsgData, hbrings.bytesAt (by omega)]
    exact h.data off n (hlen.symm ▸ hle)

/-- A packet whose message fits does what its notification does. -/
theorem delivers_of_fits (env : Env) {d : Driver} (hw : d.WF)
    (hheader : sizeofNlmsghdr ≤ skb.len ∧ sizeofNlmsghdr ≤ skb.nlmsgLen ∧ skb.nlmsgLen ≤ skb.len)
    (hget : skb.nlmsgType = rtbGet) (hlen : ¬ skb.nlmsgLen < sizeofFilereplNotification)
    (hfits : Pfn.Fits skb.nlmsgData skb.payload) :
    Delivers env skb (Pfn.notification skb.nlmsgData) d := by
  intro skbOk
  have hset : skb.nlmsgType ≠ rtbSet := by
    rw [hget]
    decide
  have hreads : ReadsInside env skb skbOk d := (netlinkRecvPacket_inside_iff hw skb skbOk).mpr
    (.inl ⟨fun _ => hfits, fun h => absurd h hset⟩)
  refine ⟨hreads.1, ?_⟩
  have hrecv : netlinkRecvPacket env skb skbOk d =
      Pfn.processNetlinkCmd env skb.nlmsgData skb.nlmsgLen d >>= fun out =>
        pure (out.1, some out.2) :=
    ((if_pos hheader.1).trans (if_pos hheader.2)).trans (if_pos hget)
  rw [hrecv, Traced.result_bind_pure, Pfn.processNetlinkCmd_eq hw hlen hfits, Option.map_some]

/-- A message that carries a stored set is a request for that set. -/
theorem BackSet.StoredIn.seen {hs : s.WellFormed} (h : s.slashed.StoredIn data)
    (hcarries : Carries message ulType data) (hbrings : skb.Brings message)
    (hmax : backupDataOffset + s.structLen ≤ maxMsgLen) :
    Pfn.request skb.nlmsgData (Pfn.ulFilterItemCounts skb.nlmsgData) = s.request hs ∧
      Pfn.AddFits skb.nlmsgData skb.payload ∧
      ∀ (env : Env) (d : Driver), d.WF →
        (notifyType ulType = .addSet → Delivers env skb (.addSet (s.request hs)) d) ∧
        (notifyType ulType = .addItem → Delivers env skb (.addItem (s.request hs)) d) := by
  have hlen : data.length = s.structLen := h.length
  have hsize : BackupData.ulSize data = data.length := h.ulSize.trans hlen.symm
  obtain ⟨hnlmsg, hget, htypeField, hlies⟩ := hcarries.received hbrings hsize (hlen ▸ hmax)
  have hstruct : s.structLen = 548 + 264 * s.items.length := rfl
  have hoff : backupDataOffset = 8 := rfl
  have hhdr : sizeofNlmsghdr = 16 := rfl
  have hmin : sizeofFilereplNotification = 556 := rfl
  obtain ⟨hspace, -⟩ := nlmsgSpace_bounds (backupDataOffset + BackupData.ulSize data)
  rw [← hcarries.length, ← hnlmsg, hsize, hlen] at hspace
  have hpayload : backupDataOffset + data.length ≤ skb.payload := by
    rw [hlen, SkBuff.payload]
    omega
  have hheader : sizeofNlmsghdr ≤ skb.len ∧ sizeofNlmsghdr ≤ skb.nlmsgLen ∧
      skb.nlmsgLen ≤ skb.len := by
    rw [hbrings.len, ← hnlmsg]
    omega
  have hlong : ¬ skb.nlmsgLen < sizeofFilereplNotification := by omega
  have hfixed : 292 ≤ skb.payload := by omega
  have htype : Pfn.type skb.nlmsgData = notifyType ulType := by
    show notifyType (Codec.u32.dec (skb.nlmsgData.bytesAt 0 4)) = _
    rw [htypeField, Codec.dec_enc]
  obtain ⟨hrequest, hfits⟩ := @request_eq _ _ _ _ hs h hlies hpayload
  have hall : notifyType ulType = .addSet ∨ notifyType ulType = .addItem →
      Pfn.Fits skb.nlmsgData skb.payload := by
    rintro (hadd | hadd)
    · rw [Pfn.Fits, htype, hadd]
      exact ⟨hfixed, hfits⟩
    · rw [Pfn.Fits, htype, hadd]
      exact ⟨hfixed, hfits⟩
  refine ⟨hrequest, hfits, fun env d hw => ⟨fun hadd => ?_, fun hadd => ?_⟩⟩
  · have hdelivers := delivers_of_fits env hw hheader hget hlong (hall (.inl hadd))
    rwa [Pfn.notification, htype, hadd, hrequest] at hdelivers
  · have hdelivers := delivers_of_fits env hw hheader hget hlong (hall (.inr hadd))
    rwa [Pfn.notification, htype, hadd, hrequest] at hdelivers

end

/-- A well-formed array is parsed and sent as a message in which the driver sees the
set with a separator behind its directory, and which it reads inside, in any state,
as the request to add that set. -/
theorem set_reaches_driver {s : BackSet} (hs : s.WellFormed) (env : JniCall)
    (helems : env.getByteArrayElements = true) (halloc : env.malloc s.structLen = true)
    (backupSet : JByteArray)
    (hbytes : backupSet.bytes = leInt backupSet.bytes.length ++ s.encode)
    (hmax : backupDataOffset + s.structLen ≤ maxMsgLen) {c : SendCall}
    (hc : c.Sends (backupDataOffset + s.structLen)) (ulType : UInt32) :
    ∃ data data' message, (getBackSetInfo env backupSet).result = some (some data) ∧
      sendConfig c (some data) ulType = some ⟨netOk, some data', some message⟩ ∧
      ∀ skb : SkBuff, skb.Brings message →
        Pfn.request skb.nlmsgData (Pfn.ulFilterItemCounts skb.nlmsgData) = s.request hs ∧
        Pfn.AddFits skb.nlmsgData skb.payload ∧
        ∀ (kernel : Env) (cnf : Bytes) (nalloc : Nat) (events : List Event),
          ∀ st ∈ states (sysStep kernel) (Sys.start kernel cnf nalloc) events,
            (notifyType ulType = .addSet →
              Delivers kernel skb (.addSet (s.request hs)) st.driver) ∧
            (notifyType ulType = .addItem →
              Delivers kernel skb (.addItem (s.request hs)) st.driver) := by
  have haccepted : ¬ Rejected env backupSet := by
    have hlong : 4 < backupSet.bytes.length := by
      rw [hbytes, List.length_append, length_leInt, BackSet.encode, List.length_append,
        length_leInt]
      exact Nat.lt_add_of_pos_right (Nat.lt_add_right _ (by decide))
    have hfirst : backupSet.bytes.take 4 = leInt backupSet.bytes.length :=
      (congrArg (List.take 4) hbytes).trans (List.take_left' (length_leInt _))
    rintro (hshort | hno | hne)
    · exact absurd hlong (Nat.not_lt.mpr hshort)
    · exact absurd (helems.symm.trans hno) (by decide)
    · exact hne hfirst
  obtain ⟨rest, hrest, hstart, hresult, -⟩ := getBackSetInfo_of_accepted haccepted
  obtain rfl : rest = s.encode := List.append_cancel_left (hrest.symm.trans hbytes)
  rw [← List.append_nil s.encode] at hstart
  have hread := readBackSet_returns hs hmax halloc backupSet.length_lt hstart
  obtain ⟨message, hsent, hcarries⟩ := hs.sendConfig_eq hmax hc ulType
  refine ⟨s.image, s.slashed.image, message, hresult.trans (congrArg _ hread), hsent,
    fun skb hbrings => ?_⟩
  obtain ⟨hrequest, hfits, hdelivers⟩ := (hs.slashed_stored hmax).seen hcarries hbrings hmax
  refine ⟨hrequest, hfits, fun kernel cnf nalloc events st hst => ?_⟩
  have hw : st.driver.WF := (invariant (fun s ev => sysStep_sound kernel s ev)
    (start_sound kernel cnf nalloc) events st hst).wf
  exact hdelivers kernel st.driver hw

/-! ## A set with three items -/

/-- The directory `/a` and the files `/b/cd` and `/efg.hij`, with logs in `/c`. -/
def threeItemSet : BackSet where
  iItemCount := 3
  guidSetId := List.replicate 16 1
  wszBakCacheDir := [47, 99]
  items := [⟨1, [47, 97]⟩, ⟨0, [47, 98, 47, 99, 100]⟩, ⟨0, [47, 101, 102, 103, 46, 104, 105, 106]⟩]

def threeItemArray : JByteArray where
  bytes := leInt (4 + threeItemSet.encode.length) ++ threeItemSet.encode
  length_lt := by decide

theorem threeItemSet_wellFormed : threeItemSet.WellFormed where
  count := by decide
  guidSetId := by decide
  dirLength := by decide
  dirNoNul := by decide
  names := by decide

/-- The packet of a message. -/
def SkBuff.ofMessage (message : Bytes) : SkBuff where
  data i := message.getD i 0
  len := message.length

theorem SkBuff.brings_ofMessage (message : Bytes) : (SkBuff.ofMessage message).Brings message where
  len := rfl
  data := by
    refine List.ext_getElem ?_ fun i hi hi' => ?_
    · rw [Memory.bytesAt, List.length_map, List.length_range]
    · simp only [Memory.bytesAt, List.getElem_map, List.getElem_range, SkBuff.ofMessage,
        Nat.zero_add]
      exact (List.getElem_eq_getD 0).symm

theorem set_reaches_driver_three_items :
    ∃ data data' message, (getBackSetInfo smallHeap threeItemArray).result = some (some data) ∧
      sendConfig addSetCall.1 (some data) addSetCall.2 =
        some ⟨netOk, some data', some message⟩ ∧
      Delivers quietKernel (SkBuff.ofMessage message)
        (.addSet (threeItemSet.request threeItemSet_wellFormed))
        (Sys.start quietKernel [] 0).driver := by
  obtain ⟨data, data', message, hparsed, hsent, hsees⟩ := set_reaches_driver
    threeItemSet_wellFormed smallHeap rfl (by decide) threeItemArray (by decide) (by decide)
    (addSetCall_sends _) addSetCall.2
  obtain ⟨-, -, hdelivers⟩ := hsees _ (SkBuff.brings_ofMessage message)
  have hstart := hdelivers quietKernel [] 0 [] _ (self_mem_states _ _)
  exact ⟨data, data', message, hparsed, hsent, hstart.1 (by decide)⟩

end RtBackup
