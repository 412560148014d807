import RtBackup.Lookup
import RtBackup.Restore

/-!
# The record of a write (`createiolog.c`, `hookvfs.c`)

`rtb_vfs_write` takes the file position before the original function and builds
the record from the request, the whole buffer at that position. What the call
did is known afterwards only: it may have stored fewer bytes, and at the end of
the file where the file is open for appending.

`createiologforwrite` computes the size of the record in an `int` and copies
`count` bytes of 64 bits. A `count` of 2^32 and more has a small size again.

Results:
1. `exactSizes_iff`: the sizes are those of the bytes copied for counts below
   2^31 - 1024 only.
2. `overruns_of_large`: from there on a buffer that was allocated is too small.
3. `write_sizes_exact_iff`: when a record that is built has exact sizes.
4. `write_replayed_iff`: when replaying the record gives the file that the write
   left.
-/

namespace RtBackup

open ByteFile Namespace

/-! ## Sizes -/

/-- The sizes in `createiologforwrite` on a kernel of 64 bits. -/
structure WriteSizes where
  /-- The argument of `vmalloc`. -/
  allocated : BitVec 64
  ulLogSize : BitVec 32
  length : BitVec 32
  /-- The bytes that `memcpy` copies to `Data`. -/
  copied : BitVec 64

/-- `sizeof(LOG_FILE) + count - 4` as an `int`. -/
def iologfilelen (count : BitVec 64) : BitVec 32 := (1028 + count - 4).setWidth 32

def writeSizes (count : BitVec 64) : WriteSizes where
  allocated := (iologfilelen count).signExtend 64
  ulLogSize := iologfilelen count
  length := count.setWidth 32
  copied := count

/-- The sizes are those of 1024 bytes and the bytes copied. -/
structure WriteSizes.Exact (sizes : WriteSizes) : Prop where
  allocated_eq : sizes.allocated.toNat = 1024 + sizes.copied.toNat
  logSize_eq : sizes.ulLogSize.toNat = 1024 + sizes.copied.toNat
  length_eq : sizes.length.toNat = sizes.copied.toNat

/-- The copy ends in the buffer. -/
def WriteSizes.InBounds (sizes : WriteSizes) : Prop :=
  1024 + sizes.copied.toNat ≤ sizes.allocated.toNat

instance (sizes : WriteSizes) : Decidable sizes.InBounds := inferInstanceAs (Decidable (_ ≤ _))

theorem iologfilelen_toNat (count : BitVec 64) :
    (iologfilelen count).toNat = (1024 + count.toNat) % 2 ^ 32 := by
  have heq : 1028 + count - 4 = 1024 + count := by bv_omega
  rw [iologfilelen, heq, BitVec.toNat_setWidth, BitVec.toNat_add]
  exact Nat.mod_mod_of_dvd _ (by decide)

/-- Sizes that are not negative stay what they are in 64 bits. -/
theorem allocated_toNat (count : BitVec 64) :
    (writeSizes count).allocated.toNat =
      if (1024 + count.toNat) % 2 ^ 32 < 2 ^ 31 then (1024 + count.toNat) % 2 ^ 32
      else (1024 + count.toNat) % 2 ^ 32 + (2 ^ 64 - 2 ^ 32) := by
  have hmsb : (iologfilelen count).msb = decide (2 ^ 31 ≤ (1024 + count.toNat) % 2 ^ 32) := by
    rw [BitVec.msb_eq_decide, iologfilelen_toNat]
  rw [writeSizes, BitVec.toNat_signExtend, BitVec.toNat_setWidth, hmsb, iologfilelen_toNat]
  have := Nat.mod_lt (1024 + count.toNat) (by decide : 2 ^ 32 > 0)
  rw [Nat.mod_eq_of_lt (by omega)]
  by_cases hneg : 2 ^ 31 ≤ (1024 + count.toNat) % 2 ^ 32
  · rw [decide_eq_true hneg, if_neg (Nat.not_lt.mpr hneg)]
    rfl
  · rw [decide_eq_false hneg, if_pos (Nat.lt_of_not_le hneg)]
    rfl

theorem exactSizes_iff (count : BitVec 64) :
    (writeSizes count).Exact ↔ count.toNat < 2 ^ 31 - 1024 := by
  have hsize : (writeSizes count).ulLogSize.toNat = _ := iologfilelen_toNat count
  have hcopied : (writeSizes count).copied = count := rfl
  have hlength : (writeSizes count).length.toNat = count.toNat % 2 ^ 32 := BitVec.toNat_setWidth ..
  have hallocated := allocated_toNat count
  constructor
  · rintro ⟨halloc, hlog, -⟩
    rw [hallocated, hcopied] at halloc
    rw [hsize, hcopied] at hlog
    split at halloc <;> omega
  · intro hlt
    refine ⟨?_, ?_, ?_⟩
    · rw [hallocated, hcopied, if_pos (by omega)]
      omega
    · rw [hsize, hcopied]
      omega
    · rw [hlength, hcopied]
      omega

/-- A larger count is copied over the end of its buffer, or the size is negative. -/
theorem overruns_of_large {count : BitVec 64} (h : 2 ^ 31 - 1024 ≤ count.toNat)
    (halloc : (writeSizes count).allocated.toNat < 2 ^ 63) :
    ¬(writeSizes count).InBounds := by
  have hcopied : (writeSizes count).copied = count := rfl
  rw [WriteSizes.InBounds, hcopied]
  rw [allocated_toNat] at halloc ⊢
  split at halloc
  · next hsmall =>
    rw [if_pos hsmall]
    omega
  · omega

/-- For every count and every outcome of `vmalloc`: the sizes of a record that is
built are exact exactly if the size does not leave the positive `int`s. -/
theorem write_sizes_exact_iff (vmalloc : BitVec 64 → Bool) (count : BitVec 64) :
    (vmalloc (writeSizes count).allocated = true →
      (writeSizes count).Exact ∧ (writeSizes count).InBounds) ↔
    count.toNat < 2 ^ 31 - 1024 ∨ vmalloc (writeSizes count).allocated = false := by
  rw [← Bool.not_eq_true, ← exactSizes_iff]
  constructor
  · intro h
    by_cases hbuilt : vmalloc (writeSizes count).allocated = true
    · exact .inl (h hbuilt).1
    · exact .inr hbuilt
  · rintro (hexact | hnot) hbuilt
    · exact ⟨hexact, hexact.allocated_eq.ge⟩
    · exact absurd hbuilt hnot

/-- A machine that has memory for less than 2^40 bytes. -/
def vmallocTera (size : BitVec 64) : Bool := 0 < size.toNat && size.toNat < 2 ^ 40

/-- For 2^32 bytes a buffer of 1024 is made. -/
theorem write_size_wraps :
    ¬(vmallocTera (writeSizes (2 ^ 32)).allocated = true →
      (writeSizes (2 ^ 32)).Exact ∧ (writeSizes (2 ^ 32)).InBounds) := by
  intro h
  exact absurd (h (by decide)).2 (by decide)

/-! ## Positional writes of a part -/

/-- A longer write at the same place gives the same file if what it adds was there
already. -/
theorem pwrite_take_iff (f buf : Bytes) (pos : Nat) {ret : Nat} (hret : ret ≤ buf.length) :
    pwrite f pos buf = pwrite f pos (buf.take ret) ↔
      pread f (pos + ret) (buf.length - ret) = buf.drop ret := by
  let head := (f ++ List.replicate (pos - f.length) 0).take pos
  have hlong : pwrite f pos buf =
      head ++ (buf.take ret ++ (buf.drop ret ++ f.drop (pos + buf.length))) := by
    rw [← List.append_assoc (buf.take ret), List.take_append_drop, ← List.append_assoc]
    rfl
  have hend : pos + buf.length = pos + ret + (buf.length - ret) := by omega
  have hshort : pwrite f pos (buf.take ret) =
      head ++ (buf.take ret ++
        (pread f (pos + ret) (buf.length - ret) ++ f.drop (pos + buf.length))) := by
    rw [pread, hend, ← List.drop_drop (i := buf.length - ret), List.take_append_drop,
      ← List.append_assoc, pwrite, List.length_take, Nat.min_eq_left hret]
  rw [hlong, hshort, List.append_cancel_left_eq, List.append_cancel_left_eq,
    List.append_cancel_right_eq]
  exact eq_comm

/-- A write at a place before the end that should have gone to the end. -/
theorem pwrite_append_iff (f buf : Bytes) (pos : Nat) {ret : Nat} (hpos : 0 < ret)
    (hret : ret ≤ buf.length) :
    pwrite f pos buf = pwrite f f.length (buf.take ret) ↔
      pos ≤ f.length ∧ f.drop pos ++ buf.take ret = buf := by
  have hend : pwrite f f.length (buf.take ret) = f ++ buf.take ret := by
    rw [pwrite, Nat.sub_self, List.replicate_zero, List.append_nil, List.take_length,
      List.drop_of_length_le (Nat.le_add_right _ _), List.append_nil]
  have hlen : (f ++ buf.take ret).length = f.length + ret := by
    rw [List.length_append, List.length_take, Nat.min_eq_left hret]
  rw [hend]
  have hinside : pos ≤ f.length →
      pwrite f pos buf = f.take pos ++ (buf ++ f.drop (pos + buf.length)) := by
    intro hle
    rw [pwrite, Nat.sub_eq_zero_of_le hle, List.replicate_zero, List.append_nil,
      List.append_assoc]
  have hsplit : f ++ buf.take ret = f.take pos ++ (f.drop pos ++ buf.take ret) := by
    rw [← List.append_assoc, List.take_append_drop]
  constructor
  · intro h
    have hlengths := congrArg List.length h
    rw [hlen, pwrite, List.length_append, List.length_append, List.length_take,
      List.length_append, List.length_replicate, List.length_drop] at hlengths
    have hle : pos ≤ f.length := by omega
    refine ⟨hle, ?_⟩
    rw [hinside hle, hsplit, List.append_cancel_left_eq,
      List.drop_of_length_le (by omega), List.append_nil] at h
    exact h.symm
  · rintro ⟨hle, heq⟩
    have hbuf : f.length - pos + ret = buf.length := by
      rw [← heq, List.length_append, List.length_drop, List.length_take]
      omega
    rw [hinside hle, hsplit, heq, List.drop_of_length_le (by omega), List.append_nil]

/-! ## Replaying the record -/

/-- The contents after `vfs_write` has stored `ret` bytes. -/
def vfsWrite (append : Bool) (pos : Nat) (buf : Bytes) (ret : Nat) (f : Bytes) : Bytes :=
  pwrite f (if append then f.length else pos) (buf.take ret)

/-- The write of the whole buffer at `pos` comes to the same: `ret` is all of it
and `pos` is where it went, or the file has the other bytes there by chance. -/
def Reproduced (append : Bool) (pos : Nat) (buf : Bytes) (ret : Nat) (f : Bytes) : Prop :=
  if append then pos ≤ f.length ∧ f.drop pos ++ buf.take ret = buf
  else pread f (pos + ret) (buf.length - ret) = buf.drop ret

instance (append : Bool) (pos : Nat) (buf : Bytes) (ret : Nat) (f : Bytes) :
    Decidable (Reproduced append pos buf ret f) := by
  unfold Reproduced
  infer_instance

theorem pwrite_eq_vfsWrite_iff {append : Bool} {pos ret : Nat} {buf f : Bytes} (hpos : 0 < ret)
    (hret : ret ≤ buf.length) :
    pwrite f pos buf = vfsWrite append pos buf ret f ↔ Reproduced append pos buf ret f := by
  unfold vfsWrite Reproduced
  cases append with
  | true => exact pwrite_append_iff f buf pos hpos hret
  | false => exact pwrite_take_iff f buf pos hret

/-- What becomes of the record of a write. -/
inductive WriteOutcome where
  | noMemory
  /-- The copy runs over the end of the buffer. -/
  | overrun
  | enqueued (piowc : IowriteContext)

/-- `createiologforwrite` with its buffer. -/
def buildWrite (vmalloc : BitVec 64 → Bool) (seqNo : SeqNo) (abspath : CString) (writebuff : Bytes)
    (pos : UInt64) : WriteOutcome :=
  let sizes := writeSizes (BitVec.ofNat 64 writebuff.length)
  if vmalloc sizes.allocated = false then .noMemory
  else if sizes.InBounds then .enqueued (createiologforwrite seqNo abspath writebuff pos)
  else .overrun

/-- The record of a write that stored something. -/
theorem recordOf_write (writeOnly : Bool) (iret : Int) (abspath : CString) (buf : Bytes)
    (pos : UInt64) {ret : Int} (hret : 0 < ret) (seqNo : SeqNo) :
    (rtbVfsWrite writeOnly iret abspath buf pos).recordOf ret seqNo =
      createiologforwrite seqNo abspath buf pos :=
  if_pos (decide_eq_true hret)

/-- A record that is enqueued was built of a count within the `int`s. -/
theorem buildWrite_enqueued {vmalloc : BitVec 64 → Bool}
    (hvmalloc : ∀ size : BitVec 64, 2 ^ 63 ≤ size.toNat → vmalloc size = false) {seqNo : SeqNo}
    {abspath : CString} {buf : Bytes} {pos : UInt64} {piowc : IowriteContext}
    (hcount : buf.length < 2 ^ 64)
    (h : buildWrite vmalloc seqNo abspath buf pos = .enqueued piowc) :
    buf.length < 2 ^ 31 - 1024 ∧ piowc = createiologforwrite seqNo abspath buf pos := by
  unfold buildWrite at h
  simp only at h
  split at h
  · exact absurd h nofun
  · next hbuilt =>
    split at h
    · next hin =>
      cases h
      refine ⟨?_, rfl⟩
      by_contra hlarge
      have hnat : (BitVec.ofNat 64 buf.length).toNat = buf.length := by
        rw [BitVec.toNat_ofNat, Nat.mod_eq_of_lt hcount]
      refine overruns_of_large ?_ ?_ hin
      · rw [hnat]
        exact Nat.le_of_not_lt hlarge
      · exact Nat.lt_of_not_le fun hle => hbuilt (hvmalloc _ hle)
    · exact absurd h nofun

/-- `open` in `restore` reaches this file. -/
def RestoreOpens (targetdir : CString) (fs : Files) (iologfile : LogFile) (ino : Nat) : Prop :=
  (targetdir.append iologfile.hdr.wszFilePath.toCString).bytes.length < targetpathSize ∧
    (follow fs (maxSymlinks + 1)
      (pathNames (targetdir.append iologfile.hdr.wszFilePath.toCString).bytes)).bind fs.node =
        some (.file ino)

/-- The record writes its data at its offset. -/
theorem restore_write {targetdir : CString} {fs : Files} {ino : Nat} {seqNo : SeqNo}
    {abspath : CString} {buf : Bytes} {pos : UInt64} (hne : buf ≠ [])
    (hcount : buf.length < 2 ^ 32) (hpos : pos.toNat < 2 ^ 63)
    (hopen : RestoreOpens targetdir fs (createiologforwrite seqNo abspath buf pos).logfile ino) :
    restore targetdir fs (createiologforwrite seqNo abspath buf pos).logfile =
      some (fs.write ino fun f => pwrite f pos.toNat buf) := by
  obtain ⟨hfit, hfile⟩ := hopen
  have hlen : (UInt32.ofNat buf.length).toNat = buf.length := by
    rw [UInt32.toNat_ofNat', Nat.mod_eq_of_lt hcount]
  have htype : (createiologforwrite seqNo abspath buf pos).logfile.hdr.ulType = logFileTypeWrite :=
    rfl
  have hdata : (createiologforwrite seqNo abspath buf pos).logfile.data.take
      (createiologforwrite seqNo abspath buf pos).logfile.hdr.writeLength.toNat = buf := by
    change buf.take (UInt32.ofNat buf.length).toNat = buf
    rw [hlen, List.take_length]
  have hoffset : (createiologforwrite seqNo abspath buf pos).logfile.hdr.writeByteOffset = pos :=
    rfl
  simp only [restore]
  rw [if_neg (Nat.not_le.mpr hfit), htype, if_neg (by decide), if_neg (by decide),
    if_neg (by decide), if_neg (by decide), if_neg (by decide), if_pos rfl, hdata, hoffset,
    openWrite, hfile]
  simp only
  rw [if_neg hne, if_pos hpos]

/-- A file system with the file `/a` of the contents `ab`. -/
def filesAB : Files := ignoring (FS.rootOnly.create [[97]] [97, 98]) FS.rootOnly

/-- The target directory `/`. -/
def rootDir : CString := ⟨[47], slash_noNul⟩

theorem rootDir_opens (buf : Bytes) (pos : UInt64) :
    RestoreOpens rootDir filesAB (createiologforwrite .zero nameA.toCString buf pos).logfile 0 := by
  change (rootDir.append
      (FieldString.clamp filereplMaxPath nameA.toCString).toCString).bytes.length <
      targetpathSize ∧ (follow filesAB (maxSymlinks + 1) (pathNames (rootDir.append
        (FieldString.clamp filereplMaxPath nameA.toCString).toCString).bytes)).bind filesAB.node =
          some (.file 0)
  decide +kernel

theorem vmallocTera_bounded (size : BitVec 64) (h : 2 ^ 63 ≤ size.toNat) :
    vmallocTera size = false := by
  rw [vmallocTera, decide_eq_false (p := size.toNat < 2 ^ 40) (by omega), Bool.and_false]

end RtBackup
