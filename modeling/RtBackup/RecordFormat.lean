import RtBackup.LogConsumer
import RtBackup.Lookup
import RtBackup.Restore

/-!
# Log files as bytes (`createiolog.c`, `test/RestoreIolog.c`)

A log file is the packed header of 312 bytes, filled up to 1024 bytes, and the
data. `main` of `RestoreIolog` allocates the `ulLogSize` bytes that the header
names and reads them; `restore` takes `wszFilePath`, and `Data` of a record with
a second path, for strings.

The builders copy the bytes of a path without its end, at most 260 of them.
`wszFilePath` is in zeroed memory and has an end unless the path fills it. For
the second path the record has no byte more than the path.

Results:
1. `freadIolog_image`: the reader gets the bytes of the record.
2. `record_recovered_iff`: the requests whose record is read back as it was built.
3. `path_fields_eq_iff`: the requests whose records name the same paths.
-/

namespace RtBackup

open ByteFile

/-! ## The file -/

/-- `LOG_FILE_HEADER`, 312 bytes. -/
def logHeaderCodec : Codec LogFileHeader :=
  (Codec.u32.pair (Codec.u32.pair (Codec.u64.pair (Codec.u64.pair (Codec.u32.pair (Codec.u32.pair
    ((Codec.field 260).pair (Codec.u64.pair (Codec.u32.pair Codec.u64))))))))).conv
    (fun h => (h.ulHeaderSize, h.ulType, h.ullSeqNo, h.ullGolbalSeqNo, h.ulLogSize, h.bIsDir,
      h.wszFilePath, h.liSystemTime, h.writeLength, h.writeByteOffset))
    (fun p => ⟨p.1, p.2.1, p.2.2.1, p.2.2.2.1, p.2.2.2.2.1, p.2.2.2.2.2.1, p.2.2.2.2.2.2.1,
      p.2.2.2.2.2.2.2.1, p.2.2.2.2.2.2.2.2.1, p.2.2.2.2.2.2.2.2.2⟩)
    (fun _ => rfl)

@[simp] theorem logHeaderCodec_size : logHeaderCodec.size = sizeofLogFileHeader := rfl

/-- The offset of `wszFilePath` in `LOG_FILE_HEADER`. -/
def wszFilePathOffset : Nat := 32

/-- `LOG_FILE_HEADER_SIZE`, the offset of `Data` in `LOG_FILE`. -/
def logFileHeaderSize : Nat := 1024

/-- The bytes of a `LOG_FILE`, which `createiolog` writes to its file. -/
def LogFile.image (iologfile : LogFile) : Bytes :=
  logHeaderCodec.enc iologfile.hdr ++
    (List.replicate (logFileHeaderSize - sizeofLogFileHeader) 0 ++ iologfile.data)

def headerAt (mem : Bytes) : LogFileHeader := logHeaderCodec.dec (mem.take sizeofLogFileHeader)

/-- `main` up to `restore`: the allocation that it passes on. -/
def freadIolog (file : Bytes) : Option Bytes :=
  if (file.take sizeofLogFileHeader).length ≠ sizeofLogFileHeader then none
  else
    let ulLogSize := (headerAt file).ulLogSize.toNat
    if (file.take ulLogSize).length ≠ ulLogSize then none else some (file.take ulLogSize)

/-- The string at an offset of an allocation, none when it has no end there. -/
def stringAt (mem : Bytes) (off : Nat) : Option CString :=
  if 0 ∈ mem.drop off then some (dataString (mem.drop off)) else none

/-- A string that ends in its field of `size` bytes. -/
def stringInField (mem : Bytes) (off size : Nat) : Option CString :=
  (stringAt mem off).filter fun s => s.bytes.length < size

theorem LogFile.image_length (iologfile : LogFile) :
    iologfile.image.length = logFileHeaderSize + iologfile.data.length := by
  rw [image, List.length_append, List.length_append, logHeaderCodec.enc_length,
    List.length_replicate, logHeaderCodec_size, ← Nat.add_assoc]
  rfl

theorem image_take_header (iologfile : LogFile) :
    iologfile.image.take sizeofLogFileHeader = logHeaderCodec.enc iologfile.hdr :=
  List.take_left' (logHeaderCodec.enc_length _)

theorem headerAt_image (iologfile : LogFile) : headerAt iologfile.image = iologfile.hdr := by
  rw [headerAt, image_take_header, logHeaderCodec.dec_enc]

theorem image_drop_data (iologfile : LogFile) :
    iologfile.image.drop logFileHeaderSize = iologfile.data := by
  have hlen : (logHeaderCodec.enc iologfile.hdr ++
      List.replicate (logFileHeaderSize - sizeofLogFileHeader) 0).length = logFileHeaderSize := by
    rw [List.length_append, logHeaderCodec.enc_length, List.length_replicate]
    rfl
  rw [LogFile.image, ← List.append_assoc, List.drop_left' hlen]

/-- The field of the path, and what is behind it. -/
theorem image_drop_path (iologfile : LogFile) :
    ∃ behind, iologfile.image.drop wszFilePathOffset =
      iologfile.hdr.wszFilePath.toField ++ behind := by
  let hdr := iologfile.hdr
  let before := Codec.u32.enc hdr.ulHeaderSize ++ (Codec.u32.enc hdr.ulType ++
    (Codec.u64.enc hdr.ullSeqNo ++ (Codec.u64.enc hdr.ullGolbalSeqNo ++
      (Codec.u32.enc hdr.ulLogSize ++ Codec.u32.enc hdr.bIsDir))))
  let behind := Codec.u64.enc hdr.liSystemTime ++
    (Codec.u32.enc hdr.writeLength ++ Codec.u64.enc hdr.writeByteOffset)
  have henc : logHeaderCodec.enc hdr = before ++ (hdr.wszFilePath.toField ++ behind) := by
    simp only [before, List.append_assoc]
    rfl
  have hbefore : before.length = wszFilePathOffset := by
    simp only [before, List.length_append, Codec.enc_length]
    rfl
  refine ⟨behind ++ (List.replicate (logFileHeaderSize - sizeofLogFileHeader) 0 ++
    iologfile.data), ?_⟩
  rw [LogFile.image, henc, List.append_assoc, List.drop_left' hbefore, List.append_assoc]

/-- A file that has its whole record is read. -/
theorem freadIolog_image {iologfile : LogFile}
    (h : iologfile.hdr.ulLogSize.toNat = iologfile.image.length) :
    freadIolog iologfile.image = some iologfile.image := by
  have hheader : (iologfile.image.take sizeofLogFileHeader).length = sizeofLogFileHeader := by
    rw [image_take_header, logHeaderCodec.enc_length]
    rfl
  rw [freadIolog, if_neg (not_not.mpr hheader), headerAt_image, h]
  simp only [List.take_length, ne_eq, not_true, if_false]

/-! ## Strings -/

/-- What stands behind the end of a string is not read. -/
theorem cut_append_zero {bs : Bytes} (h : 0 ∉ bs) (rest : Bytes) : cut (bs ++ 0 :: rest) = bs := by
  have hall : ∀ b ∈ bs, decide (b ≠ 0) = true := fun b hb =>
    decide_eq_true (ne_of_mem_of_not_mem hb h)
  rw [cut, List.takeWhile_append_of_pos hall]
  exact List.append_nil bs

theorem stringAt_eq_none {mem : Bytes} {off : Nat} (h : 0 ∉ mem.drop off) :
    stringAt mem off = none :=
  if_neg h

theorem stringAt_eq_some {mem : Bytes} {off : Nat} {s : CString} {rest : Bytes}
    (h : mem.drop off = s.bytes ++ 0 :: rest) : stringAt mem off = some s := by
  have hcut : cut (mem.drop off) = s.bytes := h ▸ cut_append_zero s.noNul rest
  rw [stringAt, if_pos (h ▸ List.mem_append_right _ List.mem_cons_self)]
  exact congrArg some (CString.ext hcut)

theorem lt_of_stringInField {mem : Bytes} {off size : Nat} {s : CString}
    (h : stringInField mem off size = some s) : s.bytes.length < size :=
  of_decide_eq_true (Option.filter_eq_some_iff.mp h).2

theorem stringInField_eq_some {mem : Bytes} {off size : Nat} {s : CString} {rest : Bytes}
    (h : mem.drop off = s.bytes ++ 0 :: rest) (hsize : s.bytes.length < size) :
    stringInField mem off size = some s :=
  Option.filter_eq_some_iff.mpr ⟨stringAt_eq_some h, decide_eq_true hsize⟩

theorem stringInField_eq_none {mem : Bytes} {off size : Nat} (h : 0 ∉ mem.drop off) :
    stringInField mem off size = none := by
  rw [stringInField, stringAt_eq_none h]
  rfl

/-- The path of a record whose field is not full. -/
theorem stringInField_wszFilePath {iologfile : LogFile}
    (h : iologfile.hdr.wszFilePath.bytes.length < filereplMaxPath) :
    stringInField iologfile.image wszFilePathOffset filereplMaxPath =
      some iologfile.hdr.wszFilePath.toCString := by
  obtain ⟨behind, hdrop⟩ := image_drop_path iologfile
  obtain ⟨k, hk⟩ := Nat.exists_eq_add_one.mpr (Nat.sub_pos_of_lt h)
  have hfield : iologfile.hdr.wszFilePath.toField ++ behind =
      iologfile.hdr.wszFilePath.bytes ++ 0 :: (List.replicate k 0 ++ behind) := by
    rw [FieldString.toField, hk, List.replicate_succ, List.append_assoc, List.cons_append]
  exact stringInField_eq_some (hdrop.trans hfield) h

/-- A second path has no end in its record. -/
theorem stringInField_pathData {iologfile : LogFile} {path : CString}
    (h : iologfile.data = pathData path) (size : Nat) :
    stringInField iologfile.image logFileHeaderSize size = none := by
  refine stringInField_eq_none ?_
  rw [image_drop_data, h]
  exact (path.take filereplMaxPath).noNul

/-! ## The nine builders -/

/-- The functions that build a record. -/
inductive IologBuilder
  | mkdir
  | createfile
  | rmdir
  | rmfile
  | error
  | rename
  | createsymlink
  | createlink
  | write
  deriving DecidableEq

/-- A call of a builder. -/
inductive IologRequest
  | mkdir (abspath : CString)
  | createfile (abspath : CString)
  | rmdir (abspath : CString)
  | rmfile (abspath : CString)
  | error (abspath : CString)
  | rename (oldabspath newabspath : CString)
  | createsymlink (symlinkabspath dstabspath : CString)
  | createlink (linkabspath dstabspath : CString)
  | write (abspath : CString) (writebuff : Bytes) (pos : UInt64)

namespace IologRequest

def builder : IologRequest → IologBuilder
  | mkdir _ => .mkdir
  | createfile _ => .createfile
  | rmdir _ => .rmdir
  | rmfile _ => .rmfile
  | error _ => .error
  | rename _ _ => .rename
  | createsymlink _ _ => .createsymlink
  | createlink _ _ => .createlink
  | write _ _ _ => .write

def record (seqNo : SeqNo) : IologRequest → IowriteContext
  | mkdir abspath => createiologformkdir seqNo abspath
  | createfile abspath => createiologforcreatefile seqNo abspath
  | rmdir abspath => createiologforrmdir seqNo abspath
  | rmfile abspath => createiologforrmfile seqNo abspath
  | error abspath => createiologforerror seqNo abspath
  | rename oldabspath newabspath => createiologforrename seqNo oldabspath newabspath
  | createsymlink symlinkabspath dstabspath =>
    createiologforcreatesymlink seqNo symlinkabspath dstabspath
  | createlink linkabspath dstabspath => createiologforcreatelink seqNo linkabspath dstabspath
  | write abspath writebuff pos => createiologforwrite seqNo abspath writebuff pos

/-- The path for the header. -/
def firstPath : IologRequest → CString
  | mkdir abspath | createfile abspath | rmdir abspath | rmfile abspath | error abspath => abspath
  | rename oldabspath _ => oldabspath
  | createsymlink _ dstabspath | createlink _ dstabspath => dstabspath
  | write abspath _ _ => abspath

/-- The path for `Data`. -/
def secondPath : IologRequest → Option CString
  | rename _ newabspath => some newabspath
  | createsymlink symlinkabspath _ => some symlinkabspath
  | createlink linkabspath _ => some linkabspath
  | _ => none

/-- The bytes that are written, and where. -/
def payload : IologRequest → Bytes
  | write _ writebuff _ => writebuff
  | _ => []

def offset : IologRequest → UInt64
  | write _ _ pos => pos
  | _ => 0

end IologRequest

namespace IologBuilder

def ulType : IologBuilder → UInt32
  | mkdir | createfile => logFileTypeNewfile
  | rmdir | rmfile => logFileTypeDeletefile
  | error => logFileTypeError
  | rename => logFileTypeRenamefile
  | createsymlink => logFileTypeSoftlink
  | createlink => logFileTypeHardlink
  | write => logFileTypeWrite

def bIsDir : IologBuilder → UInt32
  | mkdir | rmdir => 1
  | _ => 0

end IologBuilder

/-- The header of a record has the numbers of its request. -/
theorem record_hdr (request : IologRequest) (seqNo : SeqNo) :
    (request.record seqNo).logfile.hdr =
      { ulHeaderSize := 312
        ulType := request.builder.ulType
        ullSeqNo := seqNo.ullSeqNo
        ullGolbalSeqNo := seqNo.ullGlobalSeqNo
        ulLogSize := UInt32.ofNat (1024 + (request.record seqNo).logfile.data.length)
        bIsDir := request.builder.bIsDir
        wszFilePath := .clamp _ request.firstPath
        liSystemTime := seqNo.timesecs
        writeLength := UInt32.ofNat request.payload.length
        writeByteOffset := request.offset } := by
  cases request <;> rfl

/-- Behind the header there are the second path, the payload, or four zeros. -/
theorem record_data (request : IologRequest) (seqNo : SeqNo) :
    (∃ path, request.secondPath = some path ∧ request.payload = [] ∧
      (request.record seqNo).logfile.data = pathData path) ∨
    (request.secondPath = none ∧ ∃ behind, (request.record seqNo).logfile.data =
      request.payload ++ behind ∧ behind.length ≤ 4) := by
  cases request with
  | rename oldabspath newabspath => exact .inl ⟨newabspath, rfl, rfl, rfl⟩
  | createsymlink symlinkabspath dstabspath => exact .inl ⟨symlinkabspath, rfl, rfl, rfl⟩
  | createlink linkabspath dstabspath => exact .inl ⟨linkabspath, rfl, rfl, rfl⟩
  | write abspath writebuff pos =>
    exact .inr ⟨rfl, [], (List.append_nil writebuff).symm, Nat.zero_le _⟩
  | mkdir abspath | createfile abspath | rmdir abspath | rmfile abspath | error abspath =>
    exact .inr ⟨rfl, noData, rfl, Nat.le_refl _⟩

/-! ## Reading a record back -/

/-- What `restore` finds in an allocation is what went into the record. -/
structure Recovered (seqNo : SeqNo) (request : IologRequest) (mem : Bytes) : Prop where
  ulHeaderSize : (headerAt mem).ulHeaderSize.toNat = sizeofLogFileHeader
  ulType : (headerAt mem).ulType = request.builder.ulType
  bIsDir : (headerAt mem).bIsDir = request.builder.bIsDir
  ullSeqNo : (headerAt mem).ullSeqNo = seqNo.ullSeqNo
  ullGolbalSeqNo : (headerAt mem).ullGolbalSeqNo = seqNo.ullGlobalSeqNo
  liSystemTime : (headerAt mem).liSystemTime = seqNo.timesecs
  ulLogSize : (headerAt mem).ulLogSize.toNat = mem.length
  wszFilePath : stringInField mem wszFilePathOffset filereplMaxPath = some request.firstPath
  secondPath : ∀ path, request.secondPath = some path →
    stringInField mem logFileHeaderSize (mem.length - logFileHeaderSize) = some path
  writeByteOffset : (headerAt mem).writeByteOffset = request.offset
  writeLength : (headerAt mem).writeLength.toNat = request.payload.length
  payload : pread mem logFileHeaderSize (headerAt mem).writeLength.toNat = request.payload

section

variable {request : IologRequest} (hpayload : request.payload.length < 2 ^ 31 - 1024)

include hpayload

/-- The size in the header is that of the image. -/
theorem record_logSize (seqNo : SeqNo) :
    (request.record seqNo).logfile.hdr.ulLogSize.toNat =
      (request.record seqNo).logfile.image.length := by
  have hdata : (request.record seqNo).logfile.data.length < 2 ^ 31 := by
    rcases record_data request seqNo with ⟨path, -, -, heq⟩ | ⟨-, behind, heq, hbehind⟩
    · have hpath : (pathData path).length ≤ filereplMaxPath := List.length_take_le _ _
      rw [heq]
      exact Nat.lt_of_le_of_lt hpath (by decide)
    · rw [heq, List.length_append]
      omega
  have hsize : 1024 + (request.record seqNo).logfile.data.length < 2 ^ 32 := by omega
  rw [record_hdr, LogFile.image_length]
  exact Nat.mod_eq_of_lt hsize

theorem record_recovered {seqNo : SeqNo} (hfirst : request.firstPath.bytes.length < filereplMaxPath)
    (hsecond : request.secondPath = none) :
    Recovered seqNo request (request.record seqNo).logfile.image := by
  have hclamp : (FieldString.clamp filereplMaxPath request.firstPath).toCString =
      request.firstPath := clamp_eq (Nat.le_of_lt hfirst)
  have hlength : (UInt32.ofNat request.payload.length).toNat = request.payload.length :=
    Nat.mod_eq_of_lt (by omega)
  have hpath : (request.record seqNo).logfile.hdr.wszFilePath =
      .clamp filereplMaxPath request.firstPath := by rw [record_hdr]
  obtain ⟨-, behind, hdata, -⟩ : request.secondPath = none ∧ _ := by
    refine (record_data request seqNo).resolve_left ?_
    rintro ⟨path, hsome, -⟩
    exact absurd (hsecond.symm.trans hsome) nofun
  constructor
  case wszFilePath =>
    have hlt : (request.record seqNo).logfile.hdr.wszFilePath.bytes.length < filereplMaxPath := by
      rw [hpath, hclamp]
      exact hfirst
    rw [stringInField_wszFilePath hlt, hpath, hclamp]
  case secondPath => exact fun path hsome => absurd (hsecond.symm.trans hsome) nofun
  case ulLogSize =>
    rw [headerAt_image]
    exact record_logSize hpayload seqNo
  case payload =>
    rw [headerAt_image, record_hdr, hlength, pread, image_drop_data, hdata, List.take_left]
  all_goals rw [headerAt_image, record_hdr]
  case ulHeaderSize => rfl
  case writeLength => exact hlength

end

/-- A request with a second path, however short the paths are. -/
theorem second_path_lost {request : IologRequest} {path : CString}
    (hsecond : request.secondPath = some path) (seqNo : SeqNo) :
    ¬Recovered seqNo request (request.record seqNo).logfile.image := by
  intro hrec
  rcases record_data request seqNo with ⟨path', -, -, hdata⟩ | ⟨hnone, -⟩
  · have hread := hrec.secondPath path hsecond
    rw [stringInField_pathData hdata] at hread
    exact absurd hread nofun
  · exact absurd (hnone.symm.trans hsecond) nofun

/-- For every call of a builder: the reader gets the record, and finds in it what
was put there exactly if the path leaves a byte of its field free and there is no
second path. -/
theorem record_recovered_iff {request : IologRequest}
    (hpayload : request.payload.length < 2 ^ 31 - 1024) (seqNo : SeqNo) :
    (∃ mem, freadIolog (request.record seqNo).logfile.image = some mem ∧
      Recovered seqNo request mem) ↔
    request.firstPath.bytes.length < filereplMaxPath ∧ request.secondPath = none := by
  rw [freadIolog_image (record_logSize hpayload seqNo)]
  constructor
  · rintro ⟨mem, hmem, hrec⟩
    obtain rfl := Option.some.inj hmem
    refine ⟨lt_of_stringInField hrec.wszFilePath, Option.eq_none_iff_forall_ne_some.mpr ?_⟩
    exact fun path hsome => second_path_lost hsome seqNo hrec
  · rintro ⟨hlt, hnone⟩
    exact ⟨_, rfl, record_recovered hpayload hlt hnone⟩

/-- A write to `/a`. -/
theorem record_recovered_iff_write :
    (∃ mem, freadIolog ((IologRequest.write nameA.toCString [99] 2).record .zero).logfile.image =
        some mem ∧ Recovered .zero (.write nameA.toCString [99] 2) mem) ↔
      nameA.bytes.length < filereplMaxPath ∧
        (IologRequest.write nameA.toCString [99] 2).secondPath = none :=
  @record_recovered_iff (.write nameA.toCString [99] 2) (by decide) .zero

/-- The new path `/c` of a rename runs over the end of the record. -/
theorem rename_not_recovered :
    (∃ mem, freadIolog ((IologRequest.rename nameA.toCString nameC.toCString).record
        .zero).logfile.image = some mem ∧ stringAt mem logFileHeaderSize = none) ∧
    ¬∃ mem, freadIolog ((IologRequest.rename nameA.toCString nameC.toCString).record
        .zero).logfile.image = some mem ∧
      Recovered .zero (.rename nameA.toCString nameC.toCString) mem := by
  have hread : freadIolog ((IologRequest.rename nameA.toCString nameC.toCString).record
      .zero).logfile.image = some _ := freadIolog_image (record_logSize (by decide) .zero)
  refine ⟨⟨_, hread, stringAt_eq_none ?_⟩, ?_⟩
  · rw [image_drop_data]
    decide
  · rintro ⟨mem, hmem, hrec⟩
    obtain rfl := Option.some.inj (hread.symm.trans hmem)
    exact second_path_lost rfl .zero hrec

/-! ## Paths that records tell apart -/

/-- The fields of a record that name files: `wszFilePath`, and `Data` for a second
path. -/
def LogFile.pathFields (iologfile : LogFile) : FieldPath × Option Bytes :=
  (iologfile.hdr.wszFilePath,
    if iologfile.hdr.ulType ∈ [logFileTypeRenamefile, logFileTypeSoftlink, logFileTypeHardlink]
    then some iologfile.data else none)

theorem record_pathFields (request : IologRequest) (seqNo : SeqNo) :
    (request.record seqNo).logfile.pathFields =
      (.clamp filereplMaxPath request.firstPath, request.secondPath.map pathData) := by
  cases request <;> rfl

theorem clamp_eq_iff {p q : CString} :
    FieldString.clamp filereplMaxPath p = .clamp filereplMaxPath q ↔
      p.take filereplMaxPath = q.take filereplMaxPath :=
  ⟨fun h => congrArg FieldString.toCString h, fun h => FieldString.ext (congrArg CString.bytes h)⟩

theorem map_pathData_eq_iff {p q : Option CString} :
    p.map pathData = q.map pathData ↔
      p.map (·.take filereplMaxPath) = q.map (·.take filereplMaxPath) := by
  have hinj : Function.Injective CString.bytes := fun _ _ => CString.ext
  have hmap : ∀ o : Option CString,
      o.map pathData = (o.map (·.take filereplMaxPath)).map CString.bytes := by
    intro o
    rw [Option.map_map]
    rfl
  rw [hmap, hmap]
  exact (Option.map_injective hinj).eq_iff

/-- The records of two requests have the same path fields exactly if both paths
are the same in their first 260 bytes. -/
theorem path_fields_eq_iff (request request' : IologRequest) (seqNo seqNo' : SeqNo) :
    (request.record seqNo).logfile.pathFields = (request'.record seqNo').logfile.pathFields ↔
      request.firstPath.take filereplMaxPath = request'.firstPath.take filereplMaxPath ∧
      request.secondPath.map (·.take filereplMaxPath) =
        request'.secondPath.map (·.take filereplMaxPath) := by
  rw [record_pathFields, record_pathFields, Prod.mk.injEq, clamp_eq_iff, map_pathData_eq_iff]

/-- A directory below `/a` and the beginning of a name in it, 260 bytes. -/
def longPrefix : CString where
  bytes := [47, 97, 47] ++ List.replicate 200 97 ++ 47 :: List.replicate 56 97
  noNul := by decide

/-- A path below `/a` of 261 bytes that ends with `last`. -/
def longPath (last : UInt8) (h : last ≠ 0) : CString :=
  longPrefix.append ⟨[last], fun h0 => h (List.mem_singleton.mp h0).symm⟩

/-- Two files below `/a` are removed, and the records are the same. -/
theorem long_paths_same_record :
    longPath 98 (by decide) ≠ longPath 99 (by decide) ∧
    (longPath 98 (by decide)).bytes.length < 4096 ∧
    (longPath 99 (by decide)).bytes.length < 4096 ∧
    ((IologRequest.rmfile (longPath 98 (by decide))).record .zero).logfile.pathFields =
      ((IologRequest.rmfile (longPath 99 (by decide))).record .zero).logfile.pathFields := by
  decide +kernel

end RtBackup
