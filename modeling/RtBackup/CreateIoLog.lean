import RtBackup.MonitorSet

/-!
# Log records (`createiolog.c`)

The nine functions that build a record differ in the record's type, in the path
that goes into the header and in what follows the header. Each of them is
`logRecord` with its own values. A record goes to the end of the write queue;
the allocation of the `LOG_FILE` buffer may fail.

Results:
1. `enqueueIolog_cases`: a builder appends its record or leaves the driver as it
   was and answers -1.
-/

namespace RtBackup

open ByteFile

/-! ## Building a record -/

/-- What the format `"%s%lld"` spells. -/
def formattedPath (iologdir : CString) (ullGlobalSeqNo : UInt64) : CString :=
  iologdir.append (.signed (Int.bmod ullGlobalSeqNo.toNat (2 ^ 64)))

/-- `snprintf(iologpath, NAME_MAX, "%s%lld", iologdir, ullGlobalSeqNo)`. -/
def iologPath (iologdir : CString) (ullGlobalSeqNo : UInt64) : CString :=
  (formattedPath iologdir ullGlobalSeqNo).take 254

theorem iologPath_eq_iff {iologdir : CString} {n : UInt64} :
    iologPath iologdir n = formattedPath iologdir n ↔
      (formattedPath iologdir n).bytes.length ≤ 254 := by
  rw [← List.take_eq_self_iff]
  exact ⟨fun h => congrArg CString.bytes h, fun h => CString.ext h⟩

/-- The fields that a builder gives values of its own. -/
structure LogFields where
  ulType : UInt32
  bIsDir : UInt32 := 0
  wszFilePath : CString
  writeLength : UInt32 := 0
  writeByteOffset : UInt64 := 0
  data : Bytes

/-- A record in a zeroed buffer of `LOG_FILE_HEADER_SIZE` bytes and the data. -/
def logRecord (seqNo : SeqNo) (fields : LogFields) : IowriteContext where
  iologpath := iologPath seqNo.iologdir seqNo.ullGlobalSeqNo
  logfile :=
    { hdr :=
        { ulHeaderSize := 312
          ulType := fields.ulType
          ullSeqNo := seqNo.ullSeqNo
          ullGolbalSeqNo := seqNo.ullGlobalSeqNo
          ulLogSize := UInt32.ofNat (1024 + fields.data.length)
          bIsDir := fields.bIsDir
          wszFilePath := .clamp _ fields.wszFilePath
          liSystemTime := seqNo.timesecs
          writeLength := fields.writeLength
          writeByteOffset := fields.writeByteOffset }
      data := fields.data }

/-- `Data` of a record without data: the one `ULONG` of `LOG_FILE`. -/
def noData : Bytes := [0, 0, 0, 0]

/-- `Data` of a record with a second path. -/
def pathData (path : CString) : Bytes := (path.take filereplMaxPath).bytes

def createiologformkdir (seqNo : SeqNo) (abspath : CString) : IowriteContext :=
  logRecord seqNo
    { ulType := logFileTypeNewfile, bIsDir := 1, wszFilePath := abspath, data := noData }

def createiologforcreatefile (seqNo : SeqNo) (abspath : CString) : IowriteContext :=
  logRecord seqNo { ulType := logFileTypeNewfile, wszFilePath := abspath, data := noData }

def createiologforrmdir (seqNo : SeqNo) (abspath : CString) : IowriteContext :=
  logRecord seqNo
    { ulType := logFileTypeDeletefile, bIsDir := 1, wszFilePath := abspath, data := noData }

def createiologforrmfile (seqNo : SeqNo) (abspath : CString) : IowriteContext :=
  logRecord seqNo { ulType := logFileTypeDeletefile, wszFilePath := abspath, data := noData }

def createiologforerror (seqNo : SeqNo) (abspath : CString) : IowriteContext :=
  logRecord seqNo { ulType := logFileTypeError, wszFilePath := abspath, data := noData }

def createiologforrename (seqNo : SeqNo) (oldabspath newabspath : CString) : IowriteContext :=
  logRecord seqNo
    { ulType := logFileTypeRenamefile, wszFilePath := oldabspath, data := pathData newabspath }

def createiologforcreatesymlink (seqNo : SeqNo) (symlinkabspath dstabspath : CString) :
    IowriteContext :=
  logRecord seqNo
    { ulType := logFileTypeSoftlink, wszFilePath := dstabspath, data := pathData symlinkabspath }

def createiologforcreatelink (seqNo : SeqNo) (linkabspath dstabspath : CString) : IowriteContext :=
  logRecord seqNo
    { ulType := logFileTypeHardlink, wszFilePath := dstabspath, data := pathData linkabspath }

def createiologforwrite (seqNo : SeqNo) (abspath : CString) (writebuff : Bytes) (pos : UInt64) :
    IowriteContext :=
  logRecord seqNo
    { ulType := logFileTypeWrite
      wszFilePath := abspath
      writeLength := UInt32.ofNat writebuff.length
      writeByteOffset := pos
      data := writebuff }

/-! ## The write queue -/

/-- The end of a builder: `list_add_tail` under `iowritequeuelock`, or -1 when
the buffer of the record could not be allocated. -/
def enqueueIolog (allocOk : Bool) (piowc : IowriteContext) (d : Driver) : Driver × Int :=
  if allocOk then ({ d with iowritequeue := d.iowritequeue ++ [piowc] }, 0) else (d, -1)

theorem enqueueIolog_cases (allocOk : Bool) (piowc : IowriteContext) (d : Driver) :
    (allocOk = true ∧
      enqueueIolog allocOk piowc d = ({ d with iowritequeue := d.iowritequeue ++ [piowc] }, 0)) ∨
    (allocOk = false ∧ enqueueIolog allocOk piowc d = (d, -1)) := by
  cases allocOk with
  | true => exact .inl ⟨rfl, rfl⟩
  | false => exact .inr ⟨rfl, rfl⟩

end RtBackup
