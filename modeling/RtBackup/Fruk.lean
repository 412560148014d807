import RtBackup.Lib.SearchTree
import RtBackup.Lib.ByteFile

/-!
# The structures of the driver (`fruk.h`, `usrlink.h`)

The data the driver keeps in memory, the records it writes to its
configuration file and to the log, and the netlink request. Structures are
packed, pointers have 8 bytes.

A pointer is the number of the allocation that returned it (`addr`), so that a
freed entry is one that no tree contains; the memory of a freed entry may be given
out again. On disk the tree links and the set
pointer of an entry are written as they are and overwritten after a read; the
codecs skip them.
-/

namespace RtBackup

open ByteFile SearchTree

/-! ## Identifiers and strings -/

/-- A GUID as the 16 bytes it has in memory: the driver only copies it and
compares it by `memcmp`. -/
structure GUID where
  image : Bytes
  size_eq : image.length = 16
deriving DecidableEq

theorem GUID.ext {g h : GUID} (e : g.image = h.image) : g = h := by
  cases g; cases h; simp_all

/-- `FILEREPL_MAX_PATH`, which is `MAX_PATH`. -/
abbrev filereplMaxPath : Nat := 260

/-- A `char[FILEREPL_MAX_PATH]` field. -/
abbrev FieldPath := FieldString filereplMaxPath

/-! ## Monitored sets and items -/

/-- What a `MONITOR_SET_ENTRY` says: a backup set with its log directory. -/
structure SetRecord where
  guidSetId : GUID
  wcsSetCacheDir : FieldPath
  ullSetSeqNo : UInt64
  ulFileCount : UInt32
deriving DecidableEq

/-- `MONITOR_SET_ENTRY` in memory. -/
structure MonitorSetEntry extends SetRecord where
  addr : Nat
deriving DecidableEq

/-- What a `MONITOR_FILE_ENTRY` says: a monitored file or directory. -/
structure FileRecord where
  guidSetId : GUID
  bInited : UInt32
  bMonitor : UInt32
  ullSeqNo : UInt64
  bDirectory : UInt32
  ulLength : UInt32
  wcsMonitorFile : FieldPath
deriving DecidableEq

/-- `MONITOR_FILE_ENTRY` in memory. -/
structure MonitorFileEntry extends FileRecord where
  addr : Nat
  pSetEntry : Option Nat
deriving DecidableEq

/-- `MONITOR_ITEM_DATA`: one tree with its counter. -/
structure MonitorItemData (α : Type) where
  ulCounts : UInt32
  rbTree : RbTree α

/-- The entries of a tree in order. -/
def MonitorItemData.entries {α : Type} (items : MonitorItemData α) : List α :=
  items.rbTree.toList

/-! ## Log records -/

/-- `LOG_FILE_HEADER`. -/
structure LogFileHeader where
  ulHeaderSize : UInt32
  ulType : UInt32
  ullSeqNo : UInt64
  ullGolbalSeqNo : UInt64
  ulLogSize : UInt32
  bIsDir : UInt32
  wszFilePath : FieldPath
  liSystemTime : UInt64
  writeLength : UInt32
  writeByteOffset : UInt64
deriving DecidableEq

/-- `LOG_FILE`; `data` is what follows the 1024 bytes of header. -/
structure LogFile where
  hdr : LogFileHeader
  data : Bytes
deriving DecidableEq

/-- `IOWRITE_CONTEXT`: a record on its way to its log file. -/
structure IowriteContext where
  iologpath : CString
  logfile : LogFile
deriving DecidableEq

def logFileTypeWrite : UInt32 := 1
def logFileTypeNewfile : UInt32 := 4
def logFileTypeDeletefile : UInt32 := 5
def logFileTypeRenamefile : UInt32 := 6
def logFileTypeHardlink : UInt32 := 8
def logFileTypeSoftlink : UInt32 := 9
def logFileTypeError : UInt32 := 10

/-! ## Configuration file -/

/-- `CONFIG_FILE_HEADER`. -/
structure ConfigFileHeader where
  ulHeaderSize : UInt32
  ulOffsetSet : UInt32
  ulSizeSet : UInt32
  ulOffsetFiles : UInt32
  ulSizeFiles : UInt32
  ulLastShutdownStatus : UInt32
deriving DecidableEq

def guidCodec : Codec GUID where
  size := 16
  enc g := g.image
  dec bs := ⟨(bs ++ List.replicate 16 0).take 16, by simp⟩
  enc_length g := g.size_eq
  dec_enc g := GUID.ext (List.take_left' g.size_eq)

/-- A `MONITOR_SET_ENTRY` on disk, 312 bytes. -/
def setCodec : Codec SetRecord :=
  ((Codec.pad 24).pair (guidCodec.pair ((Codec.field 260).pair (Codec.u64.pair Codec.u32)))).conv
    (fun s => ((), s.guidSetId, s.wcsSetCacheDir, s.ullSetSeqNo, s.ulFileCount))
    (fun p => ⟨p.2.1, p.2.2.1, p.2.2.2.1, p.2.2.2.2⟩)
    (fun _ => rfl)

/-- A `MONITOR_FILE_ENTRY` on disk, 332 bytes. -/
def fileCodec : Codec FileRecord :=
  ((Codec.pad 24).pair (guidCodec.pair (Codec.u32.pair (Codec.u32.pair (Codec.u64.pair
    (Codec.u32.pair (Codec.u32.pair ((Codec.field 260).pair (Codec.pad 8))))))))).conv
    (fun e => ((), e.guidSetId, e.bInited, e.bMonitor, e.ullSeqNo, e.bDirectory, e.ulLength,
      e.wcsMonitorFile, ()))
    (fun p => ⟨p.2.1, p.2.2.1, p.2.2.2.1, p.2.2.2.2.1, p.2.2.2.2.2.1, p.2.2.2.2.2.2.1,
      p.2.2.2.2.2.2.2.1⟩)
    (fun _ => rfl)

/-- The header on disk, 24 bytes. -/
def headerCodec : Codec ConfigFileHeader :=
  (Codec.u32.pair (Codec.u32.pair (Codec.u32.pair (Codec.u32.pair
    (Codec.u32.pair Codec.u32))))).conv
    (fun h => (h.ulHeaderSize, h.ulOffsetSet, h.ulSizeSet, h.ulOffsetFiles, h.ulSizeFiles,
      h.ulLastShutdownStatus))
    (fun p => ⟨p.1, p.2.1, p.2.2.1, p.2.2.2.1, p.2.2.2.2.1, p.2.2.2.2.2⟩)
    (fun _ => rfl)

@[simp] theorem setCodec_size : setCodec.size = 312 := rfl
@[simp] theorem fileCodec_size : fileCodec.size = 332 := rfl
@[simp] theorem headerCodec_size : headerCodec.size = 24 := rfl

/-! ## Requests -/

def filterTypeFile : UInt32 := 0
def filterTypeDir : UInt32 := 1

/-- `FILTER_ITEM`. -/
structure FilterItem where
  ulFileType : UInt32
  wszFilterName : FieldPath
deriving DecidableEq

/-- `REALTIME_BACKUP_DATA`; `ulFilterItemCounts` is the length of the list. -/
structure RealtimeBackupData where
  guidSetId : GUID
  wszBakCacheDir : FieldPath
  filterItems : List FilterItem
deriving DecidableEq

/-! ## The driver -/

/-- `FILEREPL_DATA` and what the driver uses beside it: the content of
`/etc/rtb.cnf` and the number of entry allocations made. -/
structure Driver where
  monitorFiles : MonitorItemData MonitorFileEntry
  monitorSet : MonitorItemData MonitorSetEntry
  bValid : Bool
  bNormalRunning : Bool
  dwLastNormalShutdown : UInt32
  iowritequeue : List IowriteContext
  cnf : Bytes
  nalloc : Nat

/-- What the kernel gives the driver: the tree library, the outcome of each
allocation of an entry and the memory that it is given, what a pointer to a freed
set finds (slab memory stays readable), the word size of a C `long`, and the value
that the address of `mfe.wcsMonitorFile` has as an `int`. -/
structure Env where
  rb : RbLib
  allocOk : Nat → Bool
  memory : Nat → Nat
  freed : Driver → Nat → SetRecord
  longBits : Nat
  mfeAddress : Int

/-- `EntryAlloc`: a zeroed entry with a new address, or `NULL`. -/
def entryAlloc (env : Env) (d : Driver) : Driver × Option Nat :=
  ({ d with nalloc := d.nalloc + 1 }, if env.allocOk d.nalloc then some d.nalloc else none)

/-- The sets and the items of a driver, in the order of their trees. -/
def Driver.sets (d : Driver) : List MonitorSetEntry := d.monitorSet.entries
def Driver.files (d : Driver) : List MonitorFileEntry := d.monitorFiles.entries

end RtBackup
