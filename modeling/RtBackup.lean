import RtBackup.Lib.PrefixOrder
import RtBackup.Lib.SearchTree
import RtBackup.Lib.ByteFile
import RtBackup.Lib.Runs
import RtBackup.Fruk
import RtBackup.Rb
import RtBackup.Lookup
import RtBackup.ConfigFile
import RtBackup.MonitorSet
import RtBackup.Change
import RtBackup.CreateIoLog
import RtBackup.HookVfs
import RtBackup.Integrity
import RtBackup.Counters
import RtBackup.SaveLoad
import RtBackup.Numbers
import RtBackup.Threads
import RtBackup.EffectOrder
import RtBackup.LogGaps
import RtBackup.CrashNumbers
import RtBackup.Lib.Mirror
import RtBackup.Lib.PathName
import RtBackup.Restore
import RtBackup.Replay
import RtBackup.Refusals
import RtBackup.TakesEffect
import RtBackup.DiskFollows
import RtBackup.Lib.WorkQueue
import RtBackup.WriteQueue
import RtBackup.SelfLogging
import RtBackup.LogConsumer
import RtBackup.Lib.BoundedReads
import RtBackup.Netlink
import RtBackup.GetPath
import RtBackup.HookBuffers
import RtBackup.Hijacks
import RtBackup.Lib.UndoLog
import RtBackup.Unload
import RtBackup.Lib.AddressSpace
import RtBackup.Relocation
import RtBackup.Lib.ErasingWalk
import RtBackup.LogNames
import RtBackup.RecordFormat
import RtBackup.RenameCoverage
import RtBackup.ShutdownStatus
import RtBackup.WriteRecord
import RtBackup.Lib.InPlace
import RtBackup.DeletionLoops
import RtBackup.Lib.PrefixSearch
import RtBackup.NameTree
import RtBackup.ItemRemoval
import RtBackup.Capture
import RtBackup.DentryWalk
import RtBackup.RecordTime
import RtBackup.Communicate
import RtBackup.BackSetInfo
import RtBackup.SetTransport
import RtBackup.Lib.Strides
import RtBackup.CopyBounds
import RtBackup.Lib.KeyedMap
import RtBackup.SetTree
import RtBackup.Displacement
import RtBackup.Lib.FirstPair
import RtBackup.Lib.TextFields
import RtBackup.Symbols
import RtBackup.Inat
import RtBackup.InsnDecoder
import RtBackup.Lib.Stages
import RtBackup.InsnFields
import RtBackup.InsnOpcode
import RtBackup.InsnPrefixes
import RtBackup.InsnFormat
import RtBackup.DecodedText
import RtBackup.Lib.Draining
import RtBackup.Lib.LossyLink
import RtBackup.NoticeContents
import RtBackup.ReceiveQueue
