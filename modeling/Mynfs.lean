import Mynfs.Theorems.CopyOffload
import Mynfs.Theorems.OooGaps
import Mynfs.Theorems.SlotSequence
import Mynfs.Theorems.OpenModes
import Mynfs.Theorems.DirectWrite
import Mynfs.Theorems.RecallSeqid
import Mynfs.Theorems.IdmapNumeric
import Mynfs.Theorems.LayoutPageio
import Mynfs.Theorems.ReadPlus
import Mynfs.Theorems.AccessCache
import Mynfs.Theorems.ActiveStateid
import Mynfs.Theorems.BufferedRead
import Mynfs.Theorems.SessionChannels
import Mynfs.Theorems.SlotPrivilege
import Mynfs.Theorems.LayoutSegments
import Mynfs.Theorems.IoExclusion
import Mynfs.Theorems.CopyCommit
import Mynfs.Theorems.FsyncStable
import Mynfs.Theorems.LayoutRequest
import Mynfs.Theorems.CallbackBitmap
import Mynfs.Theorems.DeviceNotify
import Mynfs.Theorems.LayoutRefs
import Mynfs.Theorems.LayoutDrain
import Mynfs.Theorems.DirSeek
import Mynfs.Theorems.PageSplit
import Mynfs.Theorems.WriteCompletion
import Mynfs.Theorems.CopyRecover
import Mynfs.Theorems.CallbackGetattr
import Mynfs.Theorems.RwStateid
import Mynfs.Theorems.WritersFirst
import Mynfs.Theorems.RefreshStateid
import Mynfs.Theorems.SessionDrain
import Mynfs.Theorems.DsCommits
import Mynfs.Theorems.InvalidMapping
import Mynfs.Theorems.DsConnect
import Mynfs.Theorems.IdmapUpcall
import Mynfs.Theorems.MountOptions
import Mynfs.Theorems.UpdateInode
import Mynfs.Theorems.IdmapMessage
import Mynfs.Theorems.DsAddr
import Mynfs.Theorems.LayoutRecall
import Mynfs.Theorems.ExportFh
import Mynfs.Theorems.CallbackFh
import Mynfs.Theorems.FsContext
import Mynfs.Theorems.DelegationRecall
import Mynfs.Theorems.DelegationReap
import Mynfs.Theorems.LockRange
import Mynfs.Theorems.WriteMerge
import Mynfs.Theorems.Timeouts
import Mynfs.Theorems.TransferSizes
import Mynfs.Theorems.PathText
