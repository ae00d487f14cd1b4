import Recovery.Lib.Der
import Recovery.Lib.LittleEndian
import Recovery.Lib.Fill
import Recovery.OtaUtil.AndroidBase
import Recovery.OtaUtil.RangeSet
import Recovery.Verifier.Asn1Decoder
import Recovery.Verifier.VerifyFile
import Recovery.Lib.Crash
import Recovery.BlockImg.Device
import Recovery.BlockImg.RangeSink
import Recovery.Lib.Run
import Recovery.BlockImg.NewData
import Recovery.BlockImg.NewDataStream
import Recovery.BlockImg.NewDataProgress
import Recovery.BlockImg.Stash
import Recovery.BlockImg.Commands
import Recovery.BlockImg.Update
import Recovery.BlockImg.SavedIndex
import Recovery.BlockImg.Steps
import Recovery.BlockImg.RunSteps
import Recovery.BlockImg.StashStore
import Recovery.BlockImg.VerifyRun
import Recovery.ApplyPatch.ApplyPatch
import Recovery.ApplyPatch.Effects
import Recovery.ApplyPatch.Interrupted
import Recovery.ApplyPatch.EmmcTarget
import Recovery.Settings.InfoManager
import Recovery.Settings.RoundTrip
import Recovery.Adbbu.Stream
import Recovery.Adbbu.Restore
import Recovery.Adbbu.Transparency
import Recovery.Sideload.FuseSideload
import Recovery.Sideload.Consistency
import Recovery.Lib.Walk
import Recovery.MtdUtils.MtdUtils
import Recovery.MtdUtils.RoundTrip
import Recovery.OtaUtil.SortedRangeSet
import Recovery.Lib.CInt
import Recovery.Gui.Terminal
import Recovery.Gui.TerminalBounds
import Recovery.Lib.Splice
import Recovery.Lib.Scanf
import Recovery.Uncrypt.BlockMap
import Recovery.OtaUtil.SysUtil
import Recovery.Lib.Coalesce
import Recovery.Uncrypt.ReadBack
import Recovery.Uncrypt.Produce
import Recovery.Uncrypt.RoundTrip
import Recovery.Adbbu.Backup
import Recovery.Adbbu.BackupRun
import Recovery.Adbbu.Delivery
import Recovery.Adbbu.RestoreRun
import Recovery.BlockImg.SinkWrites
import Recovery.BlockImg.SourceAssembly
import Recovery.ApplyPatch.ImgPatch
import Recovery.BlockImg.DiffCoverage
import Recovery.BootControl.BootControl
import Recovery.BootControl.Slots
import Recovery.Bcb.GetArgs
import Recovery.Bcb.Restart
import Recovery.Edify.Expr
import Recovery.Edify.Contract
import Recovery.Edify.Script
import Recovery.Lib.Text
import Recovery.StatusPipe.Pipe
import Recovery.StatusPipe.Framing
import Recovery.Digest.Driver
import Recovery.Digest.Coverage
import Recovery.Digest.Complete
import Recovery.Digest.Soundness
import Recovery.Lib.Heap
import Recovery.Mtp.Btree
import Recovery.Mtp.MtpStorage
import Recovery.Mtp.WellFormed
import Recovery.Mtp.Operations
import Recovery.Mtp.StorageRun
import Recovery.Verifier.SignedData
import Recovery.Lib.Access
import Recovery.Verifier.RawDecoder
import Recovery.Verifier.RawVerify
import Recovery.ApplyPatch.Flash
import Recovery.Sideload.Fidelity
import Recovery.ApplyPatch.ImgPatchReads
import Recovery.BlockImg.BrotliNewData
import Recovery.Lib.Fscanf
import Recovery.Verifier.LoadKeys
import Recovery.Verifier.KeyFile
import Recovery.Verifier.KeyList
import Recovery.ImgDiff.Inflate
import Recovery.ImgDiff.ImageMode
import Recovery.BlockImg.Locality
import Recovery.BlockImg.SourceBounds
import Recovery.BlockImg.SourcePath
import Recovery.BlockImg.PathBounds
import Recovery.BlockImg.CommandBounds
import Recovery.BlockImg.Malformed
import Recovery.BlockImg.CommandSafety
import Recovery.OtaUtil.Insertions
import Recovery.OtaUtil.RangeSplit
import Recovery.ApplyPatch.FreeCache
import Recovery.ApplyPatch.LoadPartition
import Recovery.OtaUtil.MapOwnership
import Recovery.OtaUtil.RangeText
import Recovery.Edify.Install
import Recovery.Edify.Arity
import Recovery.Adbbu.Listing
import Recovery.Edify.Lexer
import Recovery.Adbbu.RoundTrip
import Recovery.Lib.Files
import Recovery.Mtp.MtpServer
import Recovery.Mtp.Upload
import Recovery.Gui.LinePacking
import Recovery.Gui.Resync
import Recovery.Gui.Message
import Recovery.Gui.ScrollList
import Recovery.Gui.ScrollPosition
import Recovery.TwrpTar.TarList
import Recovery.TwrpTar.ThreadAssignment
import Recovery.TwrpTar.Archives
import Recovery.TwrpTar.TarWrite
import Recovery.MtdUtils.Backup
import Recovery.MtdUtils.BlockMapping
import Recovery.OpenRecoveryScript.Lines
import Recovery.OpenRecoveryScript.Buffers
import Recovery.Edify.Symlink
import Recovery.Gui.HitTest
import Recovery.Gui.WordWrap
import Recovery.OtaUtil.ZipUtil
import Recovery.Gui.InputHandler
import Recovery.Gui.TouchProtocol
import Recovery.Partitions.RunBackup
import Recovery.Partitions.BackupPlan
import Recovery.Fstab.Flags
import Recovery.Fstab.FlagText
import Recovery.Gui.ParseText
import Recovery.Gui.ThemeTermination
import Recovery.Gui.TextCursor
import Recovery.Lib.GridLine
import Recovery.Gui.PatternPassword
import Recovery.MinuiTwrp.VkModify
import Recovery.MinuiTwrp.TrueType
import Recovery.Lib.DList
import Recovery.MinuiTwrp.StringCache
import Recovery.MinuiTwrp.TextWidth
import Recovery.OzipDecrypt.OzipDecrypt
import Recovery.InjectTwrp.InjectTwrp
import Recovery.TwrpTar.Exclude
import Recovery.TwrpTar.BackupSize
import Recovery.Gui.Keyboard
import Recovery.Gui.KeyboardTouch
import Recovery.Lib.Dfs
import Recovery.FindFile.FindFile
import Recovery.FindFile.Paths
import Recovery.Lib.Layout
import Recovery.ScreenUi.TextScreen
import Recovery.ScreenUi.FilePager
import Recovery.ScreenUi.PagerRun
import Recovery.ScreenUi.Pages
import Recovery.BlockImg.Frame
import Recovery.Lib.MerkleDamgard
import Recovery.Lib.Montgomery
import Recovery.Lib.Probe
import Recovery.Lib.Trace
import Recovery.Mincrypt.Rsa
import Recovery.Minzip.Hash
import Recovery.Ui.Delivery
