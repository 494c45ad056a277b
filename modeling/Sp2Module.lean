import Sp2Module.Bytes
import Sp2Module.Alignment
import Sp2Module.Text
import Sp2Module.BinaryReader
import Sp2Module.NumberText
import Sp2Module.Utf8
import Sp2Module.Sha256
import Sp2Module.Lz4
import Sp2Module.BitMask
import Sp2Module.A64
import Sp2Module.A64Instruction
import Sp2Module.Runs
import Sp2Module.Throughout
import Sp2Module.Walk
import Sp2Module.Overrides
import Sp2Module.Nso
import Sp2Module.NsoImage
import Sp2Module.ModHeader
import Sp2Module.NsoFile
import Sp2Module.NsoRoundTrip
import Sp2Module.NsoBuffers
import Sp2Module.NsoResize
import Sp2Module.SymbolTable
import Sp2Module.NsoFlag
import Sp2Module.NsoCreate
import Sp2Module.NsoStream
import Sp2Module.AllocModObj
import Sp2Module.ModObjFile
import Sp2Module.ModHeaderRewrite
import Sp2Module.ModHeaderAtomic
import Sp2Module.DynamicTable
import Sp2Module.ModSection
import Sp2Module.AddSdk
import Sp2Module.ProcessMemory
import Sp2Module.ModuleAgreement
import Sp2Module.RegionScan
import Sp2Module.SmHandle
import Sp2Module.SmSession
import Sp2Module.ExeFSDirectory
import Sp2Module.ExeFS
import Sp2Module.ExeFSPlacement
import Sp2Module.AddressLookups
import Sp2Module.MemoryPages
import Sp2Module.ArmUtils
import Sp2Module.ArmEncodings
import Sp2Module.ArmWords
import Sp2Module.OrrImmediate
import Sp2Module.MovzMovk
import Sp2Module.AdrpAdd
import Sp2Module.ArmFields
import Sp2Module.ArmAccepted
import Sp2Module.PatchConfig
import Sp2Module.ListingFile
import Sp2Module.PatchScript
import Sp2Module.PatchGrammar
import Sp2Module.PatchText
import Sp2Module.PatchTarget
import Sp2Module.PatchBranch
import Sp2Module.PatchRejection
import Sp2Module.PatchRun
import Sp2Module.PatchedImage
import Sp2Module.Patcher
import Sp2Module.PatcherRun
import Sp2Module.PatcherReload
import Sp2Module.LoadedMemory
import Sp2Module.GameFunctions
import Sp2Module.RwDataNso
import Sp2Module.ReadExeFs
import Sp2Module.ReadExeFsRange
import Sp2Module.Pfs0
import Sp2Module.Pfs0Files
import Sp2Module.Pfs0RoundTrip
import Sp2Module.Pfs0Extraction
import Sp2Module.Pfs0Containment
import Sp2Module.ExeFSArchive
import Sp2Module.TcpLogger
import Sp2Module.TcpContents
import Sp2Module.TcpSession
import Sp2Module.LogFormat
import Sp2Module.FsSession
import Sp2Module.BitFields
import Sp2Module.WriteList
import Sp2Module.Ipc
import Sp2Module.IpcRoundTrip
import Sp2Module.GroupedTable
import Sp2Module.IpcCalls
import Sp2Module.IpcDomain
import Sp2Module.Switch
import Sp2Module.Newest
import Sp2Module.HidInput
import Sp2Module.HidHistory
import Sp2Module.RowSweep
import Sp2Module.Draw
import Sp2Module.Rectangle
import Sp2Module.DrawPoints
import Sp2Module.Pong
import Sp2Module.PongInvariant
import Sp2Module.PongFrame
import Sp2Module.PongInput
import Sp2Module.PongPace
