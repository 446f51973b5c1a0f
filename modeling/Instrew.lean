import Instrew.Basic
import Instrew.Lib.LinearProbe
import Instrew.Lib.Run
import Instrew.Lib.Bytes
import Instrew.Lib.Asm
import Instrew.Lib.Dialogue
import Instrew.Lib.Buffered
import Instrew.Lib.ByteMem
import Instrew.Lib.Worklist
import Instrew.Lib.Cfg
import Instrew.Lib.Imm
import Instrew.Lib.Threads
import Instrew.Lib.Access
import Instrew.Lib.CodeMem
import Instrew.Lib.A64
import Instrew.Lib.Rv64
import Instrew.Lib.X64
import Instrew.Lib.Layout
import Instrew.Lib.FloatFormat
import Instrew.Lib.Requests
import Instrew.Lib.Transfer
import Instrew.Lib.Numeral
import Instrew.Lib.AddressSpace
import Instrew.Lib.Labelled
import Instrew.Lib.A64Data
import Instrew.Message
import Instrew.Client.CodeIndex
import Instrew.Client.IndexReaders
import Instrew.Client.SymbolName
import Instrew.Client.LoadObject
import Instrew.Client.Dispatch
import Instrew.Client.FullDispatch
import Instrew.Client.DispatchLoop
import Instrew.Client.HotLoop
import Instrew.Client.Signal
import Instrew.Client.Sigset
import Instrew.Client.Translator
import Instrew.Client.Interrupted
import Instrew.Client.Reloc
import Instrew.Client.RelocRiscv
import Instrew.Client.ProcessRela
import Instrew.Client.LoadBounds
import Instrew.Client.RelaRun
import Instrew.Client.AuipcPair
import Instrew.Client.NameGrammar
import Instrew.Client.FarStub
import Instrew.Client.RelocAarch64
import Instrew.Client.PatchStub
import Instrew.Client.LatePatch
import Instrew.Client.Arena
import Instrew.Client.ArenaBacked
import Instrew.Client.SectionLayout
import Instrew.Client.LoadFits
import Instrew.Client.CopiedSections
import Instrew.Client.RegisteredFuncs
import Instrew.Client.InitialStack
import Instrew.Client.ElfMap
import Instrew.Client.ElfLoad
import Instrew.Client.ElfImage
import Instrew.Client.Math
import Instrew.Client.WriteCode
import Instrew.Client.Memset
import Instrew.Client.Clone
import Instrew.Client.CloneSockets
import Instrew.Client.Syscall
import Instrew.Client.SyscallArgs
import Instrew.Client.Fcntl
import Instrew.Client.Unhandled
import Instrew.Client.Printf
import Instrew.Client.PrintfSinks
import Instrew.Server.FuncName
import Instrew.Server.CacheKey
import Instrew.Server.Cache
import Instrew.Server.CallConv
import Instrew.Server.ChangeCallConv
import Instrew.Server.FoldedAccesses
import Instrew.Server.SpilledFields
import Instrew.Server.ChangeCallConvCorrect
import Instrew.Server.FoldStoresRelease
import Instrew.Server.FieldMap
import Instrew.Server.Connection
import Instrew.Server.Stdio
import Instrew.System.Naming
import Instrew.System.CallNames
import Instrew.System.Entry
import Instrew.System.GuestRun
import Instrew.System.Protocol
import Instrew.System.Stdio
import Instrew.System.RemoteMemory
