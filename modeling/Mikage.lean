import Mikage.Memory.Calls
import Mikage.Memory.Allocation
import Mikage.Memory.HookCover
import Mikage.Memory.Translation
import Mikage.Memory.FastPath
import Mikage.Arm.DataProcessing
import Mikage.Arm.Exclusive
import Mikage.Arm.Alignment
import Mikage.OS.Runs
import Mikage.OS.Handles
import Mikage.OS.Elapse
import Mikage.OS.CommandBuffer
import Mikage.Video.CommandList
import Mikage.Video.EnginePool
import Mikage.Processes.Sandbox
import Mikage.Processes.FileWindows
import Mikage.Debugger.PacketStream
import Mikage.OS.Stopped
import Mikage.Memory.ControlMemory
import Mikage.Memory.ByteAccess
import Mikage.Arm.DispatchTable
import Mikage.OS.Arbiter
import Mikage.Processes.PathCommands
import Mikage.Video.CombinerAgreement
import Mikage.Tools.Cia
import Mikage.OS.HandleRuns
import Mikage.OS.ResourceLimits
import Mikage.OS.TlsSlots
import Mikage.OS.FakeBuffers
import Mikage.OS.PxiTables
import Mikage.OS.MappedBuffers
import Mikage.Arm.Packing
import Mikage.Arm.Banks
import Mikage.Arm.Addressing
import Mikage.Memory.HookDispatch
import Mikage.Arm.PushPop
import Mikage.OS.Interrupts
import Mikage.Lib.Polygons
import Mikage.Video.PrimitiveAssembly
import Mikage.Video.Clipper
import Mikage.Video.Rasterizer
import Mikage.Video.Watertight
import Mikage.Video.Barycentric
import Mikage.Video.CombinerFunctions
import Mikage.Framework.ImageFormat
import Mikage.Video.TiledTextures
import Mikage.Video.DisplayTransfer
import Mikage.Video.VertexLayout
import Mikage.Video.MemoryTransfers
import Mikage.Video.DataSinks
import Mikage.Video.IndexUpload
import Mikage.Video.TextureMemory
import Mikage.Processes.DspPipe
import Mikage.Processes.KeyScrambler
import Mikage.Processes.ServiceTables
import Mikage.Processes.PxiBuffers
import Mikage.Processes.EncryptedSections
import Mikage.Processes.FileContents
import Mikage.Processes.Decompression
import Mikage.Video.PipelineKey
import Mikage.Debugger.Registers
import Mikage.Debugger.MemoryPackets
import Mikage.Framework.Serialization
import Mikage.Platform.Marshalling
import Mikage.Processes.ExtendedHeaders
import Mikage.Processes.CountedOutputs
import Mikage.Loader.ProgramCode
import Mikage.Loader.VirtualNcch
import Mikage.OS.Hypervisor
import Mikage.OS.HypervisorRuns
import Mikage.OS.HandleTransfer
import Mikage.OS.TransferTables
import Mikage.OS.MessageTransfer
import Mikage.Processes.HidRings
import Mikage.Video.UncoveredRanges
import Mikage.Video.Framebuffer
import Mikage.Video.FragmentWrites
import Mikage.Arm.Multiplies
import Mikage.Video.StructuredShaders
import Mikage.Video.EngineAgreement
import Mikage.Memory.QueryMemory
import Mikage.Memory.NewProcess
