import TangNano.Library.Bytes
import TangNano.Library.Clocked
import TangNano.Cache.Model
import TangNano.Cache.Address
import TangNano.Cache.Control
import TangNano.Cache.Sdram
import TangNano.Cache.Coherence
import TangNano.Cache.Transparency
import TangNano.Cache.Commands
import TangNano.Cache.Deadline
import TangNano.Core.Model
import TangNano.Emulator.Rv32i
import TangNano.Core.Decode
import TangNano.Core.Refinement
import TangNano.Emulator.Bus
import TangNano.Ramio.Model
import TangNano.Ramio.RamPath
import TangNano.Ramio.System
import TangNano.Ramio.Ports
import TangNano.Ramio.Handshake
import TangNano.Ramio.Acceptance
import TangNano.Library.Serial
import TangNano.Library.SpiFlash
import TangNano.Core.Boot
import TangNano.Core.BootRun
import TangNano.SdCard.Controller
import TangNano.SdCard.Port
import TangNano.SdCard.Card
import TangNano.SdCard.Engine
import TangNano.SdCard.System
import TangNano.SdCard.ReadTransfer
import TangNano.SdCard.WriteTransfer
import TangNano.Core.ProgramCounter
import TangNano.Emulator.Bounds
import TangNano.Emulator.Conformance
import TangNano.Os.BoundedList
import TangNano.Os.Text
import TangNano.Os.World
import TangNano.Os.SectorNumbers
import TangNano.Os.Conservation
import TangNano.Library.Framing
import TangNano.Uart.Model
import TangNano.Uart.Transmit
import TangNano.Uart.Receive
import TangNano.Library.Mailbox
import TangNano.Uart.Handover
import TangNano.Uart.Link
import TangNano.Library.Terminal
import TangNano.Os.CursorBuffer
import TangNano.Os.Input
import TangNano.SdCard.ClockDivider
import TangNano.SdCard.Drivers
import TangNano.SdCard.Storage
import TangNano.SdCard.PortSemantics
import TangNano.SdCard.PowerUp
import TangNano.SdCard.Initialization
import TangNano.SdCard.FirstUse
import TangNano.Emulator.Overflow
import TangNano.Emulator.Rejection
import TangNano.Library.CheckedArray
import TangNano.Os.CheckedBuffer
import TangNano.Os.LineEditor
import TangNano.Os.CheckedList
import TangNano.Os.TypedText
import TangNano.Cache.WarmReset
import TangNano.Os.ControlSequences
import TangNano.SdCard.BufferIndex
import TangNano.Ramio.Errors
import TangNano.Flash.Model
import TangNano.Flash.StartAddress
import TangNano.Library.Pointer
import TangNano.Os.Span
import TangNano.Os.CommandLine
import TangNano.Os.BufferBounds
import TangNano.Cache.Serving
import TangNano.Top.Model
import TangNano.Top.Memory
import TangNano.Emulator.Ram
import TangNano.Top.Program
import TangNano.Top.Boot
import TangNano.Os.Play
import TangNano.Os.OnCard
import TangNano.Uart.Drivers
import TangNano.Os.OnEmulator
import TangNano.Os.MemoryTest
