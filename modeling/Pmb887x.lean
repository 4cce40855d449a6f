import Pmb887x.Library.Bytes
import Pmb887x.Library.Memory
import Pmb887x.Library.Lz77
import Pmb887x.Library.Lz4Block
import Pmb887x.Preloader.Lz4
import Pmb887x.Boot.Lz4
import Pmb887x.Library.Link
import Pmb887x.Library.Crc
import Pmb887x.Preloader.Lz4Sound
import Pmb887x.Preloader.Main
import Pmb887x.Preloader.Requests
import Pmb887x.Boot.WritePayload
import Pmb887x.Boot.Plan
import Pmb887x.Boot.Session
import Pmb887x.Library.Checked
import Pmb887x.Eeprom.Parser
import Pmb887x.Eeprom.Safety
import Pmb887x.Eeprom.InlineWriter
import Pmb887x.Eeprom.Decode
import Pmb887x.Eeprom.Search
import Pmb887x.Eeprom.LastValid
import Pmb887x.Library.Driver
import Pmb887x.SimReader.Main
import Pmb887x.SimReader.Exchange
import Pmb887x.SimReader.Slot
import Pmb887x.Library.Lzss
import Pmb887x.Dsp.Lzss
import Pmb887x.Dsp.Unpack
import Pmb887x.Library.Machine
import Pmb887x.GsmL1.State
import Pmb887x.GsmL1.Tpu
import Pmb887x.GsmL1.Calls
import Pmb887x.GsmL1.Transitions
import Pmb887x.GsmL1.Attempts
import Pmb887x.GsmL1.Handshake
import Pmb887x.GsmL1.Alternation
import Pmb887x.GsmL1.Requests
import Pmb887x.GsmL1.Corrections
import Pmb887x.GsmL1.ChannelScan
import Pmb887x.GsmL1.SchData
import Pmb887x.GsmL1.GainState
import Pmb887x.GsmL1.GainControl
import Pmb887x.Library.Records
import Pmb887x.Dsp.Container
import Pmb887x.Dsp.ContainerReader
import Pmb887x.Dsp.Extract
import Pmb887x.Library.Trellis
import Pmb887x.Dsp.ChannelCode
import Pmb887x.Dsp.ChannelDecoder
import Pmb887x.Dsp.ErrorCorrection
import Pmb887x.Library.Lines
import Pmb887x.Boot.HostCommands
import Pmb887x.Boot.ForwardOutput
import Pmb887x.Boot.HostLines
import Pmb887x.Boot.OutputSplitting
import Pmb887x.SimReader.Replies
import Pmb887x.SimReader.HostLink
import Pmb887x.SimReader.Commands
import Pmb887x.Library.Words
import Pmb887x.Library.Mmio
import Pmb887x.I2c.Buffers
import Pmb887x.I2c.V1
import Pmb887x.I2c.V2
import Pmb887x.I2c.Drivers
import Pmb887x.Library.CrcDistance
import Pmb887x.I2c.Smbus
import Pmb887x.Library.Convolution
import Pmb887x.Dsp.SchEncoder
import Pmb887x.Library.PerSurvivor
import Pmb887x.Dsp.Equalizer
import Pmb887x.Library.IntelHex
import Pmb887x.Dsp.RomDump
import Pmb887x.I2c.V2Irq
import Pmb887x.I2c.V2IrqOrder
import Pmb887x.Library.FirstSeen
import Pmb887x.Eeprom.Tool
import Pmb887x.Eeprom.Words
import Pmb887x.Eeprom.DeviceEntry
import Pmb887x.Eeprom.ScriptEntry
import Pmb887x.Eeprom.Agreement
import Pmb887x.Library.Slices
import Pmb887x.Fakesign.Signature
import Pmb887x.Fakesign.Main
import Pmb887x.Fakesign.Layout
import Pmb887x.Library.Hex
import Pmb887x.Sie.SerialPort
import Pmb887x.Sie.Cgsn
import Pmb887x.UnitTest.Report
import Pmb887x.UnitTest.TapResult
import Pmb887x.UnitTest.Verdict
import Pmb887x.UnitTest.Forwarded
import Pmb887x.UnitTest.Outcome
import Pmb887x.Lib.UsartSpeed
import Pmb887x.Lib.Stopwatch
import Pmb887x.Usart.Polled
import Pmb887x.Usart.IrqRx
import Pmb887x.Eeprom.FlashSize
import Pmb887x.I2c.V2IrqRead
import Pmb887x.Eeprom.SgReference
import Pmb887x.SimReader.Tpdu
import Pmb887x.Dsp.HwLoad
import Pmb887x.Dsp.BootReplay
import Pmb887x.Library.CrcPolynomial
import Pmb887x.Preloader.Checksum
import Pmb887x.Preloader.Lz4Safe
import Pmb887x.Library.Greedy
import Pmb887x.GsmL1.Candidates
import Pmb887x.Library.Pattern
import Pmb887x.OpcodeProbe.Capture
import Pmb887x.OpcodeProbe.Raw
import Pmb887x.OpcodeProbe.RawMap
import Pmb887x.OpcodeProbe.RawCapture
import Pmb887x.OpcodeProbe.Classes
import Pmb887x.OpcodeProbe.Expansion
import Pmb887x.OpcodeProbe.ExpansionMap
import Pmb887x.OpcodeProbe.ExpansionRun
import Pmb887x.OpcodeProbe.ExpansionCapture
import Pmb887x.OpcodeProbe.ExpansionAccepted
import Pmb887x.OpcodeProbe.ExpansionMerged
import Pmb887x.OpcodeProbe.ExpansionHashes
import Pmb887x.OpcodeProbe.ExpansionRerun
import Pmb887x.Sie.GdbClient
import Pmb887x.Library.Interpolation
import Pmb887x.Library.Signed
import Pmb887x.GsmL1.Calibration
import Pmb887x.GsmL1.AfcValue
import Pmb887x.GsmL1.AgcChannels
import Pmb887x.GsmL1.AgcCorrections
import Pmb887x.GsmL1.AgcRecord
import Pmb887x.GsmL1.AgcTable
import Pmb887x.IoBridge.Main
import Pmb887x.IoBridge.Host
import Pmb887x.IoBridge.Replies
import Pmb887x.IoBridge.Accesses
import Pmb887x.IoBridge.System
import Pmb887x.IoBridge.Lockstep
import Pmb887x.Audio.Playback
import Pmb887x.Lib.CpuClock
import Pmb887x.Eeprom.InlineRoundTrip
import Pmb887x.Strace.Arguments
import Pmb887x.Library.PrefixCode
import Pmb887x.OpcodeProbe.Archive
import Pmb887x.Strace.Decoding
import Pmb887x.OpcodeProbe.ArchiveFormat
import Pmb887x.OpcodeProbe.ArchiveRoundTrip
import Pmb887x.Sie.SieCgsn
import Pmb887x.Sie.SieCgsnRead
import Pmb887x.Sie.BinaryReader
import Pmb887x.Sie.CFI
import Pmb887x.CfiIntel.Cfi
import Pmb887x.CfiIntel.PrimaryTable
import Pmb887x.CfiIntel.ExtendedGeometry
import Pmb887x.CfiIntel.BlankBlock
import Pmb887x.CfiIntel.BufferAbort
import Pmb887x.CfiIntel.FindBlock
import Pmb887x.CfiIntel.Neighbor
import Pmb887x.CfiIntel.TestBlock
import Pmb887x.Library.Bus
import Pmb887x.Library.Nor
import Pmb887x.CfiIntel.Commands
import Pmb887x.CfiIntel.ReadWrite
import Pmb887x.ChaosBoot.Host
import Pmb887x.ChaosBoot.Requests
import Pmb887x.ChaosBoot.TimedSession
import Pmb887x.ChaosBoot.Called
import Pmb887x.CfiIntel.ExtendedReadWrite
import Pmb887x.CfiIntel.FlashMap
