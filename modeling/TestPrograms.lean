import TestPrograms.Crc32.Detection
import TestPrograms.Crc32.FrameCheck
import TestPrograms.Crc32.Program
import TestPrograms.Crc32.TwoBits
import TestPrograms.Devmem.Agreement
import TestPrograms.Devmem.Attributes
import TestPrograms.Devmem.Coherent
import TestPrograms.Devmem.DeviceFile
import TestPrograms.Devmem.FailedWrite
import TestPrograms.Devmem.Interleaved
import TestPrograms.Devmem.Kernel
import TestPrograms.Devmem.Kmem
import TestPrograms.Devmem.KmemSeek
import TestPrograms.Devmem.Mmap
import TestPrograms.Devmem.PageWalk
import TestPrograms.Devmem.Pmem
import TestPrograms.Devmem.PmemRoundTrip
import TestPrograms.Devmem.Position
import TestPrograms.Devmem.Region
import TestPrograms.Devmem.Tlb
import TestPrograms.Devmem.Unmapped
import TestPrograms.Devmem.WindowRestored
import TestPrograms.Editor.AnyFile
import TestPrograms.Editor.Cursor
import TestPrograms.Editor.Drive
import TestPrograms.Editor.HalfByte
import TestPrograms.Editor.OnDevice
import TestPrograms.Editor.OnKernel
import TestPrograms.Editor.Program
import TestPrograms.Editor.Redraw
import TestPrograms.Editor.Screen
import TestPrograms.Editor.Session
import TestPrograms.Editor.SessionRefines
import TestPrograms.Editor.Typing
import TestPrograms.Foundations.Crc
import TestPrograms.Foundations.CrcPeriod
import TestPrograms.Foundations.Decimal
import TestPrograms.Foundations.Files
import TestPrograms.Foundations.Hex
import TestPrograms.Foundations.Lines
import TestPrograms.Foundations.Memory
import TestPrograms.Foundations.OnesComplement
import TestPrograms.Foundations.Overwrite
import TestPrograms.Foundations.Phase
import TestPrograms.Foundations.RadixWalk
import TestPrograms.Foundations.Reach
import TestPrograms.Foundations.Runs
import TestPrograms.Foundations.SaveRestore
import TestPrograms.Foundations.Scanf
import TestPrograms.Foundations.ScanfProgress
import TestPrograms.Foundations.Search
import TestPrograms.Foundations.Strtol
import TestPrograms.Genpipe.Accesses
import TestPrograms.Genpipe.BaseRestored
import TestPrograms.Genpipe.CountProgram
import TestPrograms.Genpipe.Counters
import TestPrograms.Genpipe.DriverCalls
import TestPrograms.Genpipe.DriverRange
import TestPrograms.Genpipe.DriverRestored
import TestPrograms.Genpipe.GetPte
import TestPrograms.Genpipe.HandlersRestored
import TestPrograms.Genpipe.HexDigits
import TestPrograms.Genpipe.HexFrames
import TestPrograms.Genpipe.Hook
import TestPrograms.Genpipe.HookedCalls
import TestPrograms.Genpipe.InitUndone
import TestPrograms.Genpipe.Kallsyms
import TestPrograms.Genpipe.KallsymsText
import TestPrograms.Genpipe.Lifecycle
import TestPrograms.Genpipe.Module
import TestPrograms.Genpipe.OtherDevices
import TestPrograms.Genpipe.Overlap
import TestPrograms.Genpipe.ParamWrites
import TestPrograms.Genpipe.Permissions
import TestPrograms.Genpipe.Receive
import TestPrograms.Genpipe.References
import TestPrograms.Genpipe.SkbRoom
import TestPrograms.Genpipe.Stream
import TestPrograms.Genpipe.SymbolsFound
import TestPrograms.Genpipe.Transmit
import TestPrograms.Genpipe.Writable
import TestPrograms.Genpipe.WriteSpec
import TestPrograms.Genpipe.Writers
import TestPrograms.IpChecksum.Bursts
import TestPrograms.IpChecksum.FieldStored
import TestPrograms.IpChecksum.Internet
import TestPrograms.IpChecksum.Ipsum
import TestPrograms.IpChecksum.Program
import TestPrograms.Iplookup.Gpu
import TestPrograms.Iplookup.GpuAgrees
import TestPrograms.Iplookup.LoadEnds
import TestPrograms.Iplookup.LoadFib
import TestPrograms.Iplookup.LongestPrefix
import TestPrograms.Iplookup.Program
import TestPrograms.Iplookup.RoutesLoaded
import TestPrograms.Iplookup.RoutesUsed
import TestPrograms.Iplookup.Table
import TestPrograms.Iplookup.Timing
import TestPrograms.Linux.UserCopy
import TestPrograms.PciEnabler.Balance
import TestPrograms.PciEnabler.Program
import TestPrograms.PciEnabler.VirtToPhys
import TestPrograms.PhysTest.Faults
import TestPrograms.PhysTest.Program
import TestPrograms.PhysTest.Range
import TestPrograms.Player575.Failures
import TestPrograms.Player575.Program
import TestPrograms.Player575.RoundTrip
import TestPrograms.Rdtsc.Calibration
