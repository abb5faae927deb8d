import EmkKernel.Aml.Branches
import EmkKernel.Aml.Calls
import EmkKernel.Aml.FieldRuns
import EmkKernel.Aml.Interning
import EmkKernel.Aml.NameRuns
import EmkKernel.Aml.PathComparison
import EmkKernel.Aml.Stores
import EmkKernel.Arch.Routing
import EmkKernel.Drivers.BufferOwnership
import EmkKernel.Drivers.EhciControlTransfers
import EmkKernel.Drivers.EhciPollers
import EmkKernel.Drivers.EhciRings
import EmkKernel.Drivers.KeyboardRuns
import EmkKernel.Drivers.NvmePages
import EmkKernel.Drivers.NvmeRings
import EmkKernel.Drivers.NvmeRuns
import EmkKernel.Drivers.NvmeTransfers
import EmkKernel.Drivers.OhciControlChain
import EmkKernel.Drivers.OhciPeriodicRuns
import EmkKernel.Drivers.SataPorts
import EmkKernel.Drivers.UhciControlTransfers
import EmkKernel.Drivers.UhciFrameRuns
import EmkKernel.Drivers.UhciInterruptHeads
import EmkKernel.Drivers.UhciInterruptQueues
import EmkKernel.Drivers.UhciInterruptRuns
import EmkKernel.Drivers.UhciInterruptTds
import EmkKernel.Drivers.UsbAgreement
import EmkKernel.Drivers.XhciControlTrbs
import EmkKernel.Drivers.XhciEventRing
import EmkKernel.Drivers.XhciOverruns
import EmkKernel.Drivers.XhciPolling
import EmkKernel.Drivers.XhciRouting
import EmkKernel.Drivers.XhciTransferRing
import EmkKernel.Drivers.XhciWaits
import EmkKernel.Hal.AcpiCoverage
import EmkKernel.Hal.Enumeration
import EmkKernel.Hal.PciBars
import EmkKernel.Hal.PciCapability
import EmkKernel.Hal.PciInterrupts
import EmkKernel.Memory.Expand
import EmkKernel.Memory.Inverse
import EmkKernel.Memory.MemoryMap
import EmkKernel.Memory.Subdivision
import EmkKernel.Multithreading.IpiProtocol
import EmkKernel.Multithreading.MadtOrder
import EmkKernel.Paging.Permissions
import EmkKernel.Paging.Queries
import EmkKernel.Paging.Splitting
import EmkKernel.Paging.Switches
import EmkKernel.Paging.Unpage
import EmkKernel.Pfs.DirectoryWalk
import EmkKernel.Pfs.Partitions
import EmkKernel.Processes.ExecutedFiles
import EmkKernel.Processes.PeBounds
import EmkKernel.Processes.PeExports
import EmkKernel.Processes.PeImages
import EmkKernel.Processes.PeRelocations
import EmkKernel.Utils.Growth
import EmkKernel.Utils.PagedRuns
import EmkKernel.Utils.Pool
import EmkKernel.Utils.QueueRuns
import EmkKernel.Vfs.FileAccess
import EmkKernel.Vfs.FileReads
import EmkKernel.Vfs.Refusals
import EmkKernel.Vfs.StringGrowth
import EmkKernel.Vfs.SyncRuns
