import Planetoid.Base.Program
import Planetoid.Base.Links
import Planetoid.Base.Runs
import Planetoid.Task.RingInvariant
import Planetoid.Task.MutexSafety
import Planetoid.Task.QueueRefinement
import Planetoid.Task.Fairness
import Planetoid.Task.Sleepers
import Planetoid.Task.Decisions
import Planetoid.Core.LogPrint
import Planetoid.Core.LogNumerals
import Planetoid.Memory.PoolAgreement
import Planetoid.Memory.HeapSafety
import Planetoid.Memory.HeapInterleaving
import Planetoid.Memory.HardwareWalk
import Planetoid.Memory.PoolInterleaving
import Planetoid.Memory.Hardening
import Planetoid.Memory.PoolAtomicity
import Planetoid.Memory.KernelMap
import Planetoid.Memory.HeapSizes
import Planetoid.Memory.HeapRoundTrip
import Planetoid.Memory.FrameRuns
import Planetoid.Task.MaskRuns
import Planetoid.Task.Creation
import Planetoid.Task.ContextRuns
import Planetoid.Task.Reclamation
import Planetoid.Memory.HeapObjects
import Planetoid.Arch.BoardRuns
import Planetoid.Arch.BoardProtocol
import Planetoid.Arch.BoardClock
import Planetoid.Arch.SwitchCode
import Planetoid.Arch.BootCode
import Planetoid.Memory.HeapExactness
import Planetoid.Arch.TaskStart
import Planetoid.Core.Uart
import Planetoid.Task.KernelMain
import Planetoid.Core.Console
