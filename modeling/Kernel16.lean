import Kernel16.Kernel.Boot
import Kernel16.Kernel.Handlers
import Kernel16.Proofs.Heap.Session
import Kernel16.Proofs.Task.Ownership
import Kernel16.Proofs.Task.Resumption
import Kernel16.Proofs.Heap.Refusal
import Kernel16.Proofs.Kernel.Execution
import Kernel16.Proofs.Task.Transition
import Kernel16.Proofs.Task.Fairness
import Kernel16.Proofs.Heap.Frame
import Kernel16.Proofs.Heap.Separation
import Kernel16.Proofs.Heap.Placement
import Kernel16.Proofs.Kernel.AlignedHeap
import Kernel16.Proofs.Kernel.Clock
import Kernel16.Proofs.Kernel.Timer
import Kernel16.Proofs.Kernel.Conduct
import Kernel16.Proofs.Kernel.Masking
import Kernel16.Proofs.Kernel.Halting
import Kernel16.Proofs.Heap.Indifference
import Kernel16.Proofs.Heap.Boundaries
import Kernel16.Proofs.Heap.Reuse
import Kernel16.Proofs.Heap.ReturnOrder
import Kernel16.Proofs.Kernel.Routing
import Kernel16.Proofs.Log.Truncation
import Kernel16.Proofs.Log.Decoding
import Kernel16.Proofs.Task.Selection
import Kernel16.Proofs.Task.Admission
import Kernel16.Proofs.Kernel.Guarding
import Kernel16.Proofs.Kernel.MaskUpdate
import Kernel16.Proofs.Task.Reclamation
import Kernel16.Proofs.Kernel.Store
import Kernel16.Proofs.Kernel.Reclaiming
import Kernel16.Proofs.Heap.Takeover
import Kernel16.Proofs.Kernel.LineControl
import Kernel16.Proofs.Kernel.TrapSetup
import Kernel16.Proofs.Kernel.Booting
import Kernel16.Proofs.Task.StackOffsets
import Kernel16.Proofs.Heap.Containment
import Kernel16.Proofs.Recording
import Kernel16.Proofs.Kernel.Servicing
import Kernel16.Proofs.Kernel.BootInterrupts
import Kernel16.Proofs.Heap.Arithmetic
import Kernel16.Proofs.Kernel.Arithmetic
