import U7Init.Lib.MachineInt
import U7Init.Lib.Interleaving
import U7Init.Lib.Fairness
import U7Init.Lib.Simulation
import U7Init.Lib.HappensBefore
import U7Init.Lib.Outcome
import U7Init.Lib.BlockHeap
import U7Init.Lib.CString
import U7Init.Math
import U7Init.MathCpp
import U7Init.MathPrograms
import U7Init.Spinlock
import U7Init.SpinlockOrder
import U7Init.SpinlockProgress
import U7Init.Refcount
import U7Init.LastReference
import U7Init.RefcountOrder
import U7Init.Error.Heap
import U7Init.Error.Create
import U7Init.Error.Release
import U7Init.Error.Failures
import U7Init.Error.Message
import U7Init.Error.Limits
import U7Init.Error.Print
import U7Init.Error.Ownership
import U7Init.Error.Meaning
import U7Init.Error.Forwarding
import U7Init.Error.Concurrent
import U7Init.Error.Calls
import U7Init.Error.CallsSafety
import U7Init.Error.CallsProgress
import U7Init.Error.Serial
import U7Init.Lib.Qsort
import U7Init.Lib.IntrusiveList
import U7Init.Lib.Rounding
import U7Init.Lib.Double
import U7Init.Init
import U7Init.InitRuns
import U7Init.InitFailures
import U7Init.InitRegistrations
import U7Init.InitFunctions
import U7Init.Testing.Arguments
import U7Init.Testing.Runner
import U7Init.Testing.Values
import U7Init.Testing.Operands
import U7Init.Testing.Report
import U7Init.Testing.Registered
import U7Init.Testing.Transcript
import U7Init.Testing.Errors
import U7Init.Testing.Nested
import U7Init.RefcountOrder
